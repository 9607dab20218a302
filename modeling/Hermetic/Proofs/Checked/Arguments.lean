/-
The arguments of a statement, read by bytes.

* `Checked.onwards`: a loop that goes on reading;
* `Checked.argumentsFrom`, `Checked.argumentsFrom_eq`: the arguments that are read by bytes are
  those that are read by characters, with `Checked.argumentsFrom_eq_comment` and others: a step for
  each thing that may come next;
* `Checked.byteLength_of_arguments`: they are no longer than what they are read from.
-/
import Hermetic.Proofs.Checked.Cursor
import Hermetic.Proofs.Statement.Steps

namespace Hermetic

open Text (byteLength byteLength_nil byteLength_cons byteLength_append)
open SourceUnit (char)

namespace Checked

open Cursor (toBytes InText)
open Statement (opening)

/-! ### Loops -/

/-- The cursor at which a loop goes on that has come to another.  A loop that has read nothing in
between does not stop. -/
def onwards (c d : Cursor UInt8) : Option {d : Cursor UInt8 // d.rest.length < c.rest.length} :=
  if h : d.rest.length < c.rest.length then some ⟨d, h⟩ else none

variable {text : List Char} {arch : Arch} {c d : Cursor Char} {u : Char} {r : List Char}

lemma byteLength_drop_le (n : ℕ) (l : List Char) : byteLength (l.drop n) ≤ byteLength l := by
  have happend := byteLength_append (l.take n) (l.drop n)
  rw [List.take_append_drop] at happend
  omega

lemma length_toBytes_lt (hc : c.rest ≠ []) (hd : c.bump.Reaches d) :
    d.toBytes.rest.length < c.toBytes.rest.length := by
  obtain ⟨n, rfl⟩ := hd
  obtain ⟨u, r, hr⟩ := List.exists_cons_of_ne_nil hc
  have hpos := Char.utf8Size_pos u
  have hle := byteLength_drop_le n r
  change (bytes (c.bump.skip n).rest).length < (bytes c.rest).length
  rw [Cursor.rest_skip, Cursor.rest_bump, hr, List.tail_cons, length_bytes, length_bytes,
    byteLength_cons]
  omega

lemma onwards_eq (hc : c.rest ≠ []) (hd : c.bump.Reaches d) :
    onwards c.toBytes d.toBytes = some ⟨d.toBytes, length_toBytes_lt hc hd⟩ :=
  dif_pos _

/-! ### Line comments -/

/-- Whether a comment that ends its line starts at a cursor. -/
def startsComment (arch : Arch) (first : Bool) (c : Cursor UInt8) : Bool :=
  match arch with
  | .x86_64 => c.next? = some '#'
  | .aarch64 =>
    c.next? = some '#' ∧ first = true ∨ c.next? = some '/' ∧ c.second? = some '/'

/-- Whether the arguments of a statement end at a cursor, if no bracket is open. -/
def endsArguments (arch : Arch) (c : Cursor UInt8) : Bool :=
  c.next? = some ';' || startsComment arch false c

/-- After a character of one byte, the next two bytes tell the next two characters. -/
lemma pair_toBytes {p q : Char} (hp : IsNarrow p) (hq : IsNarrow q) (c : Cursor Char) :
    c.toBytes.next? = some p ∧ c.toBytes.second? = some q ↔
      c.next? = some p ∧ c.second? = some q := by
  rw [Cursor.next?_toBytes_eq_iff hp]
  refine and_congr_right fun hnext => ?_
  cases hc : c.rest with
  | nil => simp [Cursor.next?, hc] at hnext
  | cons u r =>
      obtain rfl : u = p := by simpa [Cursor.next?, hc] using hnext
      exact Cursor.second?_toBytes_eq_iff hc hp hq

lemma startsComment_eq (arch : Arch) (first : Bool) (c : Cursor Char) :
    startsComment arch first c.toBytes = Statement.startsComment arch first c := by
  have hhash := Cursor.next?_toBytes_eq_iff (show IsNarrow '#' by decide) c
  have hslash := pair_toBytes (show IsNarrow '/' by decide) (show IsNarrow '/' by decide) c
  cases arch with
  | x86_64 =>
      simp only [startsComment, hhash]
      unfold Statement.startsComment
      split <;> simp_all
  | aarch64 =>
      simp only [startsComment, hhash, hslash]
      unfold Statement.startsComment
      split <;> simp_all [beq_eq_decide]

lemma endsArguments_eq (arch : Arch) (c : Cursor Char) :
    endsArguments arch c.toBytes = Statement.endsArguments arch c := by
  simp only [endsArguments, Statement.endsArguments, startsComment_eq,
    Cursor.next?_toBytes_eq_iff (show IsNarrow ';' by decide), beq_eq_decide]

/-! ### Arguments -/

/-- The arguments from a cursor on, after the text that is kept so far and within the brackets that
are open, the last first. -/
def argumentsFrom (text : List Char) (arch : Arch) (kept : List Char) (opened : List (Char × Span))
    (c : Cursor UInt8) : Checked Error (List Char × Cursor UInt8) :=
  match c.next? with
  | none =>
    match opened with
    | [] => return (Text.trimEnd kept, c)
    | (bracket, span) :: _ => throw (.fault (.openAtEnd bracket) span)
  | some ch => do
    if ch = '\n' then
      match opened with
      | [] => return (Text.trimEnd kept, c)
      | (bracket, span) :: _ =>
        match Text.before? ['\\'] (Text.trimEnd kept) with
        | none => throw (.fault (.openAtLineEnd bracket) span)
        | some joined =>
          let kept ← headTo kept (byteLength joined)
          let next ← onwards c (← bump c)
          argumentsFrom text arch (kept ++ [' ']) opened next.1
    else if opened.isEmpty && endsArguments arch c then return (Text.trimEnd kept, c)
    else if ch = '/' ∧ c.second? = some '*' then
      let next ← onwards c (← skipBlockComment c)
      argumentsFrom text arch (kept ++ [' ']) opened next.1
    else if ch = '"' then
      let (quoted, stop) ← takeQuoted text c
      let next ← onwards c stop
      argumentsFrom text arch (kept ++ quoted) opened next.1
    else if ch = '(' ∨ ch = '[' ∨ ch = '{' then
      let span ← here c
      let next ← onwards c (← bump c)
      argumentsFrom text arch (kept ++ [ch]) ((ch, { span with len := 1 }) :: opened) next.1
    else if ch = ')' ∨ ch = ']' ∨ ch = '}' then
      match opened with
      | (bracket, _) :: others =>
        if bracket = opening ch then
          let next ← onwards c (← bump c)
          argumentsFrom text arch (kept ++ [ch]) others next.1
        else throw (.fault (.unmatched ch) { ← here c with len := 1 })
      | [] => throw (.fault (.unmatched ch) { ← here c with len := 1 })
    else
      let ch := (← rest text c).head?.getD '\uFFFD'
      let next ← onwards c (← skip ch.utf8Size c)
      argumentsFrom text arch (kept ++ [ch]) opened next.1
termination_by c.rest.length
decreasing_by all_goals exact next.2

/-- The arguments of a statement, without the blanks after them. -/
def arguments (text : List Char) (arch : Arch) (c : Cursor UInt8) :
    Checked Error (List Char × Cursor UInt8) :=
  argumentsFrom text arch [] [] c

/-- A result in characters as one in bytes. -/
def inBytes {β : Type} (x : β × Cursor Char) : β × Cursor UInt8 :=
  (x.1, x.2.toBytes)

lemma exists_next? (hc : c.rest = u :: r) :
    ∃ d, c.toBytes.next? = some d ∧ ∀ ch, IsNarrow ch → (d = ch ↔ u = ch) := by
  obtain ⟨d, hd, hchars, -⟩ := exists_byteAt [] u r
  refine ⟨d, ?_, hchars⟩
  rw [Cursor.next?, toBytes, hc, List.head?_eq_getElem?]
  exact hd

/-- A line goes on where the text that is kept ends in a backslash. -/
lemma continued (kept : List Char) :
    (∃ joined, kept.dropWhile Text.isBlank = '\\' :: joined ∧
      Text.before? ['\\'] (kept.dropWhile Text.isBlank).reverse = some joined.reverse ∧
      headTo kept.reverse (byteLength joined.reverse) = some joined.reverse) ∨
    (kept.dropWhile Text.isBlank).head? ≠ some '\\' ∧
      Text.before? ['\\'] (kept.dropWhile Text.isBlank).reverse = none := by
  by_cases hslash : (kept.dropWhile Text.isBlank).head? = some '\\'
  · obtain ⟨joined, hjoined⟩ := List.head?_eq_some_iff.mp hslash
    refine .inl ⟨joined, hjoined, ?_, ?_⟩
    · rw [Text.before?_eq_some_iff, hjoined, List.reverse_cons]
    · have happend := List.takeWhile_append_dropWhile (p := Text.isBlank) (l := kept)
      rw [← happend, hjoined, List.reverse_append, List.reverse_cons, List.append_assoc,
        headTo_append]
  · refine .inr ⟨hslash, ?_⟩
    rw [Option.eq_none_iff_forall_ne_some]
    intro joined hjoined
    rw [Text.before?_eq_some_iff, List.reverse_eq_iff] at hjoined
    exact hslash (by rw [hjoined]; simp)

/-- The next step by bytes, told by the characters that come next. -/
lemma argumentsFrom_toBytes (hc : c.rest = u :: r) (kept : List Char)
    (opened : List (Char × Span)) :
    argumentsFrom text arch kept opened c.toBytes =
      if u = '\n' then
        match opened with
        | [] => return (Text.trimEnd kept, c.toBytes)
        | (bracket, span) :: _ =>
          match Text.before? ['\\'] (Text.trimEnd kept) with
          | none => throw (.fault (.openAtLineEnd bracket) span)
          | some joined => do
            let kept ← headTo kept (byteLength joined)
            let next ← onwards c.toBytes (← bump c.toBytes)
            argumentsFrom text arch (kept ++ [' ']) opened next.1
      else if opened.isEmpty && Statement.endsArguments arch c then
        return (Text.trimEnd kept, c.toBytes)
      else if u = '/' ∧ r.head? = some '*' then do
        let next ← onwards c.toBytes (← skipBlockComment c.toBytes)
        argumentsFrom text arch (kept ++ [' ']) opened next.1
      else if u = '"' then do
        let (quoted, stop) ← takeQuoted text c.toBytes
        let next ← onwards c.toBytes stop
        argumentsFrom text arch (kept ++ quoted) opened next.1
      else if u = '(' ∨ u = '[' ∨ u = '{' then do
        let span ← here c.toBytes
        let next ← onwards c.toBytes (← bump c.toBytes)
        argumentsFrom text arch (kept ++ [u]) ((u, { span with len := 1 }) :: opened) next.1
      else if u = ')' ∨ u = ']' ∨ u = '}' then
        match opened with
        | (bracket, _) :: others =>
          if bracket = opening u then do
            let next ← onwards c.toBytes (← bump c.toBytes)
            argumentsFrom text arch (kept ++ [u]) others next.1
          else do throw (.fault (.unmatched u) { ← here c.toBytes with len := 1 })
        | [] => do throw (.fault (.unmatched u) { ← here c.toBytes with len := 1 })
      else (do
        let ch := (← rest text c.toBytes).head?.getD '\uFFFD'
        let next ← onwards c.toBytes (← skip ch.utf8Size c.toBytes)
        argumentsFrom text arch (kept ++ [ch]) opened next.1) := by
  obtain ⟨ch, hnext, hchars⟩ := exists_next? hc
  have hcomment : ch = '/' ∧ c.toBytes.second? = some '*' ↔ u = '/' ∧ r.head? = some '*' := by
    have hpair := pair_toBytes (show IsNarrow '/' by decide) (show IsNarrow '*' by decide) c
    rwa [hnext, Cursor.next?_of_rest hc, Cursor.second?_of_rest hc, Option.some.injEq,
      Option.some.injEq] at hpair
  rw [argumentsFrom.eq_def, hnext]
  simp only [hchars '\n' (by decide), endsArguments_eq, hcomment, hchars '"' (by decide),
    hchars '(' (by decide), hchars '[' (by decide), hchars '{' (by decide),
    hchars ')' (by decide), hchars ']' (by decide), hchars '}' (by decide)]
  by_cases hu : IsNarrow u
  · obtain rfl : ch = u := (hchars u hu).mpr rfl
    rfl
  · -- no bracket has several bytes
    have hne {d : Char} (hd : IsNarrow d) : u ≠ d := fun h => hu (h ▸ hd)
    have hopens : ¬ (u = '(' ∨ u = '[' ∨ u = '{') :=
      not_or.mpr ⟨hne (by decide), not_or.mpr ⟨hne (by decide), hne (by decide)⟩⟩
    have hcloses : ¬ (u = ')' ∨ u = ']' ∨ u = '}') :=
      not_or.mpr ⟨hne (by decide), not_or.mpr ⟨hne (by decide), hne (by decide)⟩⟩
    rw [if_neg hopens, if_neg hopens, if_neg hcloses, if_neg hcloses]

/-- The arguments of texts with less than some number of characters are read by bytes as they are by
characters. -/
def ReadsBelow (text : List Char) (arch : Arch) (n : ℕ) : Prop :=
  ∀ {c : Cursor Char} (kept : List Char) (opened : List (Char × Span)), c.rest.length < n →
    InText text c → argumentsFrom text arch kept.reverse opened c.toBytes =
      within ((Statement.argumentsFrom arch kept opened c).map inBytes)

lemma trimEnd_reverse (kept : List Char) :
    Text.trimEnd kept.reverse = (kept.dropWhile Text.isBlank).reverse := by
  rw [Text.trimEnd, List.reverse_reverse]

section Branches

variable {kept : List Char} {opened : List (Char × Span)}

lemma argumentsFrom_eq_nil (hc : c.rest = []) :
    argumentsFrom text arch kept.reverse opened c.toBytes =
      within ((Statement.argumentsFrom arch kept opened c).map inBytes) := by
  rw [argumentsFrom.eq_def, Cursor.next?_toBytes_of_nil hc, Statement.argumentsFrom_nil hc,
    trimEnd_reverse]
  cases opened <;> rfl

lemma argumentsFrom_eq_ended (hc : c.rest = u :: r) (hline : u ≠ '\n')
    (hend : (opened.isEmpty && Statement.endsArguments arch c) = true) :
    argumentsFrom text arch kept.reverse opened c.toBytes =
      within ((Statement.argumentsFrom arch kept opened c).map inBytes) := by
  rw [argumentsFrom_toBytes hc, if_neg hline, if_pos hend,
    Statement.argumentsFrom_ended hc hline hend, trimEnd_reverse]
  rfl

variable (hbelow : ReadsBelow text arch c.rest.length) (h : InText text c)
include hbelow h

/-- After a character at least, the loop goes on. -/
lemma ReadsBelow.onwards (hne : c.rest ≠ []) (hd : c.bump.Reaches d) (kept : List Char)
    (opened : List (Char × Span)) :
    (do
      let next ← onwards c.toBytes d.toBytes
      argumentsFrom text arch kept.reverse opened next.1) =
    within ((Statement.argumentsFrom arch kept opened d).map inBytes) := by
  rw [onwards_eq hne hd, liftM_some, pure_bind]
  exact hbelow kept opened (hd.length_lt hne) (h.bump.of_reaches hd)

lemma argumentsFrom_eq_newline (hc : c.rest = '\n' :: r) :
    argumentsFrom text arch kept.reverse opened c.toBytes =
      within ((Statement.argumentsFrom arch kept opened c).map inBytes) := by
  have hne : c.rest ≠ [] := by rw [hc]; exact List.cons_ne_nil _ r
  rw [argumentsFrom_toBytes hc, if_pos rfl, Statement.argumentsFrom_newline hc, trimEnd_reverse]
  cases opened with
  | nil => rfl
  | cons outer others =>
      obtain ⟨bracket, span⟩ := outer
      dsimp only
      obtain ⟨joined, hjoined, hbefore, hkept⟩ | ⟨hslash, hbefore⟩ := continued kept
      · have hgo := hbelow.onwards h hne (.refl _) (' ' :: joined) ((bracket, span) :: others)
        rw [List.reverse_cons] at hgo
        rw [hbefore, hjoined]
        simp only [hkept, bump_eq h hc (by decide), liftM_some, pure_bind]
        exact hgo
      · rw [hbefore]
        dsimp only
        split
        · next hjoined => exact absurd (by rw [hjoined]; rfl) hslash
        · rfl

lemma argumentsFrom_eq_comment (hgoes : Statement.GoesOn arch opened c '/' ('*' :: r)) :
    argumentsFrom text arch kept.reverse opened c.toBytes =
      within ((Statement.argumentsFrom arch kept opened c).map inBytes) := by
  have hne := hgoes.rest_ne_nil
  rw [argumentsFrom_toBytes hgoes.rest, if_neg hgoes.line, if_neg hgoes.going,
    if_pos ⟨rfl, rfl⟩, hgoes.argumentsFrom_comment, skipBlockComment_eq h hgoes.rest]
  cases hs : Cursor.settle c.skipBlockComment with
  | error e => rfl
  | ok read =>
      obtain ⟨done, d⟩ := read
      have hd := Cursor.bump_reaches_of_skipBlockComment (Cursor.settle_eq_ok_iff.mp hs)
      have hgo := hbelow.onwards h hne hd (' ' :: kept) opened
      rw [List.reverse_cons] at hgo
      exact hgo

lemma argumentsFrom_eq_quote (hgoes : Statement.GoesOn arch opened c '"' r) :
    argumentsFrom text arch kept.reverse opened c.toBytes =
      within ((Statement.argumentsFrom arch kept opened c).map inBytes) := by
  have hne := hgoes.rest_ne_nil
  rw [argumentsFrom_toBytes hgoes.rest, if_neg hgoes.line, if_neg hgoes.going,
    if_neg fun hslash => absurd hslash.1 (by decide), if_pos rfl, hgoes.argumentsFrom_quote,
    takeQuoted_eq h hgoes.rest]
  cases hs : Cursor.settle c.takeQuoted with
  | error e => rfl
  | ok read =>
      obtain ⟨quoted, d⟩ := read
      have hd := Cursor.bump_reaches_of_takeQuoted hne (Cursor.settle_eq_ok_iff.mp hs)
      have hgo := hbelow.onwards h hne hd (quoted.toList.reverse ++ kept) opened
      rw [List.reverse_append, List.reverse_reverse] at hgo
      exact hgo

lemma argumentsFrom_eq_opening (hgoes : Statement.GoesOn arch opened c u r)
    (hu : u = '(' ∨ u = '[' ∨ u = '{') :
    argumentsFrom text arch kept.reverse opened c.toBytes =
      within ((Statement.argumentsFrom arch kept opened c).map inBytes) := by
  have hne := hgoes.rest_ne_nil
  obtain ⟨hslash, hquote, hnarrow⟩ : u ≠ '/' ∧ u ≠ '"' ∧ IsNarrow u := by
    rcases hu with rfl | rfl | rfl <;> decide
  have hgo := hbelow.onwards h hne (.refl _) (u :: kept) ((u, { c.here with len := 1 }) :: opened)
  rw [List.reverse_cons] at hgo
  rw [argumentsFrom_toBytes hgoes.rest, if_neg hgoes.line, if_neg hgoes.going,
    if_neg fun hcomment => hslash hcomment.1, if_neg hquote, if_pos hu,
    hgoes.argumentsFrom_opening hu, here_eq h, bump_eq h hgoes.rest hnarrow]
  exact hgo

lemma argumentsFrom_eq_closing (hgoes : Statement.GoesOn arch opened c u r)
    (hu : u = ')' ∨ u = ']' ∨ u = '}') :
    argumentsFrom text arch kept.reverse opened c.toBytes =
      within ((Statement.argumentsFrom arch kept opened c).map inBytes) := by
  have hne := hgoes.rest_ne_nil
  obtain ⟨hslash, hquote, hopens, hnarrow⟩ :
      u ≠ '/' ∧ u ≠ '"' ∧ ¬ (u = '(' ∨ u = '[' ∨ u = '{') ∧ IsNarrow u := by
    rcases hu with rfl | rfl | rfl <;> decide
  rw [argumentsFrom_toBytes hgoes.rest, if_neg hgoes.line, if_neg hgoes.going,
    if_neg fun hcomment => hslash hcomment.1, if_neg hquote, if_neg hopens, if_pos hu,
    hgoes.argumentsFrom_closing hu, here_eq h, bump_eq h hgoes.rest hnarrow]
  cases opened with
  | nil => rfl
  | cons outer others =>
      obtain ⟨bracket, span⟩ := outer
      dsimp only
      by_cases hmatch : bracket = opening u
      · have hgo := hbelow.onwards h hne (.refl _) (u :: kept) others
        rw [List.reverse_cons] at hgo
        rw [if_pos hmatch, if_pos hmatch]
        exact hgo
      · rw [if_neg hmatch, if_neg hmatch]
        rfl

/-- Any other character may have several bytes, which are gone past together. -/
lemma argumentsFrom_eq_other (hgoes : Statement.GoesOn arch opened c u r)
    (hcomment : ¬ (u = '/' ∧ r.head? = some '*')) (hquote : u ≠ '"')
    (hopens : ¬ (u = '(' ∨ u = '[' ∨ u = '{')) (hcloses : ¬ (u = ')' ∨ u = ']' ∨ u = '}')) :
    argumentsFrom text arch kept.reverse opened c.toBytes =
      within ((Statement.argumentsFrom arch kept opened c).map inBytes) := by
  have hne := hgoes.rest_ne_nil
  have hgo := hbelow.onwards h hne (.refl _) (u :: kept) opened
  rw [List.reverse_cons] at hgo
  rw [argumentsFrom_toBytes hgoes.rest, if_neg hgoes.line, if_neg hgoes.going, if_neg hcomment,
    if_neg hquote, if_neg hopens, if_neg hcloses,
    hgoes.argumentsFrom_other hcomment hquote hopens hcloses, rest_eq h, hgoes.rest]
  simp only [List.head?_cons, Option.getD_some, skip_utf8Size h hgoes.rest, liftM_some, pure_bind]
  exact hgo

end Branches

/-- Arguments are read by bytes as they are by characters. -/
lemma argumentsFrom_eq (h : InText text c) (kept : List Char) (opened : List (Char × Span)) :
    argumentsFrom text arch kept.reverse opened c.toBytes =
      within ((Statement.argumentsFrom arch kept opened c).map inBytes) := by
  -- by the number of characters that are left, also where one of them has several bytes
  induction hn : c.rest.length using Nat.strongRecOn generalizing c kept opened with
  | ind n ih =>
      have hbelow : ReadsBelow text arch c.rest.length := fun kept opened hlt h =>
        ih _ (hn ▸ hlt) h kept opened rfl
      cases hc : c.rest with
      | nil => exact argumentsFrom_eq_nil hc
      | cons u r =>
          rcases eq_or_ne u '\n' with rfl | hline
          · exact argumentsFrom_eq_newline hbelow h hc
          by_cases hend : (opened.isEmpty && Statement.endsArguments arch c) = true
          · exact argumentsFrom_eq_ended hc hline hend
          have hgoes : Statement.GoesOn arch opened c u r := ⟨hc, hline, hend⟩
          cases Statement.Part.of u r with
          | comment => exact argumentsFrom_eq_comment hbelow h hgoes
          | quote => exact argumentsFrom_eq_quote hbelow h hgoes
          | opening _ hu => exact argumentsFrom_eq_opening hbelow h hgoes hu
          | closing _ hu => exact argumentsFrom_eq_closing hbelow h hgoes hu
          | other hcomment hquote hopens hcloses =>
              exact argumentsFrom_eq_other hbelow h hgoes hcomment hquote hopens hcloses

lemma arguments_eq (h : InText text c) :
    arguments text arch c.toBytes =
      within ((Statement.arguments arch c).map inBytes) :=
  argumentsFrom_eq h [] []

/-! ### Lengths -/

lemma byteLength_reverse (l : List Char) : byteLength l.reverse = byteLength l := by
  induction l with
  | nil => rfl
  | cons u l ih =>
      rw [List.reverse_cons, byteLength_append, ih, byteLength_cons, byteLength_cons,
        byteLength_nil]
      omega

lemma byteLength_of_peek (hc : c.peek = some u) :
    byteLength c.rest = u.utf8Size + byteLength c.bump.rest := by
  obtain ⟨r, hr⟩ := List.head?_eq_some_iff.mp hc
  rw [Cursor.rest_bump, hr]
  rfl

/-- A comment is at least as long as the blank that is kept of it. -/
lemma byteLength_of_skipBlockComment (hc : c.peek = some u)
    (h : c.skipBlockComment = (.ok (), d)) : 1 + byteLength d.rest ≤ byteLength c.rest := by
  obtain ⟨n, rfl⟩ := Cursor.bump_reaches_of_skipBlockComment h
  have hle := byteLength_drop_le n c.bump.rest
  have hpos := Char.utf8Size_pos u
  rw [byteLength_of_peek hc, Cursor.rest_skip]
  omega

lemma byteLength_of_takeQuoted {quoted : String} (h : c.takeQuoted = (.ok quoted, d)) :
    byteLength quoted.toList + byteLength d.rest = byteLength c.rest := by
  unfold Cursor.takeQuoted at h
  split at h
  · cases h
    change byteLength (String.ofList (c.rest.take _)).toList + byteLength (c.skip _).rest = _
    rw [String.toList_ofList, Cursor.rest_skip, ← byteLength_append, List.take_append_drop]
  · cases h

/-- Arguments are no longer than what they are read from. -/
lemma byteLength_of_argumentsFrom {kept args : List Char} {opened : List (Char × Span)}
    (h : Statement.argumentsFrom arch kept opened c = .ok (args, d)) :
    byteLength args + byteLength d.rest ≤ byteLength kept + byteLength c.rest := by
  have hkept (kept : List Char) :
      byteLength (kept.dropWhile Text.isBlank).reverse ≤ byteLength kept := by
    rw [byteLength_reverse]
    exact byteLength_le_of_sublist (List.dropWhile_sublist _)
  -- by the branches of the reader: each keeps at most as many bytes as it goes past
  fun_induction Statement.argumentsFrom arch kept opened c with
  | case1 kept | case3 kept | case6 kept =>
      cases h
      exact Nat.add_le_add_right (hkept _) _
  | case2 | case5 | case8 | case10 | case13 | case14 => cases h
  | case4 =>
      -- the backslash and what is kept before it make room for the blank
      rename_i kept _ _ _ _ joined hjoined hc ih
      have hle : byteLength ('\\' :: joined) ≤ byteLength kept :=
        hjoined ▸ byteLength_le_of_sublist (List.dropWhile_sublist _)
      have hrest := byteLength_of_peek hc
      have := ih h
      rw [byteLength_cons, show '\\'.utf8Size = 1 by decide] at hle
      rw [byteLength_cons, show ' '.utf8Size = 1 by decide] at this
      omega
  | case7 =>
      rename_i hc _ _ _ _ hs ih
      have hrest := byteLength_of_skipBlockComment hc hs
      have := ih h
      rw [byteLength_cons, show ' '.utf8Size = 1 by decide] at this
      omega
  | case9 =>
      rename_i hs _ _ _ ih
      have hrest := byteLength_of_takeQuoted hs
      have := ih h
      rw [byteLength_append, byteLength_reverse] at this
      omega
  | case11 =>
      rename_i hc _ _ _ _ _ ih
      have hrest := byteLength_of_peek hc
      have := ih h
      rw [byteLength_cons] at this
      omega
  | case12 =>
      rename_i hc _ _ _ _ _ _ _ _ ih
      have hrest := byteLength_of_peek hc
      have := ih h
      rw [byteLength_cons] at this
      omega
  | case15 =>
      rename_i hc _ _ _ _ _ _ ih
      have hrest := byteLength_of_peek hc
      have := ih h
      rw [byteLength_cons] at this
      omega

lemma byteLength_of_arguments {args : List Char}
    (h : Statement.arguments arch c = .ok (args, d)) : byteLength args ≤ byteLength c.rest := by
  have hle := byteLength_of_argumentsFrom h
  rw [byteLength_nil] at hle
  omega

end Checked

end Hermetic

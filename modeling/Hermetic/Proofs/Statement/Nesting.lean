/-
Arguments as texts of nested brackets and closed strings, and their pieces.

The parser keeps the brackets that are open, and where arguments are cut at their commas, they are
only counted, in the state that `Piece.cutCommas_eq_cutsFrom` shows.  Both read the same structure.

* `Nested`: texts in which brackets are nested, strings are closed and no comment starts;
* `Closes`, `closes_of_run`: what a scan reads up to its end closes the brackets that were open,
  with `nested_of_whole`;
* `Scan.State.cut`, `Scan.run_cut`: a cut stands where a scan does, and counts its brackets;
* `Piece.cutsFrom_append`, `Piece.getElem?_ofCuts`: the commas that cut, and the places of pieces;
* `Piece.CutInto`, `Piece.cutInto_of_whole`: a text that is cut at the commas outside brackets and
  strings;
* `Statement.arguments_nested`: arguments are nested, and are cut so.
-/
import Hermetic.Proofs.Operand.Indexed
import Hermetic.Proofs.Statement.Arguments

namespace Hermetic

open Text (isBlank byteLength byteLength_append ended ended_cons exists_intercalate)

/-! ### Nested texts -/

/-- A bracket and the one that closes it. -/
inductive Encloses : Char → Char → Prop
  | round : Encloses '(' ')'
  | square : Encloses '[' ']'
  | curly : Encloses '{' '}'

/-- Texts in which brackets are nested and strings are closed, without line feeds, and without the
start of a comment outside strings.  `commas` tells whether commas may stand outside brackets and
strings. -/
inductive Nested : Bool → List Char → Prop
  | nil {commas : Bool} : Nested commas []
  | char {commas : Bool} {ch : Char} {l : List Char} : Ordinary ch → (ch = ',' → commas = true) →
      ¬ (ch = '/' ∧ l.head? = some '*') → Nested commas l → Nested commas (ch :: l)
  | quoted {commas : Bool} {q l : List Char} : Quoted q → Nested commas l →
      Nested commas ('"' :: (q ++ l))
  | brackets {commas : Bool} {left right : Char} {body l : List Char} : Encloses left right →
      Nested true body → Nested commas l → Nested commas (left :: (body ++ right :: l))

/-- Texts that close the brackets that are open, the last first, and are nested between. -/
def Closes (commas : Bool) : List Char → List Char → Prop
  | [], l => Nested commas l
  | left :: others, l => ∃ body right rest, l = body ++ right :: rest ∧ Encloses left right ∧
      Nested true body ∧ Closes commas others rest

variable {arch : Arch} {commas : Bool} {opened l r : List Char} {ch : Char}

lemma Closes.char (hch : Ordinary ch) (hcomma : opened = [] → ch = ',' → commas = true)
    (hstar : ¬ (ch = '/' ∧ l.head? = some '*')) (h : Closes commas opened l) :
    Closes commas opened (ch :: l) := by
  cases opened with
  | nil => exact .char hch (hcomma rfl) hstar h
  | cons left others =>
      obtain ⟨body, right, rest, rfl, hright, hbody, hrest⟩ := h
      refine ⟨ch :: body, right, rest, rfl, hright, .char hch (fun _ => rfl) ?_ hbody, hrest⟩
      rintro ⟨rfl, hhead⟩
      exact hstar ⟨rfl, by rw [List.head?_append, hhead, Option.some_or]⟩

lemma Closes.quoted {q : List Char} (hq : Quoted q) (h : Closes commas opened l) :
    Closes commas opened ('"' :: (q ++ l)) := by
  cases opened with
  | nil => exact .quoted hq h
  | cons left others =>
      obtain ⟨body, right, rest, rfl, hright, hbody, hrest⟩ := h
      exact ⟨'"' :: (q ++ body), right, rest, by simp, hright, .quoted hq hbody, hrest⟩

/-- A bracket that is opened is closed before those that were open. -/
lemma Closes.opening (h : Closes commas (ch :: opened) l) : Closes commas opened (ch :: l) := by
  obtain ⟨body, right, rest, rfl, hright, hbody, hrest⟩ := h
  cases opened with
  | nil => exact .brackets hright hbody hrest
  | cons left others =>
      obtain ⟨body', right', rest', rfl, hright', hbody', hrest'⟩ := hrest
      exact ⟨ch :: (body ++ right :: body'), right', rest', by simp, hright',
        .brackets hright hbody hbody', hrest'⟩

lemma encloses_opening (h : ch = ')' ∨ ch = ']' ∨ ch = '}') :
    Encloses (Statement.opening ch) ch := by
  rcases h with rfl | rfl | rfl
  · exact .round
  · exact .square
  · exact .curly

open Scan

/-- What a scan reads up to where nothing is open closes what was open. -/
lemma closes_of_run {s t : State} (h : run arch commas s l = some t) (hs : s.Outside)
    (ht : t.Outside) (hopened : t.opened = []) : Closes commas s.opened l := by
  -- A string is read at once, so that the induction is on the length of the text.
  induction hl : l.length using Nat.strongRecOn generalizing l s with
  | ind size ih =>
      cases l with
      | nil =>
          cases h
          rw [hopened]
          exact .nil
      | cons ch l =>
          obtain ⟨u, hu, hrun⟩ := run_cons_eq_some_iff.mp h
          have hsize : l.length < size := by
            rw [← hl, List.length_cons]
            omega
          have htrue : step arch true s ch = some u := by
            cases commas with
            | true => exact hu
            | false => exact step_true hu
          rcases step_eq_some htrue hs with ⟨rfl, rfl⟩ | ⟨-, rfl⟩ | ⟨hch, hop, hmode⟩ |
            ⟨hch, -, rfl⟩
          · obtain ⟨q, r, rfl, hq, hr⟩ := exists_quoted hrun ht
            rw [List.length_append] at hsize
            have hrest : Closes commas s.opened r :=
              ih (s := ⟨s.opened, .plain⟩) r.length (by omega) hr (.inl rfl) rfl
            exact hrest.quoted hq
          · have hrest : Closes commas (ch :: s.opened) l :=
              ih l.length hsize hrun (.inl rfl) rfl
            exact hrest.opening
          · rw [hop]
            exact ⟨[], ch, l, rfl, encloses_opening hch, .nil,
              ih l.length hsize hrun (.inl hmode) rfl⟩
          · have houtside :
                State.Outside ⟨s.opened, if ch = '/' then .slash else .plain⟩ := by
              dsimp only [State.Outside]
              split
              · exact .inr rfl
              · exact .inl rfl
            have hrest : Closes commas s.opened l :=
              ih (s := ⟨s.opened, if ch = '/' then .slash else .plain⟩) l.length hsize hrun
                houtside rfl
            refine hrest.char hch (fun hnil hcomma => ?_) ?_
            · cases commas with
              | true => rfl
              | false =>
                  obtain ⟨opened, mode⟩ := s
                  obtain rfl : opened = [] := hnil
                  rcases hs with rfl | rfl <;> simp [step, Ends, hcomma] at hu
            · rintro ⟨rfl, hstar⟩
              obtain ⟨l, rfl⟩ := List.head?_eq_some_iff.mp hstar
              simp [run_cons, step] at hrun

/-- Texts that close what they open are nested. -/
lemma nested_of_whole (h : Whole arch commas l) : Nested commas l := by
  obtain ⟨t, ht, ho, hp⟩ := h
  exact closes_of_run ht (.inl rfl) ho hp

/-! ### Brackets that are counted -/

open Piece (CutState)

/-- The state of a cut where a scan stands. -/
def Scan.State.cut (s : State) : CutState where
  depth := s.opened.length
  reading := match s.mode with
    | .plain | .slash => .plain
    | .quoted => .quoted
    | .escaped => .escaped

lemma Scan.State.cut_of_outside {s : State} (ho : s.Outside) (hp : s.opened = []) :
    s.cut = {} := by
  obtain ⟨opened, mode⟩ := s
  obtain rfl : opened = [] := hp
  rcases ho with rfl | rfl <;> rfl

lemma Scan.step_cut {s t : State} (h : step arch true s ch = some t) :
    s.cut.step ch = t.cut := by
  have hline := ne_newline_of_step h
  obtain ⟨opened, mode⟩ := s
  -- a slash is nothing to the cutting, so that both states outside strings are one
  have houtside (hs : mode = .plain ∨ mode = .slash) :
      CutState.step ⟨opened.length, .plain⟩ ch = t.cut := by
    obtain ⟨opened', mode'⟩ := t
    rcases step_eq_some h hs with ⟨rfl, ht⟩ | ⟨hch, ht⟩ | ⟨hch, hop, hmode⟩ | ⟨hch, -, ht⟩
    · cases ht
      rfl
    · cases ht
      rw [CutState.step, if_pos hch]
      rfl
    · obtain rfl : opened = _ := hop
      obtain rfl : mode' = _ := hmode
      have hnot : ¬ (ch = '(' ∨ ch = '[' ∨ ch = '{') := by
        rcases hch with rfl | rfl | rfl <;> decide
      rw [CutState.step, if_neg hnot, if_pos hch]
      simp [State.cut]
    · cases ht
      simp only [Ordinary, List.mem_cons, List.not_mem_nil, or_false, not_or] at hch
      by_cases hslash : ch = '/' <;> simp [CutState.step, State.cut, hch, hslash]
  cases mode with
  | plain => exact houtside (.inl rfl)
  | slash => exact houtside (.inr rfl)
  | quoted =>
      simp only [step, if_neg hline, Option.some.injEq] at h
      subst h
      by_cases hquote : ch = '"'
      · subst hquote
        rfl
      · by_cases hslash : ch = '\\' <;> simp [CutState.step, State.cut, hquote, hslash]
  | escaped =>
      simp only [step, if_neg hline, Option.some.injEq] at h
      subst h
      rfl

lemma Scan.run_cut {s t : State} (h : run arch true s l = some t) : s.cut.run l = t.cut := by
  induction l generalizing s with
  | nil =>
      cases h
      rfl
  | cons ch l ih =>
      obtain ⟨u, hu, hl⟩ := run_cons_eq_some_iff.mp h
      change (s.cut.step ch).run l = t.cut
      rw [step_cut hu, ih hl]

/-- A text that closes what it opens leaves nothing open for a cut. -/
lemma Scan.Whole.cut (h : Whole arch true l) : ({} : CutState).run l = {} := by
  obtain ⟨t, ht, ho, hp⟩ := h
  exact (run_cut ht).trans (State.cut_of_outside ho hp)

/-- Within a text that closes what it opens, a cut counts no fewer than no brackets. -/
lemma Scan.Whole.depth_nonneg (h : Whole arch true (l ++ r)) :
    0 ≤ (({} : CutState).run l).depth := by
  obtain ⟨t, ht, -⟩ := h
  obtain ⟨u, hu, -⟩ := run_append_eq_some_iff.mp ht
  have hcut : ({} : CutState).run l = u.cut := run_cut hu
  rw [hcut]
  exact Int.natCast_nonneg _

/-- Within a text that closes what it opens, a comment starts only in a string. -/
lemma Scan.Whole.comment (h : Whole arch true (l ++ '/' :: '*' :: r)) :
    (({} : CutState).run l).reading ≠ .plain := by
  obtain ⟨t, ht, -⟩ := h
  obtain ⟨⟨opened, mode⟩, hu, hrest⟩ := run_append_eq_some_iff.mp ht
  obtain ⟨v, hv, hrest⟩ := run_cons_eq_some_iff.mp hrest
  obtain ⟨w, hw, -⟩ := run_cons_eq_some_iff.mp hrest
  have hcut : ({} : CutState).run l = State.cut ⟨opened, mode⟩ := run_cut hu
  rw [hcut]
  have hslash (hs : mode = .plain ∨ mode = .slash) : False := by
    rcases step_eq_some hv hs with ⟨hch, -⟩ | ⟨hch, -⟩ | ⟨hch, -⟩ | ⟨-, -, rfl⟩
    · cases hch
    · exact absurd hch (by decide)
    · exact absurd hch (by decide)
    · cases hw
  cases mode with
  | plain => exact (hslash (.inl rfl)).elim
  | slash => exact (hslash (.inr rfl)).elim
  | quoted | escaped => exact nofun

/-! ### Commas -/

namespace Piece

variable {s : CutState} {a b : List Char}

/-- A text that is cut at a comma where nothing is open. -/
lemma cutsFrom_append (h : s.run a = {}) :
    cutsFrom s (a ++ ',' :: b) = cutsFrom s a ++ cutsFrom {} b := by
  induction a generalizing s with
  | nil =>
      obtain rfl : s = {} := h
      rfl
  | cons c a ih =>
      rw [List.cons_append, cutsFrom, cutsFrom]
      split
      · next hcomma =>
          obtain ⟨rfl, rfl⟩ := hcomma
          have hrun : ({} : CutState).run a = {} := h
          rw [ih hrun]
          rfl
      · next hcomma =>
          obtain ⟨p, ps, hp⟩ := List.exists_cons_of_ne_nil (cutsFrom_ne_nil (s.step c) a)
          have hrun : (s.step c).run a = {} := h
          rw [ih hrun, hp]
          rfl

lemma run_intercalate {cuts : List (List Char)}
    (h : ∀ cut ∈ cuts, ({} : CutState).run cut = {}) :
    ({} : CutState).run ([','].intercalate cuts) = {} := by
  induction cuts with
  | nil => rfl
  | cons cut cuts ih =>
      have hcut := h cut List.mem_cons_self
      cases cuts with
      | nil => simpa [List.intercalate] using hcut
      | cons next cuts =>
          have hnext := ih fun p hp => h p (List.mem_cons_of_mem _ hp)
          have htext : [','].intercalate (cut :: next :: cuts) =
              cut ++ ',' :: [','].intercalate (next :: cuts) := by
            simp [List.intercalate]
          rw [htext, CutState.run, List.foldl_append, List.foldl_cons]
          have hstart : cut.foldl CutState.step {} = {} := hcut
          rw [hstart]
          exact hnext

/-! ### Places -/

/-- The piece of a cut stands after the cuts before it and their commas. -/
lemma getElem?_ofCuts (n : ℕ) (front back : List (List Char)) (cut : List Char) :
    (ofCuts n (front ++ cut :: back))[front.length]? =
      some (ofCut (n + byteLength (ended ',' front)) cut) := by
  induction front generalizing n with
  | nil => rfl
  | cons first front ih =>
      have hlength : n + byteLength (ended ',' (first :: front)) =
          n + byteLength first + 1 + byteLength (ended ',' front) := by
        rw [ended_cons, byteLength_append, Text.byteLength_cons]
        change n + (_ + (1 + _)) = _
        omega
      rw [hlength]
      exact ih _

lemma length_ofCuts (n : ℕ) (cuts : List (List Char)) :
    (ofCuts n cuts).length = cuts.length := by
  induction cuts generalizing n with
  | nil => rfl
  | cons cut cuts ih => exact congrArg Nat.succ (ih _)

/-- How a text is cut into the texts between its commas. -/
structure CutInto (l : List Char) (cuts : List (List Char)) : Prop where
  /-- The cuts with commas between them are the text. -/
  text : l = [','].intercalate cuts
  /-- Cuts have commas only within brackets and strings. -/
  nested : ∀ cut ∈ cuts, Nested false cut
  /-- The commas between cuts are those that are reached where nothing is open. -/
  comma : ∀ a b, l = a ++ ',' :: b → (({} : CutState).run a = {} ↔
    ∃ front back, front ≠ [] ∧ back ≠ [] ∧ cuts = front ++ back ∧
      a = [','].intercalate front ∧ b = [','].intercalate back)
  /-- Every cut has a piece. -/
  length : (split l).length = cuts.length
  /-- A piece is a cut without the blanks around it, and knows where it stands in the text. -/
  piece : ∀ front cut back, cuts = front ++ cut :: back →
    ∃ p lead tail after, (split l)[front.length]? = some p ∧ cut = lead ++ (p.text ++ tail) ∧
      (∀ c ∈ lead, isBlank c = true) ∧ (∀ c ∈ tail, isBlank c = true) ∧ X86.Trimmed p.text ∧
      Nested false p.text ∧ l = (ended ',' front ++ lead) ++ (p.text ++ after) ∧
      p.offset = byteLength (ended ',' front ++ lead)

/-- A text that closes what it opens is cut at the commas outside brackets and strings. -/
lemma cutInto_of_whole (h : Whole arch true l) (hblank : ¬ l.all isBlank = true) :
    CutInto l (cutCommas 0 false l) := by
  have hsplit : split l = ofCuts 0 (cutCommas 0 false l) := if_neg hblank
  have hwhole : ∀ cut ∈ cutCommas 0 false l, Whole arch false cut :=
    fun cut hcut => whole_of_mem_cutCommas h hcut
  -- the cuts make up the text, and each closes what it opens
  refine ⟨(intercalate_cutCommas 0 false l).symm, fun cut hcut => nested_of_whole (hwhole cut hcut),
    fun a b hl => ⟨fun hrun => ?_, ?_⟩, by rw [hsplit, length_ofCuts],
    fun front cut back hcuts => ?_⟩
  · refine ⟨cutCommas 0 false a, cutCommas 0 false b, cutCommas_ne_nil _ _ _,
      cutCommas_ne_nil _ _ _, ?_, (intercalate_cutCommas 0 false a).symm,
      (intercalate_cutCommas 0 false b).symm⟩
    rw [hl, cutCommas_eq, cutsFrom_append hrun, cutCommas_eq, cutCommas_eq]
  · rintro ⟨front, back, -, -, hcuts, rfl, -⟩
    refine run_intercalate fun cut hcut => (hwhole cut ?_).mono.cut
    rw [hcuts]
    exact List.mem_append_left _ hcut
  · have hcut : Whole arch false cut := hwhole cut (by rw [hcuts]; simp)
    obtain ⟨after, hafter, -⟩ := exists_intercalate ',' front back cut
    rw [← hcuts, intercalate_cutCommas] at hafter
    obtain ⟨tail, hends, htail⟩ := exists_append_trim cut
    refine ⟨ofCut (byteLength (ended ',' front)) cut, cut.takeWhile isBlank, tail, tail ++ after,
      ?_, hends, fun c hc => List.mem_takeWhile_imp hc, htail, X86.trimmed_trim cut,
      nested_of_whole hcut.trim, ?_, (byteLength_append _ _).symm⟩
    · rw [hsplit, hcuts, getElem?_ofCuts, Nat.zero_add]
    · change l = ended ',' front ++ cut.takeWhile isBlank ++ (Text.trim cut ++ (tail ++ after))
      rw [hafter, List.append_assoc, ← List.append_assoc (Text.trim cut),
        ← List.append_assoc (cut.takeWhile isBlank), ← hends]

lemma cutInto_nil : CutInto [] [] where
  text := rfl
  nested := nofun
  comma a b h := by simp at h
  length := rfl
  piece front cut back h := by simp at h

end Piece

/-- Arguments that are kept have no blanks at their end. -/
lemma Arguments.eq_nil_of_blank {next : Option Char} {kept raw args : List Char}
    (h : Arguments arch next kept opened raw args) (hblank : args.all isBlank = true) :
    args = [] := by
  induction h with
  | @stop kept =>
      have hnot := List.head?_dropWhile_not isBlank kept
      cases hkept : kept.dropWhile isBlank with
      | nil => rfl
      | cons c l =>
          rw [hkept] at hnot hblank
          have hc : isBlank c = true := List.all_eq_true.mp hblank c (by simp)
          simp [hc] at hnot
  | joined _ _ ih | comment _ _ ih | quoted _ _ ih | opening _ _ ih | closing _ _ ih
  | char _ _ _ _ ih => exact ih hblank

/-! ### Arguments of a statement -/

namespace Statement

/-- The parser and the cuts read the same structure.  Arguments have no line feed, their strings are
closed, their brackets are nested, and no comment starts outside strings.  Where they are cut, no
fewer than no brackets are counted, and nothing is open at the end.  The pieces have their
places, and are the texts between the commas outside brackets and strings. -/
theorem arguments_nested {c d : Cursor Char} {out : List Char}
    (h : arguments arch c = .ok (out, d)) :
    Nested true out ∧ '\n' ∉ out ∧ (({} : CutState).run out = {}) ∧
      (∀ a b, out = a ++ b → 0 ≤ (({} : CutState).run a).depth) ∧
      (∀ a b, out = a ++ '/' :: '*' :: b → (({} : CutState).run a).reading ≠ .plain) ∧
      ∃ cuts, Piece.CutInto out cuts := by
  obtain ⟨raw, -, hargs, -⟩ := arguments_of_argumentsFrom h
  have hwhole : Whole arch true out := hargs.whole
  refine ⟨nested_of_whole hwhole, fun hmem => hwhole.ne_newline hmem rfl, hwhole.cut, ?_, ?_, ?_⟩
  · rintro a b rfl
    exact hwhole.depth_nonneg
  · rintro a b rfl
    exact hwhole.comment
  · by_cases hblank : out.all isBlank = true
    · rw [hargs.eq_nil_of_blank hblank]
      exact ⟨[], Piece.cutInto_nil⟩
    · exact ⟨_, Piece.cutInto_of_whole hwhole hblank⟩

/-- A comment in brackets, and a string with a bracket and a comma. -/
theorem arguments_nested_string : ∃ out d,
    arguments .x86_64 (.ofString "8(%rax, /* ) */ %rbx), \"),\" # b\n") = .ok (out, d) ∧
      out = "8(%rax,   %rbx), \"),\"".toList ∧
      Nested true out ∧ '\n' ∉ out ∧ (({} : CutState).run out = {}) ∧
        (∀ a b, out = a ++ b → 0 ≤ (({} : CutState).run a).depth) ∧
        (∀ a b, out = a ++ '/' :: '*' :: b → (({} : CutState).run a).reading ≠ .plain) ∧
        ∃ cuts, Piece.CutInto out cuts := by
  have hok : (arguments .x86_64 (.ofString "8(%rax, /* ) */ %rbx), \"),\" # b\n")).toOption.map
      Prod.fst = some "8(%rax,   %rbx), \"),\"".toList := by decide +kernel
  cases h : arguments .x86_64 (.ofString "8(%rax, /* ) */ %rbx), \"),\" # b\n") with
  | error e =>
      rw [h] at hok
      cases hok
  | ok pair =>
      obtain ⟨out, d⟩ := pair
      rw [h] at hok
      exact ⟨out, d, rfl, Option.some.inj hok, arguments_nested h⟩

end Statement

end Hermetic

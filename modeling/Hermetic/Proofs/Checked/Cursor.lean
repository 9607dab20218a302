/-
Reading by bytes stays within the text.

A cursor in the bytes of a text goes on by single bytes, also through a character of several.
Wherever it takes a part of the text it stands between characters again, as the cursor in the
characters does.

* `Checked.bump`, `Checked.skip`, `Checked.skipWhile`: a cursor going on by bytes;
* `Checked.here`, `Checked.spanTo`, `Checked.takeWhile`, `Checked.describeNext`: what is read from
  the text or from places in it;
* `Checked.skipSpace`, `Checked.takeQuoted`: what is gone past, a byte at a time;
* `Cursor.InText`: the cursors in a text of less than 2^31 bytes, for which `Checked.skipSpace_eq`,
  `Checked.takeQuoted_eq` and the like tell that reading by bytes is reading by characters.
-/
import Hermetic.Proofs.Checked.Bounds
import Hermetic.Proofs.Source.Spacing

namespace Hermetic

open Text (byteLength byteLength_nil byteLength_cons byteLength_append)
open SourceUnit (char)

namespace Checked

/-! ### Moves by bytes -/

/-- The cursor after one more byte, if there is one. -/
def bump (c : Cursor UInt8) : Option (Cursor UInt8) :=
  match c.rest with
  | [] => some c
  | b :: r =>
    let offset := c.position.offset + 1
    if char b = '\n' then do
      let line ← add c.position.line 1
      return ⟨r, offset, line, offset⟩
    else some ⟨r, offset, c.position.line, c.position.lineStart⟩

/-- The cursor after `n` more bytes. -/
def skip : ℕ → Cursor UInt8 → Option (Cursor UInt8)
  | 0, c => some c
  | n + 1, c => do skip n (← bump c)

/-- The empty span at a cursor. -/
def here (c : Cursor UInt8) : Option Span := do
  let column ← sub c.position.offset c.position.lineStart
  let column ← add (column % 2 ^ 32) 1
  return ⟨c.position.line, column, c.position.offset, 0⟩

/-- The span from an earlier cursor to a later one. -/
def spanTo (start stop : Cursor UInt8) : Option Span := do
  let span ← here start
  let len ← sub stop.position.offset start.position.offset
  return { span with len }

/-- The text from an earlier cursor to a later one. -/
def textTo (text : List Char) (start stop : Cursor UInt8) : Option (List Char) :=
  slice text start.position.offset stop.position.offset

/-- The text that is left. -/
def rest (text : List Char) (c : Cursor UInt8) : Option (List Char) :=
  tailFrom text c.position.offset

lemma rest_of_bump {c d : Cursor UInt8} (h : bump c = some d) : d.rest = c.rest.tail := by
  unfold bump at h
  split at h
  · next hc =>
      cases h
      rw [hc]
      rfl
  · next hc =>
      rw [hc, List.tail_cons]
      dsimp only at h
      split at h
      · obtain ⟨line, -, h⟩ := Option.bind_eq_some_iff.mp h
        cases h
        rfl
      · cases h
        rfl

lemma length_le_of_bump {c d : Cursor UInt8} (h : bump c = some d) :
    d.rest.length ≤ c.rest.length := by
  rw [rest_of_bump h, List.length_tail]
  exact Nat.sub_le _ 1

/-- A byte is gone past. -/
lemma length_lt_of_bump {c d : Cursor UInt8} {ch : Char} (hc : c.next? = some ch)
    (h : bump c = some d) : d.rest.length < c.rest.length := by
  obtain ⟨rest, position⟩ := c
  cases rest with
  | nil => cases hc
  | cons b r =>
      rw [rest_of_bump h]
      exact Nat.lt_succ_self _

/-- The cursor after the bytes that pass a test. -/
def skipWhile (p : Char → Bool) (c : Cursor UInt8) : Option (Cursor UInt8) :=
  match _hc : c.next? with
  | none => some c
  | some ch => do
    if p ch then
      let next ← (bump c).attach
      skipWhile p next.1
    else return c
termination_by c.rest.length
decreasing_by exact length_lt_of_bump _hc next.2

lemma skipWhile_step (p : Char → Bool) (c : Cursor UInt8) :
    skipWhile p c =
      match c.next? with
      | none => some c
      | some ch => do if p ch then skipWhile p (← bump c) else return c := by
  rw [skipWhile]
  split
  · next hc => rw [hc]
  · next ch hc =>
      rw [hc, ← attach_bind_option (bump c) (skipWhile p)]

/-- The text up to the first byte that fails a test, and the cursor after it. -/
def takeWhile (text : List Char) (p : Char → Bool) (c : Cursor UInt8) :
    Option (List Char × Cursor UInt8) := do
  let stop ← skipWhile p c
  return (← textTo text c stop, stop)

/-- The cursor at the end of the line. -/
def takeLine (text : List Char) (c : Cursor UInt8) : Option (List Char × Cursor UInt8) :=
  takeWhile text (· != '\n') c

/-- What comes next, for a message. -/
def describeNext (text : List Char) (c : Cursor UInt8) : Option String := do
  if c.next? = none then return "end of input"
  else if c.next? = some '\n' then return "end of line"
  else
    let word := (← rest text c).takeWhile fun ch => !Text.isBlank ch
    return "'" ++ String.ofList (word.take 24) ++ "'"

/-! ### Comments and strings by bytes -/

/-- The cursor after a block comment that starts at a span, from within. -/
def commentEnd (span : Span) (c : Cursor UInt8) : Checked Error (Cursor UInt8) :=
  match _hc : c.next? with
  | none => throw (.fault .openComment { span with len := 2 })
  | some ch => do
    let next ← (bump c).attach
    if ch = '*' ∧ next.1.next? = some '/' then bump next.1 else commentEnd span next.1
termination_by c.rest.length
decreasing_by exact length_lt_of_bump _hc next.2

lemma commentEnd_step (span : Span) (c : Cursor UInt8) :
    commentEnd span c =
      match c.next? with
      | none => throw (.fault .openComment { span with len := 2 })
      | some ch => (do
        let next ← bump c
        if ch = '*' ∧ next.next? = some '/' then bump next else commentEnd span next) := by
  rw [commentEnd]
  split
  · next hc => rw [hc]
  · next ch hc =>
      rw [hc]
      exact attach_bind_liftM (bump c) fun d =>
        if ch = '*' ∧ d.next? = some '/' then liftM (bump d) else commentEnd span d

lemma length_le_of_commentEnd {span : Span} {c d : Cursor UInt8}
    (h : commentEnd span c = pure d) : d.rest.length ≤ c.rest.length := by
  fun_induction commentEnd span c with
  | case1 => cases h
  | case2 c ch hc ih =>
      obtain ⟨⟨e, he⟩, -, h⟩ := bind_eq_pure_iff.mp h
      have hle := length_le_of_bump he
      dsimp only at h
      split at h
      · exact Nat.le_trans (length_le_of_bump (liftM_eq_pure_iff.mp h)) hle
      · exact Nat.le_trans (ih ⟨e, he⟩ h) hle

/-- The cursor after the block comment whose two opening bytes come next. -/
def skipBlockComment (c : Cursor UInt8) : Checked Error (Cursor UInt8) := do
  let span ← here c
  commentEnd span (← bump (← bump c))

lemma length_lt_of_skipBlockComment {c d : Cursor UInt8} {ch : Char} (hc : c.next? = some ch)
    (h : skipBlockComment c = pure d) : d.rest.length < c.rest.length := by
  obtain ⟨span, -, h⟩ := bind_eq_pure_iff.mp h
  obtain ⟨first, hfirst, h⟩ := bind_eq_pure_iff.mp h
  obtain ⟨second, hsecond, h⟩ := bind_eq_pure_iff.mp h
  have h₁ := length_lt_of_bump hc (liftM_eq_pure_iff.mp hfirst)
  have h₂ := length_le_of_bump (liftM_eq_pure_iff.mp hsecond)
  have h₃ := length_le_of_commentEnd h
  omega

/-- The cursor after blanks and block comments. -/
def skipSpace (c : Cursor UInt8) : Checked Error (Cursor UInt8) :=
  match _hc : c.next? with
  | none => return c
  | some ch => do
    if Cursor.isSpace ch then
      let next ← (bump c).attach
      skipSpace next.1
    else if ch = '/' ∧ c.second? = some '*' then
      let stop ← attach (skipBlockComment c)
      skipSpace stop.1
    else return c
termination_by c.rest.length
decreasing_by
  · exact length_lt_of_bump _hc next.2
  · exact length_lt_of_skipBlockComment _hc stop.2

lemma skipSpace_step (c : Cursor UInt8) :
    skipSpace c =
      if c.next?.any Cursor.isSpace then (do skipSpace (← bump c))
      else if c.next? = some '/' ∧ c.second? = some '*' then
        (do skipSpace (← skipBlockComment c))
      else pure c := by
  rw [skipSpace]
  split
  · next hc => simp [hc]
  · next ch hc =>
      simp only [hc, Option.any_some, Option.some.injEq]
      rw [attach_bind_liftM (bump c) skipSpace, attach_bind (skipBlockComment c) skipSpace]

/-- The cursor at the end of a string, from within, and whether the string is closed there. -/
def quotedEnd (c : Cursor UInt8) : Option (Cursor UInt8 × Bool) :=
  match _hc : c.next? with
  | none => some (c, false)
  | some ch => do
    if ch = '\\' then
      let next ← (bump c).attach
      if next.1.next? = some '\n' then quotedEnd next.1
      else
        let stop ← (bump next.1).attach
        quotedEnd stop.1
    else if ch = '"' then return (← bump c, true)
    else if ch = '\n' then return (c, false)
    else
      let next ← (bump c).attach
      quotedEnd next.1
termination_by c.rest.length
decreasing_by
  · exact length_lt_of_bump _hc next.2
  · exact Nat.lt_of_le_of_lt (length_le_of_bump stop.2) (length_lt_of_bump _hc next.2)
  · exact length_lt_of_bump _hc next.2

lemma quotedEnd_step (c : Cursor UInt8) :
    quotedEnd c =
      match c.next? with
      | none => some (c, false)
      | some ch => (do
        if ch = '\\' then
          let next ← bump c
          if next.next? = some '\n' then quotedEnd next else quotedEnd (← bump next)
        else if ch = '"' then return (← bump c, true)
        else if ch = '\n' then return (c, false)
        else quotedEnd (← bump c)) := by
  rw [quotedEnd]
  split
  · next hc => rw [hc]
  · next ch hc =>
      rw [hc]
      dsimp only
      simp only [attach_bind_option _ quotedEnd]
      rw [attach_bind_option (bump c) fun d =>
        if d.next? = some '\n' then quotedEnd d else (do quotedEnd (← bump d))]

/-- The string whose opening quote comes next, and the cursor after it. -/
def takeQuoted (text : List Char) (c : Cursor UInt8) :
    Checked Error (List Char × Cursor UInt8) := do
  let (stop, closed) ← quotedEnd (← bump c)
  if closed then return (← textTo text c stop, stop)
  else
    let span ← spanTo c stop
    let string ← textTo text c stop
    throw (.fault (.openString (String.ofList string)) { span with len := max span.len 1 })

end Checked

/-! ### Cursors in bytes and in characters -/

namespace Cursor

/-- The cursor in the bytes of a text where another is in its characters. -/
def toBytes (c : Cursor Char) : Cursor UInt8 :=
  ⟨Checked.bytes c.rest, c.position⟩

/-- The cursors in a text that is not too long for its lines and columns to be counted. -/
structure InText (text : List Char) (c : Cursor Char) : Prop where
  size : byteLength text < 2 ^ 31
  between : ∃ before, (⟨text, {}⟩ : Cursor Char).Between before c

variable {text : List Char} {c d : Cursor Char}

lemma InText.standsIn (h : InText text c) : c.StandsIn text :=
  h.between

lemma InText.of_reaches (h : InText text c) (hcd : c.Reaches d) : InText text d :=
  ⟨h.size, h.standsIn.of_reaches hcd⟩

lemma InText.bump (h : InText text c) : InText text c.bump :=
  h.of_reaches (reaches_bump c)

lemma InText.skip (h : InText text c) (n : ℕ) : InText text (c.skip n) :=
  h.of_reaches (reaches_skip n c)

lemma InText.lineStart_le (h : InText text c) : c.position.lineStart ≤ c.position.offset := by
  obtain ⟨before, hbefore⟩ := h.between
  rw [hbefore.position, ← Position.lineStart_after before]
  exact Nat.le_add_right _ _

lemma InText.byteLength_rest_lt (h : InText text c) : byteLength c.rest < 2 ^ 31 := by
  have hrest := h.standsIn.offset_add
  have hsize := h.size
  omega

lemma count_le_byteLength (l : List Char) : l.count '\n' ≤ byteLength l := by
  induction l with
  | nil => exact Nat.le_refl 0
  | cons ch l ih =>
      have hpos := Char.utf8Size_pos ch
      rw [List.count_cons, byteLength_cons]
      split <;> omega

lemma InText.line_le (h : InText text c) : c.position.line ≤ c.position.offset + 1 := by
  obtain ⟨before, hbefore⟩ := h.between
  have hcount := count_le_byteLength before
  rw [hbefore.position, Position.line_after, Position.offset_after]
  change 1 + before.count '\n' ≤ 0 + byteLength before + 1
  omega

lemma next?_toBytes_eq_iff {ch : Char} (hch : Checked.IsNarrow ch) (c : Cursor Char) :
    c.toBytes.next? = some ch ↔ c.next? = some ch := by
  rw [next?, toBytes, Checked.head?_bytes_eq_iff hch, next?]
  cases c.rest <;> rfl

lemma next?_toBytes_of_nil (hc : c.rest = []) : c.toBytes.next? = none := by
  rw [next?, toBytes, hc]
  rfl

/-- The next byte is one of the next character. -/
lemma exists_next?_toBytes {u : Char} {r : List Char} (hc : c.rest = u :: r) :
    ∃ b ∈ String.utf8EncodeChar u, c.toBytes.next? = some (char b) := by
  obtain ⟨b, bs, hb⟩ := Checked.exists_utf8EncodeChar u
  refine ⟨b, by rw [hb]; exact List.mem_cons_self, ?_⟩
  rw [next?, toBytes, hc, Checked.bytes_cons, hb]
  rfl

lemma next?_toBytes_of_rest {u : Char} {r : List Char} (hu : Checked.IsNarrow u)
    (hc : c.rest = u :: r) : c.toBytes.next? = some u :=
  (next?_toBytes_eq_iff hu c).mpr (next?_of_rest hc)

lemma next?_toBytes_eq_none_iff (c : Cursor Char) : c.toBytes.next? = none ↔ c.next? = none := by
  cases hc : c.rest with
  | nil => exact iff_of_true (next?_toBytes_of_nil hc) (by rw [next?, hc]; rfl)
  | cons u r =>
      obtain ⟨b, -, hb⟩ := exists_next?_toBytes hc
      rw [hb, next?_of_rest hc]
      simp

lemma any_next?_toBytes {p : Char → Bool} (hp : Checked.ReadsBytes p) (c : Cursor Char) :
    c.toBytes.next?.any p = c.next?.any p := by
  cases hc : c.rest with
  | nil => rw [next?_toBytes_of_nil hc, next?, hc]; rfl
  | cons u r =>
      obtain ⟨b, hmem, hb⟩ := exists_next?_toBytes hc
      rw [hb, next?_of_rest hc]
      exact hp u b hmem

lemma all_next?_toBytes {p : Char → Bool} (hp : Checked.ReadsBytes p) (c : Cursor Char) :
    c.toBytes.next?.all p = c.next?.all p := by
  cases hc : c.rest with
  | nil => rw [next?_toBytes_of_nil hc, next?, hc]; rfl
  | cons u r =>
      obtain ⟨b, hmem, hb⟩ := exists_next?_toBytes hc
      rw [hb, next?_of_rest hc]
      exact hp u b hmem

/-- After a character of one byte, the next byte tells the next character. -/
lemma second?_toBytes_eq_iff {u ch : Char} {r : List Char} (hc : c.rest = u :: r)
    (hu : Checked.IsNarrow u) (hch : Checked.IsNarrow ch) :
    c.toBytes.second? = some ch ↔ c.second? = some ch := by
  obtain ⟨b, hb, -⟩ := Checked.utf8EncodeChar_of_isNarrow hu
  have hhead := Checked.head?_bytes_eq_iff hch r
  rw [second?, toBytes, hc, Checked.bytes_cons, hb, second?, hc, List.singleton_append,
    List.getElem?_cons_succ, List.getElem?_cons_succ, ← List.head?_eq_getElem?,
    ← List.head?_eq_getElem?, hhead]
  cases r <;> rfl

end Cursor

namespace Checked

open Cursor (toBytes InText)

variable {text : List Char} {c d : Cursor Char} {u : Char} {r : List Char}

/-! ### Places -/

lemma here_eq (h : InText text c) : here c.toBytes = some c.here := by
  have hsize := h.size
  have hoffset := h.standsIn.offset_add
  have hstart := h.lineStart_le
  have hmod : (c.position.offset - c.position.lineStart) % 2 ^ 32 =
      c.position.offset - c.position.lineStart := Nat.mod_eq_of_lt (by omega)
  simp only [here, toBytes, sub_eq hstart, Option.bind_eq_bind, Option.bind_some, hmod,
    add_eq (a := c.position.offset - c.position.lineStart) (b := 1) (by omega)]
  rfl

lemma spanTo_eq (h : InText text c) (hcd : c.Reaches d) :
    spanTo c.toBytes d.toBytes = some (c.spanTo d) := by
  obtain ⟨l, hl⟩ := hcd.between
  have hle : c.position.offset ≤ d.position.offset := by
    rw [hl.offset]
    exact Nat.le_add_right _ _
  have hsub : sub d.toBytes.position.offset c.toBytes.position.offset =
      some (d.position.offset - c.position.offset) := sub_eq hle
  rw [spanTo, here_eq h, hsub]
  rfl

lemma textTo_eq (h : InText text c) {l : List Char} (hl : c.Between l d) :
    textTo text c.toBytes d.toBytes = some l := by
  obtain ⟨before, hbefore⟩ := h.between
  have htext : text = before ++ l ++ d.rest := by
    rw [List.append_assoc, ← hl.rest]
    exact hbefore.rest
  have hstart : c.position.offset = byteLength before := by
    rw [hbefore.offset]
    exact Nat.zero_add _
  change slice text c.position.offset d.position.offset = some l
  rw [hl.offset, hstart, htext, slice_append]

lemma rest_eq (h : InText text c) : rest text c.toBytes = some c.rest := by
  obtain ⟨before, hbefore⟩ := h.between
  have htext : text = before ++ c.rest := hbefore.rest
  have hstart : c.position.offset = byteLength before := by
    rw [hbefore.offset]
    exact Nat.zero_add _
  change tailFrom text c.position.offset = some c.rest
  rw [hstart, htext, tailFrom_append]

lemma describeNext_eq (h : InText text c) :
    describeNext text c.toBytes = some c.describeNext := by
  have hnewline := Cursor.next?_toBytes_eq_iff (show IsNarrow '\n' by decide) c
  rw [describeNext, Cursor.describeNext]
  simp only [Cursor.next?_toBytes_eq_none_iff, hnewline, rest_eq h]
  cases hnext : c.next? with
  | none => rfl
  | some ch =>
      by_cases hline : ch = '\n'
      · subst hline
        rfl
      · simp only [reduceCtorEq, if_false, Option.some.injEq, hline, Option.bind_eq_bind,
          Option.bind_some]
        simp [SourceUnit.text]

/-! ### Single bytes -/

/-- The place some bytes further on in the same line. -/
def forward (p : Position) (n : ℕ) : Position :=
  { p with offset := p.offset + n }

lemma bump_of_isWide {b : UInt8} (hb : IsWide b) (l : List UInt8) (p : Position) :
    bump ⟨b :: l, p⟩ = some ⟨l, forward p 1⟩ := by
  have hline : ¬ char b = '\n' := hb.char_ne (by decide)
  rw [bump]
  dsimp only
  rw [if_neg hline]
  rfl

/-- What is read the same after each of some bytes is read the same after all of them. -/
lemma eq_append {β : Type} {f : Cursor UInt8 → β} {w : List UInt8}
    (hf : ∀ b ∈ w, ∀ l p, f ⟨b :: l, p⟩ = f ⟨l, forward p 1⟩) (l : List UInt8) (p : Position) :
    f ⟨w ++ l, p⟩ = f ⟨l, forward p w.length⟩ := by
  induction w generalizing p with
  | nil => rfl
  | cons b w ih =>
      rw [List.cons_append, hf b List.mem_cons_self,
        ih fun b' hb' => hf b' (List.mem_cons_of_mem _ hb')]
      have hforward : forward (forward p 1) w.length = forward p (b :: w).length := by
        rw [forward, forward, forward, List.length_cons, Nat.add_assoc, Nat.add_comm 1]
      rw [hforward]

lemma bump_eq_forward (hc : c.rest = u :: r) (hu : u ≠ '\n') :
    c.bump = ⟨r, forward c.position u.utf8Size⟩ := by
  rw [Cursor.bump, hc]
  dsimp only
  rw [Position.step_of_ne _ hu]
  rfl

/-- What is read the same after each byte of a character is read the same after it. -/
lemma eq_bump {β : Type} {f : Cursor UInt8 → β} (hc : c.rest = u :: r) (hu : ¬ IsNarrow u)
    (hf : ∀ b ∈ String.utf8EncodeChar u, ∀ l p, f ⟨b :: l, p⟩ = f ⟨l, forward p 1⟩) :
    f c.toBytes = f c.bump.toBytes := by
  have hline : u ≠ '\n' := by
    rintro rfl
    exact hu (by decide)
  rw [toBytes, hc, bytes_cons, eq_append hf, String.length_utf8EncodeChar, bump_eq_forward hc hline]
  rfl

lemma bump_eq (h : InText text c) (hc : c.rest = u :: r) (hu : IsNarrow u) :
    bump c.toBytes = some c.bump.toBytes := by
  obtain ⟨b, hb, rfl⟩ := utf8EncodeChar_of_isNarrow hu
  have hsize := utf8Size_of_isNarrow hu
  have hbump : c.bump = ⟨r, c.position.step (char b)⟩ := by rw [Cursor.bump, hc]
  rw [hbump, bump, toBytes, hc, bytes_cons, hb]
  dsimp only [List.singleton_append]
  by_cases hline : char b = '\n'
  · have hbound : c.position.line + 1 < 2 ^ 32 := by
      have h₁ := h.line_le
      have h₂ := h.standsIn.offset_add
      have h₃ := h.size
      omega
    rw [if_pos hline, add_eq hbound, hline, Position.step_newline]
    rfl
  · rw [if_neg hline, Position.step_of_ne _ hline, hsize]
    rfl

lemma bump_eq_of_nil (hc : c.rest = []) : bump c.toBytes = some c.toBytes := by
  rw [bump, toBytes, hc]
  rfl

/-- The bytes of a character are gone past. -/
lemma skip_utf8Size (h : InText text c) (hc : c.rest = u :: r) :
    skip u.utf8Size c.toBytes = some c.bump.toBytes := by
  by_cases hu : IsNarrow u
  · rw [utf8Size_of_isNarrow hu, skip, bump_eq h hc hu]
    rfl
  · have hline : u ≠ '\n' := by
      rintro rfl
      exact hu (by decide)
    have hwide (w : List UInt8) (hw : ∀ b ∈ w, IsWide b) (l : List UInt8) (p : Position) :
        skip w.length ⟨w ++ l, p⟩ = some ⟨l, forward p w.length⟩ := by
      induction w generalizing p with
      | nil => rfl
      | cons b w ih =>
          rw [List.length_cons, List.cons_append, skip, bump_of_isWide (hw b List.mem_cons_self)]
          change skip w.length ⟨w ++ l, forward p 1⟩ = _
          rw [ih fun b' hb' => hw b' (List.mem_cons_of_mem _ hb'), forward, forward, forward,
            Nat.add_assoc, Nat.add_comm 1]
    rw [← String.length_utf8EncodeChar, toBytes, hc, bytes_cons,
      hwide _ fun b hb => isWide_of_mem hu hb, String.length_utf8EncodeChar,
      bump_eq_forward hc hline]
    rfl

/-! ### Runs of bytes -/

/-- A test that a character passes is passed by all its bytes. -/
lemma skipWhile_eq {p : Char → Bool} (hp : ReadsBytes p) (h : InText text c) :
    skipWhile p c.toBytes = some (c.skip (Cursor.countWhile p c.rest)).toBytes := by
  induction hl : c.rest generalizing c with
  | nil =>
      rw [skipWhile_step, Cursor.next?_toBytes_of_nil hl]
      rfl
  | cons u r ih =>
      cases hpu : p u with
      | false =>
          obtain ⟨b, hb, hnext⟩ := Cursor.exists_next?_toBytes hl
          rw [skipWhile_step, hnext]
          simp [Cursor.countWhile, hp u b hb, hpu, Cursor.skip]
      | true =>
          have hstep : skipWhile p c.toBytes = skipWhile p c.bump.toBytes := by
            by_cases hu : IsNarrow u
            · rw [skipWhile_step, Cursor.next?_toBytes_of_rest hu hl]
              simp [hpu, bump_eq h hl hu]
            · refine eq_bump hl hu fun b hb l p' => ?_
              rw [skipWhile_step]
              simp [Cursor.next?, hp u b hb, hpu, bump_of_isWide (isWide_of_mem hu hb)]
          have hrest : c.bump.rest = r := by rw [Cursor.rest_bump, hl, List.tail_cons]
          have hcount : Cursor.countWhile p (u :: r) = Cursor.countWhile p r + 1 := by
            simp [Cursor.countWhile, hpu]
          rw [hstep, ih h.bump hrest, hcount, Cursor.skip]

lemma takeWhile_eq {p : Char → Bool} (hp : ReadsBytes p) (h : InText text c) :
    takeWhile text p c.toBytes =
      some (c.rest.take (Cursor.countWhile p c.rest),
        (c.skip (Cursor.countWhile p c.rest)).toBytes) := by
  rw [takeWhile, skipWhile_eq hp h]
  change (do return (← textTo text c.toBytes _, _)) = _
  rw [textTo_eq h (Cursor.between_skip _ c)]
  rfl

lemma takeLine_eq (h : InText text c) :
    takeLine text c.toBytes = some (c.takeLine.1.toList, c.takeLine.2.toBytes) := by
  have hline : ReadsBytes (· != '\n') := by
    refine ReadsBytes.not (p := (· == '\n')) (readsBytes_of_isNarrow fun ch hch => ?_)
    rw [beq_iff_eq.mp hch]
    decide
  rw [takeLine, takeWhile_eq hline h]
  simp [Cursor.takeLine, Cursor.takeWhile, Cursor.take, SourceUnit.text]

/-! ### Comments -/

lemma commentEnd_eq (span : Span) (h : InText text c) {n : ℕ} :
    commentEnd span (c.skip n).toBytes =
      match Cursor.commentRun n (c.skip n).rest with
      | some m => pure (c.skip m).toBytes
      | none => throw (.fault .openComment { span with len := 2 }) := by
  have hbump (m : ℕ) : (c.skip m).bump = c.skip (m + 1) := Cursor.skip_skip m 1 c
  -- by what is left of the comment; bytes inside a wide character end none
  induction hl : (c.skip n).rest generalizing n with
  | nil =>
      rw [commentEnd_step, Cursor.next?_toBytes_of_nil hl]
      rfl
  | cons u r ih =>
      have hrest : (c.skip (n + 1)).rest = r := by
        rw [← hbump, Cursor.rest_bump, hl, List.tail_cons]
      have hin := h.skip n
      by_cases hend : u = '*' ∧ r.head? = some '/'
      · obtain ⟨rfl, hr⟩ := hend
        obtain ⟨r', rfl⟩ := List.head?_eq_some_iff.mp hr
        have hnext : (c.skip (n + 1)).toBytes.next? = some '/' :=
          Cursor.next?_toBytes_of_rest (by decide) hrest
        have hfirst : (c.skip n).toBytes.next? = some '*' :=
          Cursor.next?_toBytes_of_rest (by decide) hl
        rw [commentEnd_step, hfirst]
        simp only [bump_eq hin hl (by decide), hbump, hnext, and_self, if_true, liftM_some,
          pure_bind, bump_eq (h.skip (n + 1)) hrest (by decide), Cursor.commentRun,
          SourceUnit.char_eq]
      · have hstep : commentEnd span (c.skip n).toBytes =
            commentEnd span (c.skip (n + 1)).toBytes := by
          rw [← hbump]
          -- a character of several bytes is passed byte by byte
          by_cases hu : IsNarrow u
          · have hnot : ¬ (u = '*' ∧ (c.skip n).bump.toBytes.next? = some '/') := by
              rw [Cursor.next?_toBytes_eq_iff (by decide), hbump, Cursor.next?, hrest]
              simpa using hend
            rw [commentEnd_step, Cursor.next?_toBytes_of_rest hu hl]
            simp only [bump_eq hin hl hu, liftM_some, pure_bind, if_neg hnot]
          · refine eq_bump hl hu fun b hb l p => ?_
            have hwide := isWide_of_mem hu hb
            have hnot : ¬ char b = '*' := hwide.char_ne (by decide)
            rw [commentEnd_step]
            simp [Cursor.next?, bump_of_isWide hwide, hnot]
        have hrun : Cursor.commentRun n (u :: r) = Cursor.commentRun (n + 1) r := by
          cases r with
          | nil => rfl
          | cons v r => exact if_neg fun hend' => hend (by simpa using hend')
        rw [hstep, ih hrest, hrun]

lemma skipBlockComment_eq (h : InText text c) {r : List Char} (hc : c.rest = '/' :: '*' :: r) :
    skipBlockComment c.toBytes =
      within ((Cursor.settle c.skipBlockComment).map fun x => x.2.toBytes) := by
  have hone : c.bump.rest = '*' :: r := by rw [Cursor.rest_bump, hc, List.tail_cons]
  have htwo : c.bump.bump = c.skip 2 := rfl
  have hrest : (c.skip 2).rest = r := by rw [Cursor.rest_skip, hc]; rfl
  have hrun := commentEnd_eq c.here (h.skip 2) (n := 0)
  rw [show (c.skip 2).skip 0 = c.skip 2 from rfl, hrest] at hrun
  rw [skipBlockComment]
  simp only [here_eq h, bump_eq h hc (by decide), bump_eq h.bump hone (by decide), liftM_some,
    pure_bind, htwo, hrun]
  rw [Cursor.skipBlockComment, hc]
  change _ = within ((Cursor.settle (match Cursor.commentRun 0 r with
    | some n => _
    | none => _)).map _)
  cases Cursor.commentRun 0 r with
  | none => rfl
  | some n =>
      change pure ((c.skip 2).skip n).toBytes = _
      rw [Cursor.skip_skip, Nat.add_comm 2]
      rfl

lemma isNarrow_of_isSpace {ch : Char} (h : Cursor.isSpace ch = true) : IsNarrow ch := by
  simp only [Cursor.isSpace, Bool.or_eq_true, beq_iff_eq] at h
  rcases h with ((rfl | rfl) | rfl) | rfl <;> decide

lemma readsBytes_isSpace : ReadsBytes Cursor.isSpace :=
  readsBytes_of_isNarrow fun _ => isNarrow_of_isSpace

lemma commentRun_add (n k : ℕ) (l : List Char) :
    Cursor.commentRun (n + k) l = (Cursor.commentRun n l).map (· + k) := by
  induction l generalizing n with
  | nil => rfl
  | cons u l ih =>
      cases l with
      | nil => rfl
      | cons v r =>
          rw [Cursor.commentRun, Cursor.commentRun]
          split
          · rw [Option.map_some, Nat.add_right_comm]
          · rw [← ih, Nat.add_right_comm]

/-! ### Blanks -/

/-- A run of blanks and comments, by its first character. -/
lemma blankRun_cons (n : ℕ) (u : Char) (r : List Char) :
    Cursor.blankRun n none (u :: r) =
      if Cursor.isSpace u then Cursor.blankRun (n + 1) none r
      else if u = '/' ∧ r.head? = some '*' then
        Cursor.blankRun (n + 2) (some n) r.tail
      else .ok n := by
  have hspace (hu : u = '/') : Cursor.isSpace u = false := by
    rw [hu]
    decide
  cases r with
  | nil => simp [Cursor.blankRun, apply_ite]
  | cons v r =>
      by_cases hopen : u = '/' ∧ v = '*'
      · simp [Cursor.blankRun, hopen, hopen.1 ▸ hspace hopen.1]
      · simp [Cursor.blankRun, hopen]

lemma skipSpace_of_isSpace (h : InText text c) (hc : c.rest = u :: r)
    (hu : Cursor.isSpace u = true) : skipSpace c.toBytes = skipSpace c.bump.toBytes := by
  rw [skipSpace_step, Cursor.any_next?_toBytes readsBytes_isSpace, Cursor.next?_of_rest hc,
    Option.any_some, if_pos hu, bump_eq h hc (isNarrow_of_isSpace hu), liftM_some, pure_bind]

/-- A comment that ends is gone past. -/
lemma skipSpace_of_comment (h : InText text c) (hc : c.rest = '/' :: '*' :: r) :
    skipSpace c.toBytes =
      match Cursor.commentRun 0 r with
      | some m => skipSpace (c.skip (m + 2)).toBytes
      | none => throw c.openComment := by
  have hslash : c.toBytes.next? = some '/' := Cursor.next?_toBytes_of_rest (by decide) hc
  have hstar : c.toBytes.second? = some '*' :=
    (Cursor.second?_toBytes_eq_iff hc (by decide) (by decide)).mpr (Cursor.second?_of_rest hc)
  have hspace : ¬ c.toBytes.next?.any Cursor.isSpace = true := by
    rw [hslash]
    decide
  rw [skipSpace_step, if_neg hspace, if_pos ⟨hslash, hstar⟩, skipBlockComment_eq h hc,
    Cursor.skipBlockComment, hc]
  change (within (Except.map _ (Cursor.settle (match Cursor.commentRun 0 r with
    | some n => _
    | none => _))) >>= skipSpace) = _
  cases Cursor.commentRun 0 r <;> rfl

lemma skipSpace_of_word (hc : c.rest = u :: r) (hu : ¬ Cursor.isSpace u = true)
    (hopen : ¬ (u = '/' ∧ r.head? = some '*')) : skipSpace c.toBytes = pure c.toBytes := by
  have hnot : ¬ (c.toBytes.next? = some '/' ∧ c.toBytes.second? = some '*') := by
    rw [Cursor.next?_toBytes_eq_iff (by decide), Cursor.next?_of_rest hc, Option.some.injEq]
    rintro ⟨rfl, hstar⟩
    rw [Cursor.second?_toBytes_eq_iff hc (by decide) (by decide),
      Cursor.second?_of_rest hc] at hstar
    exact hopen ⟨rfl, hstar⟩
  rw [skipSpace_step, Cursor.any_next?_toBytes readsBytes_isSpace, Cursor.next?_of_rest hc,
    Option.any_some, if_neg hu, if_neg hnot]

lemma skipSpace_skip (h : InText text c) {n : ℕ} :
    skipSpace (c.skip n).toBytes =
      match Cursor.blankRun n none (c.skip n).rest with
      | .ok m => pure (c.skip m).toBytes
      | .error m => throw (c.skip m).openComment := by
  -- by the number of characters, since a comment goes past many of them at once
  induction hlength : (c.skip n).rest.length using Nat.strongRecOn generalizing n with
  | ind k ih =>
      have hin := h.skip n
      cases hl : (c.skip n).rest with
      | nil =>
          rw [skipSpace_step, Cursor.second?]
          simp [Cursor.next?_toBytes_of_nil hl, Cursor.blankRun]
      | cons u r =>
          have hrest (m : ℕ) : (c.skip (n + m)).rest = (u :: r).drop m := by
            rw [← Cursor.skip_skip, Cursor.rest_skip, hl]
          rw [blankRun_cons]
          by_cases hspace : Cursor.isSpace u = true
          · have hk := ih r.length (by rw [← hlength, hl]; simp) (n := n + 1)
              (by rw [hrest 1]; rfl)
            rw [skipSpace_of_isSpace hin hl hspace, if_pos hspace]
            change skipSpace ((c.skip n).skip 1).toBytes = _
            rw [Cursor.skip_skip, hk, hrest 1]
            rfl
          rw [if_neg hspace]
          by_cases hopen : u = '/' ∧ r.head? = some '*'
          · obtain ⟨rfl, hr⟩ := hopen
            obtain ⟨r, rfl⟩ := List.head?_eq_some_iff.mp hr
            rw [skipSpace_of_comment hin hl, if_pos ⟨rfl, hr⟩, List.tail_cons,
              Cursor.blankRun_opened]
            -- the run over the comment starts from zero, the cursor from the opening
            have hadd := commentRun_add 0 (n + 2) r
            rw [Nat.zero_add] at hadd
            rw [hadd]
            cases hrun : Cursor.commentRun 0 r with
            | none => rfl
            | some m =>
                have hdrop : r.drop (m + (n + 2) - (n + 2)) = (c.skip (m + (n + 2))).rest := by
                  rw [show m + (n + 2) = n + (m + 2) by omega, hrest,
                    show n + (m + 2) - (n + 2) = m by omega]
                  rfl
                have hless : (c.skip (m + (n + 2))).rest.length < k := by
                  rw [← hdrop, ← hlength, hl, List.length_drop, List.length_cons,
                    List.length_cons]
                  omega
                have hskip : (c.skip n).skip (m + 2) = c.skip (m + (n + 2)) := by
                  rw [Cursor.skip_skip, show n + (m + 2) = m + (n + 2) by omega]
                dsimp only
                rw [hskip, ih _ hless rfl]
                simp only [Option.map_some, hdrop]
          · rw [skipSpace_of_word hl hspace hopen, if_neg hopen]

lemma skipSpace_eq (h : InText text c) :
    skipSpace c.toBytes = within ((Cursor.settle c.skipSpace).map fun x => x.2.toBytes) := by
  have hrun := skipSpace_skip h (n := 0)
  rw [show c.skip 0 = c from rfl] at hrun
  rw [hrun, Cursor.skipSpace]
  cases Cursor.blankRun 0 none c.rest <;> rfl

/-! ### Strings -/

/-- How far a string goes, by its first character. -/
lemma quotedRun_cons (n : ℕ) (u : Char) (r : List Char) :
    Cursor.quotedRun n (u :: r) =
      if u = '"' then (n + 1, true)
      else if u = '\n' then (n, false)
      else if u = '\\' ∧ r ≠ [] ∧ r.head? ≠ some '\n' then Cursor.quotedRun (n + 2) r.tail
      else Cursor.quotedRun (n + 1) r := by
  cases r with
  | nil => simp [Cursor.quotedRun]
  | cons v r => simp [Cursor.quotedRun]

lemma quotedEnd_of_isWide {b : UInt8} (hb : IsWide b) (l : List UInt8) (p : Position) :
    quotedEnd ⟨b :: l, p⟩ = quotedEnd ⟨l, forward p 1⟩ := by
  have hslash : ¬ char b = '\\' := hb.char_ne (by decide)
  have hquote : ¬ char b = '"' := hb.char_ne (by decide)
  have hline : ¬ char b = '\n' := hb.char_ne (by decide)
  rw [quotedEnd_step]
  simp [Cursor.next?, bump_of_isWide hb, hslash, hquote, hline]

/-- After the first byte of a character, a string goes on after the whole character. -/
lemma quotedEnd_bump (h : InText text c) (hc : c.rest = u :: r) :
    (do quotedEnd (← bump c.toBytes)) = quotedEnd c.bump.toBytes := by
  by_cases hu : IsNarrow u
  · rw [bump_eq h hc hu]
    rfl
  · have hline : u ≠ '\n' := by
      rintro rfl
      exact hu (by decide)
    obtain ⟨b, w, hb⟩ := exists_utf8EncodeChar u
    have hwide (b' : UInt8) (hb' : b' ∈ b :: w) : IsWide b' := isWide_of_mem hu (hb ▸ hb')
    have hlength : u.utf8Size = w.length + 1 := by
      rw [← String.length_utf8EncodeChar, hb, List.length_cons]
    rw [toBytes, hc, bytes_cons, hb, List.cons_append, bump_of_isWide (hwide b List.mem_cons_self)]
    change quotedEnd ⟨w ++ bytes r, forward c.position 1⟩ = _
    rw [eq_append fun b' hb' => quotedEnd_of_isWide (hwide b' (List.mem_cons_of_mem _ hb')),
      bump_eq_forward hc hline, hlength, forward, forward, forward, Nat.add_assoc, Nat.add_comm 1]
    rfl

/-- A character that is no quote, no backslash and no line feed stays in the string. -/
lemma quotedEnd_of_ne (h : InText text c) (hc : c.rest = u :: r) (hslash : u ≠ '\\')
    (hquote : u ≠ '"') (hline : u ≠ '\n') : quotedEnd c.toBytes = quotedEnd c.bump.toBytes := by
  by_cases hu : IsNarrow u
  · rw [quotedEnd_step, Cursor.next?_toBytes_of_rest hu hc]
    dsimp only
    rw [if_neg hslash, if_neg hquote, if_neg hline, bump_eq h hc hu]
    rfl
  · exact eq_bump hc hu fun b hb => quotedEnd_of_isWide (isWide_of_mem hu hb)

/-- After a backslash, the character behind it stays in the string, unless the line ends there. -/
lemma quotedEnd_of_slash (h : InText text c) (hc : c.rest = '\\' :: r) :
    quotedEnd c.toBytes =
      if r ≠ [] ∧ r.head? ≠ some '\n' then quotedEnd c.bump.bump.toBytes
      else quotedEnd c.bump.toBytes := by
  have hone : c.bump.rest = r := by rw [Cursor.rest_bump, hc, List.tail_cons]
  have hline := Cursor.next?_toBytes_eq_iff (show IsNarrow '\n' by decide) c.bump
  rw [quotedEnd_step, Cursor.next?_toBytes_of_rest (by decide) hc]
  simp only [bump_eq h hc (by decide), Option.bind_eq_bind, Option.bind_some, if_true, hline]
  cases r with
  | nil =>
      have hnone : c.bump.next? ≠ some '\n' := by
        rw [Cursor.next?, hone]
        exact (Option.some_ne_none _).symm
      rw [if_neg hnone, if_neg (by simp), bump_eq_of_nil hone]
      rfl
  | cons v r =>
      rw [Cursor.next?_of_rest hone]
      by_cases hv : v = '\n'
      · rw [if_pos (by rw [hv]), if_neg (by simp [hv])]
      · rw [if_neg (by simpa using hv), if_pos ⟨by simp, by simpa using hv⟩]
        exact quotedEnd_bump h.bump hone

lemma quotedEnd_skip (h : InText text c) {n : ℕ} :
    quotedEnd (c.skip n).toBytes =
      some ((c.skip (Cursor.quotedRun n (c.skip n).rest).1).toBytes,
        (Cursor.quotedRun n (c.skip n).rest).2) := by
  have hbump (m : ℕ) : (c.skip m).bump = c.skip (m + 1) := Cursor.skip_skip m 1 c
  -- by the number of characters: a backslash goes past two of them
  induction hlength : (c.skip n).rest.length using Nat.strongRecOn generalizing n with
  | ind k ih =>
      have hin := h.skip n
      cases hl : (c.skip n).rest with
      | nil =>
          rw [quotedEnd_step, Cursor.next?_toBytes_of_nil hl]
          rfl
      | cons u r =>
          have hone : (c.skip (n + 1)).rest = r := by
            rw [← hbump, Cursor.rest_bump, hl, List.tail_cons]
          have htwo : (c.skip (n + 2)).rest = r.tail := by
            rw [← hbump (n + 1), Cursor.rest_bump, hone]
          have hr := ih r.length (by rw [← hlength, hl]; simp) (n := n + 1) (by rw [hone])
          rw [hone] at hr
          rw [quotedRun_cons]
          by_cases hquote : u = '"'
          · subst hquote
            rw [quotedEnd_step, Cursor.next?_toBytes_of_rest (by decide) hl,
              bump_eq hin hl (by decide), hbump]
            rfl
          by_cases hline : u = '\n'
          · subst hline
            rw [quotedEnd_step, Cursor.next?_toBytes_of_rest (by decide) hl]
            rfl
          rw [if_neg hquote, if_neg hline]
          by_cases hslash : u = '\\'
          · subst hslash
            rw [quotedEnd_of_slash hin hl, hbump, hbump]
            -- at the end of the line or of the text there is nothing to escape
            by_cases hstays : r ≠ [] ∧ r.head? ≠ some '\n'
            · have hless : r.tail.length < k := by
                rw [← hlength, hl, List.length_tail, List.length_cons]
                omega
              rw [if_pos hstays, if_pos ⟨rfl, hstays⟩, ih _ hless (by rw [htwo]), htwo]
            · rw [if_neg hstays, if_neg fun hall => hstays hall.2, hr]
          · rw [quotedEnd_of_ne hin hl hslash hquote hline, if_neg (by simp [hslash]), hbump, hr]

lemma takeQuoted_eq (h : InText text c) {r : List Char} (hc : c.rest = '"' :: r) :
    takeQuoted text c.toBytes =
      within ((Cursor.settle c.takeQuoted).map fun x => (x.1.toList, x.2.toBytes)) := by
  have hrest : (c.skip 1).rest = r := by rw [Cursor.rest_skip, hc]; rfl
  have hrun := quotedEnd_skip h (n := 1)
  rw [hrest] at hrun
  rw [takeQuoted]
  simp only [bump_eq h hc (by decide), liftM_some, pure_bind, show c.bump = c.skip 1 from rfl, hrun]
  have hlength : min 1 ('"' :: r).length = 1 := Nat.min_eq_left (by simp)
  rw [Cursor.takeQuoted, hc, hlength, List.drop_succ_cons, List.drop_zero]
  have htext (n : ℕ) := textTo_eq h (Cursor.between_skip n c)
  generalize Cursor.quotedRun 1 r = run
  obtain ⟨n, closed⟩ := run
  cases closed with
  | true =>
      simp only [if_true, htext, liftM_some, pure_bind]
      simp [Cursor.settle, Except.map, Cursor.take, SourceUnit.text]
  | false =>
      simp only [Bool.false_eq_true, if_false, htext, spanTo_eq h (Cursor.reaches_skip n c),
        liftM_some, pure_bind]
      rfl

end Checked

end Hermetic

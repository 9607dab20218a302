/-
Where a cursor stands, told by the characters before it.

* `Position.after`: the place after some characters.  From the start of a text on, its offset is
  the number of bytes before it, its line the number of line feeds before it, and its column the
  number of bytes since the last of them (`Position.offset_after`, `Position.line_after`,
  `Position.offset_after_sub_lineStart`);
* `Cursor.Between`: the characters between two cursors, with `Cursor.Reaches.between`: a cursor
  that is reached from another lies some characters after it;
* `Cursor.Between.textTo_eq`, `Cursor.Between.len_spanTo`: the text and the span between two
  cursors are those of the characters between them;
* `Cursor.StandsIn`: the cursors in a text.
-/
import Hermetic.Source.Cursor
import Mathlib.Data.List.Induction
import Mathlib.Tactic.Lemma

namespace Hermetic

open SourceUnit

@[simp] lemma SourceUnit.char_eq (c : Char) : char c = c := rfl

/-! ### Bytes and lines of a text -/

namespace Text

@[simp] lemma byteLength_nil : byteLength [] = 0 := rfl

@[simp] lemma byteLength_cons (c : Char) (l : List Char) :
    byteLength (c :: l) = c.utf8Size + byteLength l := rfl

@[simp] lemma byteLength_append (l r : List Char) :
    byteLength (l ++ r) = byteLength l + byteLength r := by
  induction l with
  | nil => simp
  | cons c l ih =>
      rw [List.cons_append, byteLength_cons, byteLength_cons, ih, Nat.add_assoc]

/-- The characters after the last line feed. -/
def lastLine (l : List Char) : List Char :=
  (l.reverse.takeWhile (· != '\n')).reverse

@[simp] lemma lastLine_nil : lastLine [] = [] := rfl

lemma lastLine_append_newline (l : List Char) : lastLine (l ++ ['\n']) = [] := by
  simp [lastLine]

lemma lastLine_append_of_ne (l : List Char) {c : Char} (h : c ≠ '\n') :
    lastLine (l ++ [c]) = lastLine l ++ [c] := by
  simp [lastLine, h]

end Text

open Text

/-! ### Places -/

namespace Position

/-- The place after some characters. -/
def after (p : Position) (l : List Char) : Position :=
  l.foldl step p

@[simp] lemma after_nil (p : Position) : p.after [] = p := rfl

lemma after_cons (p : Position) (c : Char) (l : List Char) :
    p.after (c :: l) = (p.step c).after l := rfl

lemma after_append (p : Position) (l r : List Char) : p.after (l ++ r) = (p.after l).after r :=
  List.foldl_append

lemma offset_step (p : Position) (c : Char) : (p.step c).offset = p.offset + c.utf8Size := by
  unfold step
  dsimp only
  split <;> rfl

lemma step_newline (p : Position) :
    p.step '\n' = ⟨p.offset + 1, p.line + 1, p.offset + 1⟩ := rfl

lemma step_of_ne (p : Position) {c : Char} (h : c ≠ '\n') :
    p.step c = ⟨p.offset + c.utf8Size, p.line, p.lineStart⟩ :=
  if_neg h

/-- The offset of a place is the number of bytes before it. -/
lemma offset_after (p : Position) (l : List Char) :
    (p.after l).offset = p.offset + byteLength l := by
  induction l generalizing p with
  | nil => rfl
  | cons c l ih => rw [after_cons, ih, offset_step, byteLength_cons, Nat.add_assoc]

/-- The line of a place is the number of line feeds before it. -/
lemma line_after (p : Position) (l : List Char) :
    (p.after l).line = p.line + l.count '\n' := by
  induction l generalizing p with
  | nil => rfl
  | cons c l ih =>
      rw [after_cons, ih]
      by_cases h : c = '\n'
      · rw [h, step_newline, List.count_cons_self]
        exact Nat.add_right_comm p.line 1 _
      · rw [step_of_ne p h, List.count_cons_of_ne h]

/-- The line of a place begins as many bytes before it as there are after the last line feed. -/
lemma lineStart_after (l : List Char) :
    (after {} l).lineStart + byteLength (lastLine l) = (after {} l).offset := by
  induction l using List.reverseRecOn with
  | nil => rfl
  | append_singleton l c ih =>
      rw [after_append, after_cons, after_nil]
      by_cases h : c = '\n'
      · rw [h, step_newline, lastLine_append_newline]
        rfl
      · rw [step_of_ne _ h, lastLine_append_of_ne l h, byteLength_append, byteLength_cons,
          byteLength_nil, Nat.add_zero, ← Nat.add_assoc, ih]

lemma offset_after_sub_lineStart (l : List Char) :
    (after {} l).offset - (after {} l).lineStart = byteLength (lastLine l) := by
  have h := lineStart_after l
  omega

end Position

/-! ### Characters between cursors -/

namespace Cursor

/-- One cursor stands some characters after another. -/
structure Between (c : Cursor Char) (l : List Char) (d : Cursor Char) : Prop where
  rest : c.rest = l ++ d.rest
  position : d.position = c.position.after l

lemma Between.refl (c : Cursor Char) : c.Between [] c :=
  ⟨rfl, rfl⟩

lemma Between.trans {c d e : Cursor Char} {l r : List Char} (h₁ : c.Between l d)
    (h₂ : d.Between r e) : c.Between (l ++ r) e where
  rest := by rw [h₁.rest, h₂.rest, List.append_assoc]
  position := by rw [h₂.position, h₁.position, Position.after_append]

lemma between_bump {c : Cursor Char} {u : Char} {r : List Char} (h : c.rest = u :: r) :
    c.Between [u] c.bump := by
  have hbump : c.bump = ⟨r, c.position.step u⟩ := by
    rw [bump, h]
  rw [hbump]
  exact ⟨h, rfl⟩

/-- A move goes past the characters that it counts. -/
lemma between_skip (n : ℕ) (c : Cursor Char) : c.Between (c.rest.take n) (c.skip n) := by
  induction n generalizing c with
  | zero => exact Between.refl c
  | succ n ih =>
      cases hr : c.rest with
      | nil =>
          have hbump : c.bump = c := by rw [bump, hr]
          have h := ih c
          rw [hr, List.take_nil] at h
          rw [List.take_nil, skip, hbump]
          exact h
      | cons u r =>
          have hrest : c.bump.rest = r := by rw [rest_bump, hr, List.tail_cons]
          have h := (between_bump hr).trans (ih c.bump)
          rw [hrest, List.singleton_append] at h
          exact h

lemma between_skip_length {c : Cursor Char} {l r : List Char} (h : c.rest = l ++ r) :
    c.Between l (c.skip l.length) := by
  have hskip := between_skip l.length c
  rw [h, List.take_left] at hskip
  exact hskip

/-- A cursor that is reached stands some characters later. -/
lemma Reaches.between {c d : Cursor Char} (h : c.Reaches d) : ∃ l, c.Between l d := by
  obtain ⟨n, rfl⟩ := h
  exact ⟨_, between_skip n c⟩

namespace Between

variable {c d : Cursor Char} {l : List Char}

lemma offset (h : c.Between l d) : d.position.offset = c.position.offset + byteLength l := by
  rw [h.position, Position.offset_after]

/-- The span between two cursors has the bytes of the characters between them. -/
lemma len_spanTo (h : c.Between l d) : (c.spanTo d).len = byteLength l := by
  change d.position.offset - c.position.offset = byteLength l
  rw [h.offset, Nat.add_sub_cancel_left]

lemma unitsOfBytes_byteLength (l r : List Char) :
    unitsOfBytes (byteLength l) (l ++ r) = l := by
  induction l with
  | nil =>
      rw [byteLength_nil]
      cases r <;> rfl
  | cons c l ih =>
      obtain ⟨k, hk⟩ := Nat.exists_eq_succ_of_ne_zero
        (Nat.pos_iff_ne_zero.mp (Char.utf8Size_pos c))
      have hn : byteLength (c :: l) = (k + byteLength l) + 1 := by
        rw [byteLength_cons, hk]
        omega
      have hsub : k + byteLength l + 1 - width c = byteLength l := by
        change k + byteLength l + 1 - c.utf8Size = byteLength l
        omega
      rw [hn, List.cons_append, unitsOfBytes, hsub, ih]

/-- The text between two cursors is that of the characters between them. -/
lemma textTo_eq (h : c.Between l d) : c.textTo d = String.ofList l := by
  have hlen : d.position.offset - c.position.offset = byteLength l := h.len_spanTo
  rw [textTo, hlen, h.rest, unitsOfBytes_byteLength]
  rfl

end Between

/-! ### Cursors in a text -/

/-- A cursor stands in a text. -/
def StandsIn (text : List Char) (c : Cursor Char) : Prop :=
  ∃ before, (⟨text, {}⟩ : Cursor Char).Between before c

variable {text : List Char} {c d : Cursor Char}

lemma standsIn_ofString (text : String) : (ofString text : Cursor Char).StandsIn text.toList :=
  ⟨[], .refl _⟩

lemma StandsIn.of_between (h : c.StandsIn text) {l : List Char} (hl : c.Between l d) :
    d.StandsIn text := by
  obtain ⟨before, hbefore⟩ := h
  exact ⟨_, hbefore.trans hl⟩

lemma StandsIn.of_reaches (h : c.StandsIn text) (hcd : c.Reaches d) : d.StandsIn text := by
  obtain ⟨l, hl⟩ := hcd.between
  exact h.of_between hl

lemma StandsIn.skip (h : c.StandsIn text) (n : ℕ) : (c.skip n).StandsIn text :=
  h.of_reaches (reaches_skip n c)

lemma StandsIn.bump (h : c.StandsIn text) : c.bump.StandsIn text :=
  h.of_reaches (reaches_bump c)

lemma StandsIn.offset_add (h : c.StandsIn text) :
    c.position.offset + byteLength c.rest = byteLength text := by
  obtain ⟨before, hbefore⟩ := h
  have hrest : text = before ++ c.rest := hbefore.rest
  rw [hbefore.offset, hrest, byteLength_append]
  exact congrArg (· + _) (Nat.zero_add _)

end Cursor

end Hermetic

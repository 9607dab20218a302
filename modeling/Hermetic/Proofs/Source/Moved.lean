/-
Texts that stand further down.

What is read from a cursor depends on its place in one way only: places and spans are counted from
the start of the text.

* `Shift`: a number of bytes and of lines, with `Shift.past`: those of a text;
* `Position.moved`, `Span.moved`, `Error.moved`, `Cursor.moved`: the same further down;
* `Outcome.moved`, `Outcome.moved_bind`: computations that fail and succeed further down;
* `Cursor.skip_moved`, `Cursor.skipSpace_moved`, `Cursor.takeQuoted_moved` and so on: moves.
-/
import Hermetic.Proofs.Source.Position

namespace Hermetic

/-- How far a text stands from the start of another. -/
structure Shift where
  bytes : ℕ
  lines : ℕ
deriving DecidableEq, Repr

/-- The bytes and the lines of a text. -/
def Shift.past (l : List Char) : Shift :=
  ⟨Text.byteLength l, l.count '\n'⟩

variable (m : Shift)

/-! ### Places -/

/-- A place further down. -/
def Position.moved (p : Position) : Position :=
  ⟨p.offset + m.bytes, p.line + m.lines, p.lineStart + m.bytes⟩

/-- A stretch of text further down, in the same columns. -/
def Span.moved (s : Span) : Span :=
  { s with line := s.line + m.lines, offset := s.offset + m.bytes }

/-- A fault further down. -/
def Error.moved : Error → Error
  | .malformed f site => .malformed f { site with span := site.span.moved m }
  | e => e

@[simp] lemma Error.moved_fault (f : SyntaxFault) (span : Span) :
    (Error.fault f span).moved m = .fault f (span.moved m) :=
  rfl

namespace Position

/-- A text that ends in a line feed leads to the place that is its length away. -/
lemma moved_start {l : List Char} (h : Text.lastLine l = []) :
    moved (.past l) {} = after {} l := by
  have hline := lineStart_after l
  rw [h, Text.byteLength_nil, Nat.add_zero] at hline
  have hoffset := offset_after {} l
  rw [moved, Position.mk.injEq, hline, hoffset, line_after]
  exact ⟨rfl, rfl, rfl⟩

lemma step_moved (p : Position) (u : Char) : (p.moved m).step u = (p.step u).moved m := by
  by_cases h : u = '\n'
  · subst h
    rw [step_newline, step_newline]
    simp [moved, Nat.add_right_comm _ 1]
  · rw [step_of_ne _ h, step_of_ne _ h]
    simp [moved, Nat.add_right_comm]

@[simp] lemma span_moved (p : Position) : (p.moved m).span = p.span.moved m := by
  simp only [span, moved, Span.moved, Nat.add_sub_add_right]

end Position

/-! ### Outcomes -/

/-- A result or an error further down. -/
def Outcome.moved {α β : Type} (f : α → β) : Except Error α → Except Error β
  | .ok a => .ok (f a)
  | .error e => .error (e.moved m)

namespace Outcome

variable {m} {α β γ δ : Type}

@[simp] lemma moved_ok (f : α → β) (a : α) : moved m f (.ok a) = .ok (f a) := rfl

@[simp] lemma moved_error (f : α → β) (e : Error) :
    moved m f (.error e) = .error (e.moved m) := rfl

/-- If what follows is read alike further down, so is all of it. -/
lemma moved_bind {x : Except Error α} {f : α → β} {g : α → Except Error γ}
    {g' : β → Except Error δ} {f' : γ → δ} (h : ∀ a, x = .ok a → g' (f a) = moved m f' (g a)) :
    (moved m f x >>= g') = moved m f' (x >>= g) := by
  cases x with
  | error e => rfl
  | ok a => exact h a rfl

lemma moved_mapM {f f' : α → Except Error β} (h : ∀ a, f' a = moved m id (f a)) (l : List α) :
    l.mapM f' = moved m id (l.mapM f) := by
  induction l with
  | nil => rfl
  | cons a l ih =>
      rw [List.mapM_cons, List.mapM_cons, h]
      refine moved_bind fun b _ => ?_
      rw [ih]
      exact moved_bind fun r _ => rfl

end Outcome

/-! ### Cursors -/

namespace Cursor

/-- A cursor further down. -/
def moved (c : Cursor Char) : Cursor Char :=
  ⟨c.rest, c.position.moved m⟩

/-- What is read and the cursor after it, further down. -/
abbrev movedPair {β : Type} (p : β × Cursor Char) : β × Cursor Char :=
  (p.1, p.2.moved m)

variable (c d : Cursor Char)

@[simp] lemma rest_moved : (c.moved m).rest = c.rest := rfl

@[simp] lemma peek_moved : (c.moved m).peek = c.peek := rfl

@[simp] lemma next?_moved : (c.moved m).next? = c.next? := rfl

@[simp] lemma second?_moved : (c.moved m).second? = c.second? := rfl

@[simp] lemma describeNext_moved : (c.moved m).describeNext = c.describeNext := rfl

@[simp] lemma here_moved : (c.moved m).here = c.here.moved m :=
  Position.span_moved m c.position

@[simp] lemma bump_moved : (c.moved m).bump = c.bump.moved m := by
  unfold bump
  rw [rest_moved]
  split
  · rfl
  · rw [moved, moved, Position.step_moved]

@[simp] lemma skip_moved (n : ℕ) : (c.moved m).skip n = (c.skip n).moved m := by
  induction n generalizing c with
  | zero => rfl
  | succ n ih => rw [skip, bump_moved, ih, skip]

@[simp] lemma spanTo_moved : (c.moved m).spanTo (d.moved m) = (c.spanTo d).moved m := by
  rw [spanTo, here_moved]
  simp only [spanTo, Span.moved, moved, Position.moved, Nat.add_sub_add_right]

@[simp] lemma textTo_moved : (c.moved m).textTo (d.moved m) = c.textTo d := by
  simp only [textTo, moved, Position.moved, Nat.add_sub_add_right]

@[simp] lemma take_moved (n : ℕ) : (c.moved m).take n = movedPair m (c.take n) := by
  simp only [take, rest_moved, skip_moved]

@[simp] lemma takeWhile_moved (p : Char → Bool) :
    (c.moved m).takeWhile p = movedPair m (c.takeWhile p) :=
  take_moved m c _

@[simp] lemma takeLine_moved : (c.moved m).takeLine = movedPair m c.takeLine :=
  takeWhile_moved m c _

@[simp] lemma openComment_moved : (c.moved m).openComment = c.openComment.moved m := by
  rw [openComment, here_moved]
  rfl

/-- The outcome of a move further down. -/
abbrev movedOutcome {β : Type} (x : Except Error β × Cursor Char) : Except Error β × Cursor Char :=
  (Outcome.moved m id x.1, x.2.moved m)

lemma settle_movedOutcome {β : Type} (x : Except Error β × Cursor Char) :
    settle (movedOutcome m x) = Outcome.moved m (movedPair m) (settle x) := by
  obtain ⟨e | b, c⟩ := x <;> rfl

lemma skipSpace_moved :
    settle (c.moved m).skipSpace = Outcome.moved m (movedPair m) (settle c.skipSpace) := by
  rw [← settle_movedOutcome]
  congr 1
  unfold skipSpace
  rw [rest_moved]
  split <;> simp

lemma skipBlockComment_moved : settle (c.moved m).skipBlockComment =
    Outcome.moved m (movedPair m) (settle c.skipBlockComment) := by
  rw [← settle_movedOutcome]
  congr 1
  unfold skipBlockComment
  rw [rest_moved]
  split <;> simp

lemma takeQuoted_moved :
    settle (c.moved m).takeQuoted = Outcome.moved m (movedPair m) (settle c.takeQuoted) := by
  rw [← settle_movedOutcome]
  congr 1
  unfold takeQuoted
  rw [rest_moved]
  split
  · simp
  · simp [Span.moved]

end Cursor

end Hermetic

/-
Statements of texts that stand further down.

* `Statement.moved`: a statement further down;
* `Statement.argumentsFrom_moved`, `Statement.kindAt_moved` and so on: each part of a statement is
  read alike further down, and so is each fault;
* `Statement.allFrom_moved`: so are all statements from a cursor on.
-/
import Hermetic.Proofs.Source.Moved
import Hermetic.Proofs.Statement.Steps

namespace Hermetic.Statement

open Cursor Outcome

/-- A statement further down. -/
def moved (m : Shift) (s : Statement) : Statement :=
  { s with span := s.span.moved m }

variable {arch : Arch} {m : Shift} (c : Cursor Char)

/-! ### Parts of statements -/

@[simp] lemma startsComment_moved (first : Bool) :
    startsComment arch first (c.moved m) = startsComment arch first c := rfl

@[simp] lemma endsArguments_moved : endsArguments arch (c.moved m) = endsArguments arch c := rfl

@[simp] lemma endsMnemonic_moved : endsMnemonic arch (c.moved m) = endsMnemonic arch c := rfl

@[simp] lemma mnemonicLength_moved : mnemonicLength (c.moved m) = mnemonicLength c := rfl

lemma terminator_moved :
    terminator arch (c.moved m) = Outcome.moved m (Cursor.moved m) (terminator arch c) := by
  unfold terminator
  rw [skipSpace_moved]
  refine moved_bind fun found _ => ?_
  obtain ⟨-, stop⟩ := found
  dsimp only
  rw [next?_moved]
  split
  · rfl
  · rw [startsComment_moved]
    split
    · simp [pure, Except.pure]
    · split
      · simp [pure, Except.pure]
      · simp [throw, throwThe, MonadExceptOf.throw, Span.moved]

/-- Brackets that are open, further down. -/
abbrev movedBrackets (m : Shift) (opened : List (Char × Span)) : List (Char × Span) :=
  opened.map (Prod.map id (Span.moved m))

/-- Arguments are read alike further down. -/
lemma argumentsFrom_moved (kept : List Char) (opened : List (Char × Span)) (c : Cursor Char) :
    argumentsFrom arch kept (movedBrackets m opened) (c.moved m) =
      Outcome.moved m (movedPair m) (argumentsFrom arch kept opened c) := by
  fun_induction argumentsFrom arch kept opened c with
  | case7 | case8 | case9 | case10 =>
      rw [argumentsFrom_eq]
      simp [*, skipBlockComment_moved, takeQuoted_moved, bind, Except.bind]
  | case13 | case14 =>
      rw [argumentsFrom_eq]
      simp_all [Span.moved]
  | case4 | case11 =>
      rename_i ih
      rw [argumentsFrom_eq]
      simpa [*, Span.moved] using ih
  | _ =>
      rw [argumentsFrom_eq]
      simp [*]

lemma arguments_moved (c : Cursor Char) :
    arguments arch (c.moved m) = Outcome.moved m (movedPair m) (arguments arch c) :=
  argumentsFrom_moved [] [] c

/-! ### Kinds of statements -/

lemma label?_moved (c : Cursor Char) :
    label? (c.moved m) = (label? c).map (movedPair m) := by
  have hlength : labelLength (c.moved m) = labelLength c := rfl
  unfold label?
  dsimp only
  rw [hlength, skip_moved, next?_moved, rest_moved, bump_moved]
  split <;> rfl

lemma directive_moved (c : Cursor Char) :
    directive arch (c.moved m) = Outcome.moved m (movedPair m) (directive arch c) := by
  unfold directive
  rw [bump_moved, takeWhile_moved]
  dsimp only
  split
  · simp [throw, throwThe, MonadExceptOf.throw, bind, Except.bind]
  · rw [skipSpace_moved]
    refine moved_bind fun found _ => ?_
    obtain ⟨-, start⟩ := found
    rw [arguments_moved]
    refine moved_bind fun read _ => ?_
    obtain ⟨args, stop⟩ := read
    dsimp only
    cases directiveKind _ args with
    | error f => simp [Except.mapError, bind, Except.bind]
    | ok kind => rfl

lemma modifiersFrom_moved (word : String) (c : Cursor Char) :
    modifiersFrom word (c.moved m) = Outcome.moved m
      (fun read => (read.1, read.2.1, read.2.2.moved m)) (modifiersFrom word c) := by
  fun_induction modifiersFrom word c with
  | case3 word c hmem start hs hn ih =>
      rw [modifiersFrom_eq, if_pos hmem, skipSpace_moved, settle_eq_ok_iff.mpr hs]
      change (if mnemonicLength (start.moved m) = 0 then _ else _) = _
      rw [mnemonicLength_moved, if_neg hn, take_moved, skip_moved, ih]
      exact moved_bind fun read _ => rfl
  | _ =>
      rw [modifiersFrom_eq]
      simp [*, skipSpace_moved, bind, Except.bind]

lemma mnemonic_moved (c : Cursor Char) :
    mnemonic arch (c.moved m) = Outcome.moved m
      (fun read => (read.1, read.2.1, read.2.2.moved m)) (mnemonic arch c) := by
  unfold mnemonic
  rw [mnemonicLength_moved, take_moved, skip_moved]
  cases arch with
  | x86_64 => exact modifiersFrom_moved _ _
  | aarch64 => rfl

lemma operands_moved (start : Span) (args : List Char) :
    operands arch (start.moved m) args = Outcome.moved m id (operands arch start args) := by
  refine moved_mapM (fun piece => ?_) _
  dsimp only
  have hspan : (⟨(start.moved m).line, (start.moved m).col + piece.offset,
      (start.moved m).offset + piece.offset, Text.byteLength piece.text⟩ : Span) =
      Span.moved m ⟨start.line, start.col + piece.offset, start.offset + piece.offset,
        Text.byteLength piece.text⟩ := by
    simp only [Span.moved, Nat.add_right_comm]
  rw [hspan]
  split
  · rfl
  · cases operand arch piece.text <;> rfl

lemma instruction_moved (c : Cursor Char) :
    instruction arch (c.moved m) = Outcome.moved m (movedPair m) (instruction arch c) := by
  unfold instruction
  rw [mnemonic_moved]
  refine moved_bind fun read _ => ?_
  obtain ⟨words, mnemonic, afterName⟩ := read
  dsimp only
  rw [endsMnemonic_moved]
  split
  · simp [throw, throwThe, MonadExceptOf.throw, bind, Except.bind, Span.moved]
  · rw [skipSpace_moved]
    refine moved_bind fun found _ => ?_
    obtain ⟨-, start⟩ := found
    rw [arguments_moved]
    refine moved_bind fun read _ => ?_
    obtain ⟨args, stop⟩ := read
    dsimp only
    rw [here_moved, operands_moved]
    exact moved_bind fun os _ => rfl

/-! ### Statements -/

lemma bodyAt_moved (c : Cursor Char) :
    bodyAt arch (c.moved m) = Outcome.moved m (movedPair m) (bodyAt arch c) := by
  unfold bodyAt
  rw [next?_moved, directive_moved, instruction_moved, describeNext_moved, here_moved]
  split
  · rfl
  · split
    · rfl
    · rfl

lemma kindAt_moved (c : Cursor Char) :
    kindAt arch (c.moved m) = Outcome.moved m (movedPair m) (kindAt arch c) := by
  unfold kindAt
  rw [next?_moved]
  split
  · rfl
  · rw [startsComment_moved, takeLine_moved, bump_moved, bump_moved, label?_moved]
    split
    · rfl
    · split
      · rfl
      · cases label? c with
        | some read => rfl
        | none =>
            dsimp only [Option.map_none]
            rw [bodyAt_moved]
            refine moved_bind fun read _ => ?_
            obtain ⟨kind, stop⟩ := read
            dsimp only
            rw [terminator_moved]
            exact moved_bind fun stop _ => rfl

lemma ofCursor_moved (c : Cursor Char) : ofCursor arch (c.moved m) =
    Outcome.moved m (Prod.map (Statement.moved m) (Cursor.moved m)) (ofCursor arch c) := by
  unfold ofCursor
  rw [skipSpace_moved]
  refine moved_bind fun found _ => ?_
  obtain ⟨-, start⟩ := found
  dsimp only
  rw [kindAt_moved]
  refine moved_bind fun read _ => ?_
  obtain ⟨kind, stop⟩ := read
  dsimp only
  rw [textTo_moved, spanTo_moved]
  rfl

/-- Statements are read alike further down. -/
lemma allFrom_moved (read : List Statement) (c : Cursor Char) :
    allFrom arch (read.map (Statement.moved m)) (c.moved m) =
      Outcome.moved m (List.map (Statement.moved m)) (allFrom arch read c) := by
  fun_induction allFrom arch read c with
  | case1 read c hc =>
      rw [allFrom_eq, if_pos (by rwa [rest_moved]), moved_ok, List.map_reverse]
  | case2 read c hc e hs =>
      rw [allFrom_eq, if_neg (by rwa [rest_moved]), ofCursor_moved, hs]
      rfl
  | case3 read c hc s stop hs ih =>
      rw [allFrom_eq, if_neg (by rwa [rest_moved]), ofCursor_moved, hs]
      exact ih

end Hermetic.Statement

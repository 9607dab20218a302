/-
Whether a statement is sealed does not depend on the position of its file.

The position of a file changes the names that its local labels get, and nothing else: what is
sealed in one file is sealed in any other, and what is refused is refused for the same reason.

* `Outcome.verdict`: whether a computation succeeds, or else how it fails;
* `X86.verdict_sealInstruction`, `Arm.verdict_sealInstruction`: it is the same for an instruction
  in all files;
* `Statement.verdict_emission`: it is the same for a statement.
-/
import Hermetic.Proofs.Outcome
import Hermetic.Sealing.Statement

namespace Hermetic

/-! ### Verdicts -/

namespace Outcome

variable {α β ε : Type}

/-- Whether a computation succeeds, or else how it fails. -/
def verdict (x : Except ε α) : Except ε Unit :=
  x.map fun _ => ()

lemma exists_of_verdict_eq {x : Except ε α} {y : Except ε β} {a : α}
    (h : verdict x = verdict y) (hx : x = .ok a) : ∃ b, y = .ok b := by
  rw [hx] at h
  obtain ⟨b, hb, -⟩ := map_eq_ok_iff.mp h.symm
  exact ⟨b, hb⟩

/-- Computations that have some quality of their results in common, and go on alike from it, have
the same verdict. -/
lemma verdict_bind {γ δ δ' : Type} {quality : α → γ} {x y : Except ε α} {f : α → Except ε δ}
    {g : α → Except ε δ'} (h : x.map quality = y.map quality)
    (hnext : ∀ a b, quality a = quality b → verdict (f a) = verdict (g b)) :
    verdict (x >>= f) = verdict (y >>= g) := by
  cases x with
  | error e =>
      cases y with
      | error e' =>
          cases h
          rfl
      | ok b => cases h
  | ok a =>
      cases y with
      | error e' => cases h
      | ok b => exact hnext a b (Except.ok.inj h)

lemma map_map_of_verdict_eq {γ : Type} {x y : Except ε α} {f : α → β} {g : α → β}
    {quality : β → γ} (h : verdict x = verdict y)
    (hsame : ∀ a b, quality (f a) = quality (g b)) :
    (x.map f).map quality = (y.map g).map quality := by
  cases x with
  | error e =>
      cases y with
      | error e' =>
          cases h
          rfl
      | ok b => cases h
  | ok a =>
      cases y with
      | error e' => cases h
      | ok b => exact congrArg Except.ok (hsame a b)

end Outcome

open Outcome (verdict verdict_bind)

variable {symbols : SymbolTable} {marker : String} (i j : ℕ)

/-- A symbol has a name inside the module in all files or in none. -/
lemma Scope.isNone_inside? (name : String) :
    ((⟨symbols, marker, i⟩ : Scope).inside? name).isNone =
      ((⟨symbols, marker, j⟩ : Scope).inside? name).isNone := by
  rw [Bool.eq_iff_iff, Option.isNone_iff_eq_none, Option.isNone_iff_eq_none,
    inside?_eq_none_iff, inside?_eq_none_iff]
  exact Iff.rfl

/-! ### Instructions of x86-64 -/

namespace X86

variable {insn : Instruction} {k : ℕ} {o : Operand}

lemma verdict_gotLoad {m : MemoryRef} :
    verdict (gotLoad ⟨symbols, marker, i⟩ insn k m) =
      verdict (gotLoad ⟨symbols, marker, j⟩ insn k m) := by
  unfold gotLoad
  dsimp only
  split
  · rfl
  · split
    · rfl
    · split
      · rfl
      · cases loadPlan insn.mnemonic k (Family.of insn) with
        | error e => rfl
        | ok first =>
            dsimp only [bind, Except.bind]
            cases viaGeneral insn.mnemonic first <;> rfl

lemma last_sealMemory {m : MemoryRef} :
    (sealMemory ⟨symbols, marker, i⟩ insn k o m).map (·.last) =
      (sealMemory ⟨symbols, marker, j⟩ insn k o m).map (·.last) := by
  unfold sealMemory
  dsimp only
  split
  · rfl
  · split
    · split <;> rfl
    · split
      · split
        · split <;> rfl
        · exact Outcome.map_map_of_verdict_eq (verdict_gotLoad i j) fun _ _ => rfl
      · rfl

/-- An operand is sealed alike in all files, and the later operands play a role in all of them or in
none. -/
lemma last_sealOperand :
    (sealOperand ⟨symbols, marker, i⟩ insn k o).map (·.last) =
      (sealOperand ⟨symbols, marker, j⟩ insn k o).map (·.last) := by
  unfold sealOperand
  split
  · exact last_sealMemory i j
  · unfold sealGotDistance
    split
    · rfl
    · split <;> rfl
  · rfl
  · unfold sealGotOffset
    split
    · rfl
    · split <;> rfl
  · unfold sealImmediate
    split <;> rfl
  · rfl

lemma verdict_sealOperands (os : List Operand) :
    verdict (sealOperands ⟨symbols, marker, i⟩ insn k os) =
      verdict (sealOperands ⟨symbols, marker, j⟩ insn k os) := by
  induction os generalizing k with
  | nil => rfl
  | cons o os ih =>
      refine verdict_bind (last_sealOperand i j) fun change change' hlast => ?_
      rw [hlast]
      split
      · rfl
      · exact verdict_bind ih fun _ _ _ => rfl

/-- An instruction is sealed in all files, or refused for the same reason. -/
lemma verdict_sealInstruction {s : Statement} :
    verdict (sealInstruction ⟨symbols, marker, i⟩ s insn) =
      verdict (sealInstruction ⟨symbols, marker, j⟩ s insn) := by
  refine verdict_bind (verdict_sealOperands i j insn.operands) fun changes changes' _ => ?_
  split <;> split <;> rfl

end X86

/-! ### Instructions of AArch64 -/

namespace Arm

variable {insn : Instruction} {k : ℕ} {s : Statement}

/-- The lines that take the place of a whole instruction. -/
def OperandChange.replacement? : OperandChange → Option (List Line)
  | keep .. => none
  | replace lines => some lines

/-- An operand is sealed alike in all files. -/
lemma replacement?_sealOperand {o : Operand} :
    (sealOperand ⟨symbols, marker, i⟩ insn k o).map OperandChange.replacement? =
      (sealOperand ⟨symbols, marker, j⟩ insn k o).map OperandChange.replacement? := by
  unfold sealOperand
  dsimp only
  split <;> rfl

lemma verdict_sealFrom (os : List Operand) (written written' : List Line.Operand)
    (changed changed' : Bool) (helpers helpers' : List Helper) :
    verdict (sealFrom ⟨symbols, marker, i⟩ s insn written changed helpers k os) =
      verdict (sealFrom ⟨symbols, marker, j⟩ s insn written' changed' helpers' k os) := by
  induction os generalizing k written written' changed changed' helpers helpers' with
  | nil => rfl
  | cons o os ih =>
      refine verdict_bind (replacement?_sealOperand i j) fun change change' hsame => ?_
      cases change with
      | keep operand own more =>
          cases change' with
          | keep operand' own' more' => exact ih ..
          | replace lines => cases hsame
      | replace lines =>
          cases change' with
          | keep operand' own' more' => cases hsame
          | replace lines => rfl

lemma verdict_pageAddress :
    verdict (pageAddress ⟨symbols, marker, i⟩ s insn) =
      verdict (pageAddress ⟨symbols, marker, j⟩ s insn) := by
  unfold pageAddress
  split
  · next target source _ =>
      cases xRegister .pageDestination target with
      | error e => rfl
      | ok register =>
          dsimp only [bind, Except.bind]
          split
          · rfl
          · next symbol offset hpage =>
              have hinside : ((⟨symbols, marker, i⟩ : Scope).inside? symbol).isNone =
                  ((⟨symbols, marker, j⟩ : Scope).inside? symbol).isNone :=
                Scope.isNone_inside? i j symbol
              cases hi : (⟨symbols, marker, i⟩ : Scope).inside? symbol with
              | none =>
                  rw [hi] at hinside
                  rw [Option.isNone_iff_eq_none.mp hinside.symm]
              | some name =>
                  rw [hi] at hinside
                  cases hj : (⟨symbols, marker, j⟩ : Scope).inside? symbol with
                  | none =>
                      rw [hj] at hinside
                      cases hinside
                  | some other => rfl
  · rfl

/-- An instruction is sealed in all files, or refused for the same reason. -/
lemma verdict_sealInstruction :
    verdict (sealInstruction ⟨symbols, marker, i⟩ s insn) =
      verdict (sealInstruction ⟨symbols, marker, j⟩ s insn) := by
  unfold sealInstruction
  dsimp only
  split
  · rfl
  · split
    · exact verdict_pageAddress i j
    · exact verdict_sealFrom i j ..

end Arm

/-! ### Statements -/

namespace Statement

variable {arch : Arch} {s : Statement}

lemma verdict_sealDirective {directive arguments : String} :
    verdict (sealDirective ⟨symbols, marker, i⟩ s directive arguments) =
      verdict (sealDirective ⟨symbols, marker, j⟩ s directive arguments) := by
  unfold sealDirective
  dsimp only
  split
  · unfold sealCommon
    split <;> rfl
  · rfl

/-- A statement is sealed in all files, or refused for the same reason. -/
lemma verdict_emission {inBss : Bool} :
    verdict (s.emission arch ⟨symbols, marker, i⟩ inBss) =
      verdict (s.emission arch ⟨symbols, marker, j⟩ inBss) := by
  unfold emission
  split
  · rfl
  · rfl
  · unfold sealCode
    cases s.kind with
    | instruction insn =>
        cases arch with
        | x86_64 => exact X86.verdict_sealInstruction i j
        | aarch64 => exact Arm.verdict_sealInstruction i j
    | directive directive arguments => exact verdict_sealDirective i j
    | _ => rfl

end Statement

end Hermetic

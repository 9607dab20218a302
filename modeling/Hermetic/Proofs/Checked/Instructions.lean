/-
Sealing of instructions, with operands taken by their indices.

* `Checked.X86.Class`, `Checked.X86.Class.of`: the family of an instruction by its mnemonic and the
  number of its operands, with `Checked.X86.Class.Tells`: the operands that a family has;
* `Checked.X86.loadPlan_eq`: no operand is taken that the instruction does not have;
* `Checked.X86.sealInstruction_eq`, `Checked.Arm.sealInstruction_eq`: an instruction is sealed
  within its operands.
-/
import Hermetic.Proofs.Checked.Bounds
import Hermetic.Proofs.Sealing.Arm
import Hermetic.Proofs.Sealing.X86

namespace Hermetic.Checked

variable {scope : Scope} {insn : Instruction} {i : ℕ} {o : Operand} {m : MemoryRef}

/-- Operand `k` of an instruction. -/
def operandAt (insn : Instruction) (k : ℕ) : Option Operand :=
  insn.operands[k]?

namespace X86

open Hermetic.X86 (jumps skipCondition LoadPlan registerIn holdsAddress viaScratch viaGeneral
  addressOf OperandChange changedLines)

/-! ### Families -/

/-- What an instruction does with its operands, without the operands. -/
inductive Class
  | push
  | move
  | conditionalMove
  | jump
  | combine
  | compare
  | threeArg
  | transform
  | combineVector
  | other
deriving DecidableEq

namespace Class

/-- The family of an instruction with a mnemonic and a number of operands. -/
def of (mnemonic : String) (count : ℕ) : Class :=
  if mnemonic ∈ ["push", "pushq"] ∧ count = 1 then push
  else if mnemonic ∈ ["mov", "movq", "vmovq", "movsd", "vmovsd"] ∧ count = 2 then move
  else if mnemonic ∈ ["orq", "andq", "xorq"] ∧ count = 2 then combine
  else if mnemonic = "cmpq" ∧ count = 2 then compare
  else if mnemonic ∈ ["sarxq", "shlxq", "shrxq"] ∧ count = 3 then threeArg
  else if mnemonic = "vpbroadcastq" ∧ count = 2 then transform
  else if mnemonic ∈ ["movlps", "movhps", "movlpd", "movhpd"] ∧ count = 2 then combineVector
  else if mnemonic ∈ jumps ∧ count = 1 then jump
  else if (skipCondition mnemonic).isSome ∧ count = 2 then conditionalMove
  else other

open Hermetic.X86 (Family)

/-- A family tells how many operands an instruction has. -/
inductive Tells (insn : Instruction) : Class → Family → Prop
  | push {a : Operand} : insn.operands = [a] → Tells insn push (.push a)
  | jump {a : Operand} : insn.operands = [a] → Tells insn jump (.jump a)
  | move {a b : Operand} : insn.operands = [a, b] → Tells insn move (.move a b)
  | combine {a b : Operand} : insn.operands = [a, b] → Tells insn combine (.combine a b)
  | compare {a b : Operand} : insn.operands = [a, b] → Tells insn compare (.compare a b)
  | transform {a b : Operand} : insn.operands = [a, b] → Tells insn transform (.transform a b)
  | combineVector {a b : Operand} :
      insn.operands = [a, b] → Tells insn combineVector (.combineVector a b)
  | conditionalMove {skip : String} {a b : Operand} : insn.operands = [a, b] →
      skipCondition insn.mnemonic = some skip →
        Tells insn conditionalMove (.conditionalMove skip a b)
  | threeArg {a b c : Operand} :
      insn.operands = [a, b, c] → Tells insn threeArg (.threeArg a b c)
  | other : Tells insn other .other

lemma tells_ofOne {a : Operand} (h : insn.operands = [a]) :
    Tells insn (of insn.mnemonic 1) (Family.ofOne insn.mnemonic a) := by
  simp only [of, Family.ofOne, and_true, Nat.reduceEqDiff, and_false, if_false]
  split
  · exact .push h
  · split
    · exact .jump h
    · exact .other

lemma tells_ofTwo {a b : Operand} (h : insn.operands = [a, b]) :
    Tells insn (of insn.mnemonic 2) (Family.ofTwo insn.mnemonic a b) := by
  simp only [of, Family.ofTwo, and_true, Nat.reduceEqDiff, and_false, if_false]
  split
  · exact .move h
  · split
    · exact .combine h
    · split
      · exact .compare h
      · split
        · exact .transform h
        · split
          · exact .combineVector h
          · cases hskip : skipCondition insn.mnemonic with
            | none => exact .other
            | some skip => exact .conditionalMove h hskip

lemma tells_ofThree {a b c : Operand} (h : insn.operands = [a, b, c]) :
    Tells insn (of insn.mnemonic 3) (Family.ofThree insn.mnemonic a b c) := by
  simp only [of, Family.ofThree, and_true, Nat.reduceEqDiff, and_false, if_false]
  split
  · exact .threeArg h
  · exact .other

lemma of_eq_other {mnemonic : String} {count : ℕ} (h₁ : count ≠ 1) (h₂ : count ≠ 2)
    (h₃ : count ≠ 3) : of mnemonic count = other := by
  simp only [of, h₁, h₂, h₃, and_false, if_false]

/-- The family of an instruction is told by its mnemonic and the number of its operands. -/
lemma tells_of (insn : Instruction) :
    Tells insn (of insn.mnemonic insn.operands.length) (Family.of insn) := by
  rw [Family.of]
  split
  · next a h =>
      rw [h]
      exact tells_ofOne h
  · next a b h =>
      rw [h]
      exact tells_ofTwo h
  · next a b c h =>
      rw [h]
      exact tells_ofThree h
  · next h₁ h₂ h₃ =>
      rw [of_eq_other]
      · exact .other
      · intro h
        obtain ⟨a, ha⟩ := List.length_eq_one_iff.mp h
        exact h₁ a ha
      · intro h
        obtain ⟨a, b, hab⟩ := List.length_eq_two.mp h
        exact h₂ a b hab
      · intro h
        obtain ⟨a, b, c, habc⟩ := List.length_eq_three.mp h
        exact h₃ a b c habc

variable {k : Class} {family : Family}

lemma Tells.isJump (h : Tells insn k family) : family.isJump = decide (k = Class.jump) := by
  cases h <;> rfl

lemma Tells.loadsAnywhere (h : Tells insn k family) :
    family.loadsAnywhere = decide (k = Class.threeArg ∨ k = Class.compare) := by
  cases h <;> rfl

end Class

/-! ### Loads from the offset table -/

/-- The register that operand `k` is. -/
def registerAt (role : RegisterRole) (insn : Instruction) (k : ℕ) : Checked Unsupported String := do
  within (registerIn role (← operandAt insn k))

/-- What surrounds the computation of an address in the place of operand `i`. -/
def loadPlan (insn : Instruction) (i : ℕ) : Class → Checked Unsupported LoadPlan
  | .push => return { frames := [.pushResult], target := "%rax" }
  | .move => do return { frames := [], target := ← registerAt .gotDestination insn 1 }
  | .conditionalMove => do
    let skip := (skipCondition insn.mnemonic).getD "ne"
    return { frames := [.skipIf skip], target := ← registerAt .gotDestination insn 1 }
  | .compare => do
    let kept ← operandAt insn (i ^^^ 1)
    within <| viaScratch [kept.text] fun temp =>
      .afterwards (.spaced insn.mnemonic
        (if i = 0 then [.register temp, .copied kept] else [.copied kept, .register temp]))
  | .transform => do
    let target ← registerAt .transformDestination insn 1
    if holdsAddress target then throw .transformTarget
    return {
      frames := [.afterwards (.spaced insn.mnemonic [.register target, .register target])]
      target }
  | .combine => do
    let target ← registerAt .combineDestination insn 1
    if !holdsAddress target then throw .combineTarget
    within <| viaScratch [target] fun temp =>
      .afterwards (.spaced insn.mnemonic [.register temp, .register target])
  | .combineVector => do
    let target ← registerAt .vectorCombineDestination insn 1
    if holdsAddress target then throw .vectorCombineTarget
    within <| viaScratch [] fun temp => .combineVector insn.mnemonic target temp
  | .threeArg => do
    if 1 < i then throw .gotLoadResult
    let target ← operandAt insn 2
    let kept ← operandAt insn (← sub 1 i)
    within <| viaScratch [target.text, kept.text] fun temp =>
      .afterwards (.spaced insn.mnemonic
        ((if i = 0 then [.register temp, .copied kept] else [.copied kept, .register temp]) ++
          [.copied target]))
  | .jump | .other => throw (.gotLoadIn insn.mnemonic)

/-- The frames of an instruction whose operand `i` loads an address from the table, and the
helpers that they need. -/
def gotLoad (scope : Scope) (insn : Instruction) (i : ℕ) (m : MemoryRef) :
    Checked Unsupported (List Hermetic.X86.Frame × List Helper) := do
  let k := Class.of insn.mnemonic insn.operands.length
  if m.hasOffset then throw .gotLoadOffset
  if !m.isRipRelative then throw .gotLoadBase
  if ¬ (k = .threeArg ∨ k = .compare) ∧ i ≠ 0 then throw .gotLoadPlace
  let plan ← loadPlan insn i k
  let plan ← within (viaGeneral insn.mnemonic plan)
  let (load, helpers) := addressOf scope (m.symbol.getD "") plan.target plan.redZoneCleared
  return (plan.frames ++ [load], helpers)

lemma registerAt_eq {role : RegisterRole} {k : ℕ} (h : operandAt insn k = some o) :
    registerAt role insn k = within (registerIn role o) := by
  rw [registerAt, h]
  rfl

/-- The operands that a plan takes are operands that its instruction has. -/
lemma loadPlan_eq {k : Class} {family : Hermetic.X86.Family} (h : k.Tells insn family)
    (hi : i < insn.operands.length) :
    loadPlan insn i k = within (Hermetic.X86.loadPlan insn.mnemonic i family) := by
  have hat {a b : Operand} (hops : insn.operands = [a, b]) : operandAt insn 1 = some b := by
    rw [operandAt, hops]
    rfl
  cases h with
  | push | jump | other => rfl
  | move hops =>
      rw [loadPlan, registerAt_eq (hat hops)]
      exact within_map _ _
  | conditionalMove hops hskip =>
      rw [loadPlan, registerAt_eq (hat hops), hskip]
      exact within_map _ _
  | transform hops =>
      rw [loadPlan, registerAt_eq (hat hops), Hermetic.X86.loadPlan, within_bind]
      refine bind_congr fun target => ?_
      split <;> rfl
  | combine hops =>
      rw [loadPlan, registerAt_eq (hat hops), Hermetic.X86.loadPlan, within_bind]
      refine bind_congr fun target => ?_
      split <;> rfl
  | combineVector hops =>
      rw [loadPlan, registerAt_eq (hat hops), Hermetic.X86.loadPlan, within_bind]
      refine bind_congr fun target => ?_
      split <;> rfl
  | @compare a b hops =>
      -- the other operand of two
      have hother : operandAt insn (i ^^^ 1) = some (if i = 0 then b else a) := by
        rw [hops, List.length_cons, List.length_singleton] at hi
        rw [operandAt, hops]
        obtain rfl | rfl : i = 0 ∨ i = 1 := by omega
        · rfl
        · rfl
      rw [loadPlan, hother]
      rfl
  | @threeArg a b c hops =>
      rw [loadPlan, Hermetic.X86.loadPlan]
      split
      · rfl
      · next hle =>
          have hother : operandAt insn (1 - i) = some (if i = 0 then b else a) := by
            rw [operandAt, hops]
            obtain rfl | rfl : i = 0 ∨ i = 1 := by omega
            · rfl
            · rfl
          have htarget : operandAt insn 2 = some c := by
            rw [operandAt, hops]
            rfl
          rw [sub_eq (Nat.le_of_not_lt hle), htarget]
          simp only [liftM_some, pure_bind, hother]

lemma gotLoad_eq (hi : i < insn.operands.length) :
    gotLoad scope insn i m = within (Hermetic.X86.gotLoad scope insn i m) := by
  have htells := Class.tells_of insn
  have hplace : (!(Hermetic.X86.Family.of insn).loadsAnywhere && i != 0) = true ↔
      ¬ (Class.of insn.mnemonic insn.operands.length = .threeArg ∨
        Class.of insn.mnemonic insn.operands.length = .compare) ∧ i ≠ 0 := by
    simp [htells.loadsAnywhere]
  rw [gotLoad, Hermetic.X86.gotLoad]
  simp only [loadPlan_eq htells hi, hplace]
  split
  · rfl
  · split
    · rfl
    · split
      · rfl
      · rw [within_bind]
        refine bind_congr fun plan => ?_
        rw [within_bind]
        rfl

/-! ### Operands -/

/-- What becomes of a memory operand. -/
def sealMemory (scope : Scope) (insn : Instruction) (i : ℕ) (o : Operand) (m : MemoryRef) :
    Checked Unsupported OperandChange :=
  if m.tag = some "GOTPCREL" ∧ Class.of insn.mnemonic insn.operands.length ≠ .jump then do
    let (frames, helpers) ← gotLoad scope insn i m
    return { operand := .copied o, frames, helpers, last := true }
  else within (Hermetic.X86.sealMemory scope insn i o m)

/-- The target of an instruction with two operands, seen from its first. -/
def targetOfFirst (form : Unsupported) (insn : Instruction) (i : ℕ) :
    Checked Unsupported Operand := do
  if i ≠ 0 ∨ insn.operands.length ≠ 2 then throw form
  operandAt insn 1

/-- What becomes of the distance from a local label to the offset table. -/
def sealGotDistance (scope : Scope) (insn : Instruction) (i : ℕ) (anchor : String) :
    Checked Unsupported OperandChange := do
  if insn.mnemonic != "movabsq" then throw .gotDistanceMnemonic
  let target ← targetOfFirst .gotDistanceForm insn i
  let distance : Expr :=
    ⟨[.symbol Symbol.gotDelta, .other "-", .symbol (scope.localized anchor)]⟩
  return {
    operand := .memory (.ripRelative Symbol.gotDelta)
    mnemonic := some "movq"
    frames := [.afterwards
      (.spaced "addq" [.ofKind (.immediate (some '$') distance), .copied target])]
    helpers := [.gotDelta] }

/-- What becomes of the address of the offset table. -/
def sealGotAddress (insn : Instruction) (i : ℕ) : Checked Unsupported OperandChange := do
  if insn.mnemonic != "leaq" then throw .gotAddressMnemonic
  let target ← targetOfFirst .gotAddressForm insn i
  let delta := Line.Operand.memory (.ripRelative Symbol.gotDelta)
  return {
    operand := delta
    frames := [.afterwards (.spaced "addq" [delta, .copied target])]
    helpers := [.gotDelta] }

/-- What becomes of an offset in the table. -/
def sealGotOffset (scope : Scope) (insn : Instruction) (i : ℕ) (o : Operand) (symbol : String)
    (fromTable : Bool) : Checked Unsupported OperandChange := do
  if insn.mnemonic != "movabsq" then throw .gotOffsetMnemonic
  let target ← targetOfFirst .gotOffsetForm insn i
  let name := scope.localized symbol
  return {
    operand := .copied o
    frames := [.loadGotOffset (Symbol.gotOffsetSlot name fromTable) (.copied target)]
    helpers := [.gotOffset name fromTable] }

/-- What becomes of operand `i`.  Only where an address is loaded are other operands looked at. -/
def sealOperand (scope : Scope) (insn : Instruction) (i : ℕ) (o : Operand) :
    Checked Unsupported OperandChange :=
  match o.kind with
  | .memory m => sealMemory scope insn i o m
  | .gotDistance anchor => sealGotDistance scope insn i anchor
  | .gotAddress => sealGotAddress insn i
  | .gotOffset symbol fromTable => sealGotOffset scope insn i o symbol fromTable
  | _ => within (Hermetic.X86.sealOperand scope insn i o)

/-- What becomes of the operands from number `i` on, up to the last that plays a role. -/
def sealOperands (scope : Scope) (insn : Instruction) :
    ℕ → List Operand → Checked Unsupported (List OperandChange)
  | _, [] => return []
  | i, o :: os => do
    let change ← sealOperand scope insn i o
    if change.last then return [change]
    return change :: (← sealOperands scope insn (i + 1) os)

/-- What is written for an instruction. -/
def sealInstruction (scope : Scope) (s : Statement) (insn : Instruction) :
    Checked Unsupported Emission := do
  let changes ← sealOperands scope insn 0 insn.operands
  if changes.any (·.changed) then
    return .replace s (changedLines insn changes) (changes.flatMap (·.helpers))
  else return .copy s

lemma sealMemory_eq (hi : i < insn.operands.length) :
    sealMemory scope insn i o m = within (Hermetic.X86.sealMemory scope insn i o m) := by
  have hjump := (Class.tells_of insn).isJump
  rw [sealMemory]
  split
  · next h =>
      rw [gotLoad_eq hi, Hermetic.X86.sealMemory, h.1, hjump]
      simp only [h.2, decide_false]
      exact within_map _ _
  · rfl

lemma targetOfFirst_eq (form : Unsupported) (insn : Instruction) (i : ℕ) :
    targetOfFirst form insn i =
      match Hermetic.X86.targetOfFirst insn i with
      | none => throw form
      | some target => pure target := by
  by_cases h : i = 0 ∧ insn.operands.length = 2
  · obtain ⟨rfl, hlength⟩ := h
    obtain ⟨a, b, hops⟩ := List.length_eq_two.mp hlength
    rw [targetOfFirst, if_neg (by simp [hlength]), operandAt]
    simp only [Hermetic.X86.targetOfFirst, hops]
    rfl
  · have hnone : Hermetic.X86.targetOfFirst insn i = none := by
      rw [Option.eq_none_iff_forall_ne_some]
      intro target htarget
      obtain ⟨hi, first, hops⟩ := Hermetic.X86.targetOfFirst_eq_some htarget
      exact h ⟨hi, by rw [hops]; rfl⟩
    rw [targetOfFirst, if_pos (by omega), hnone]
    rfl

lemma sealGotDistance_eq (anchor : String) :
    sealGotDistance scope insn i anchor =
      within (Hermetic.X86.sealGotDistance scope insn i anchor) := by
  rw [sealGotDistance, Hermetic.X86.sealGotDistance, targetOfFirst_eq]
  split
  · rfl
  · cases Hermetic.X86.targetOfFirst insn i <;> rfl

lemma sealGotAddress_eq : sealGotAddress insn i = within (Hermetic.X86.sealGotAddress insn i) := by
  rw [sealGotAddress, Hermetic.X86.sealGotAddress, targetOfFirst_eq]
  split
  · rfl
  · cases Hermetic.X86.targetOfFirst insn i <;> rfl

lemma sealGotOffset_eq (symbol : String) (fromTable : Bool) :
    sealGotOffset scope insn i o symbol fromTable =
      within (Hermetic.X86.sealGotOffset scope insn i o symbol fromTable) := by
  rw [sealGotOffset, Hermetic.X86.sealGotOffset, targetOfFirst_eq]
  split
  · rfl
  · cases Hermetic.X86.targetOfFirst insn i <;> rfl

lemma sealOperand_eq (hi : i < insn.operands.length) :
    sealOperand scope insn i o = within (Hermetic.X86.sealOperand scope insn i o) := by
  unfold sealOperand
  split
  · next m hkind =>
      rw [Hermetic.X86.sealOperand, hkind]
      exact sealMemory_eq hi
  · next anchor hkind =>
      rw [Hermetic.X86.sealOperand, hkind]
      exact sealGotDistance_eq anchor
  · next hkind =>
      rw [Hermetic.X86.sealOperand, hkind]
      exact sealGotAddress_eq
  · next symbol fromTable hkind =>
      rw [Hermetic.X86.sealOperand, hkind]
      exact sealGotOffset_eq symbol fromTable
  · rfl

/-- The operands from a number on are sealed within the operands of their instruction. -/
lemma sealOperands_eq {os : List Operand} (hos : insn.operands.drop i = os) :
    sealOperands scope insn i os = within (Hermetic.X86.sealOperands scope insn i os) := by
  induction os generalizing i with
  | nil => rfl
  | cons o os ih =>
      have hi : i < insn.operands.length := by
        by_contra hle
        rw [List.drop_eq_nil_of_le (Nat.le_of_not_lt hle)] at hos
        cases hos
      have hrest : insn.operands.drop (i + 1) = os := by
        rw [← List.tail_drop, hos]
        rfl
      rw [sealOperands, Hermetic.X86.sealOperands, sealOperand_eq hi, ih hrest, within_bind]
      refine bind_congr fun change => ?_
      split
      · rfl
      · rw [within_bind]
        rfl

/-- An instruction is sealed within its operands. -/
lemma sealInstruction_eq (scope : Scope) (s : Statement) (insn : Instruction) :
    sealInstruction scope s insn = within (Hermetic.X86.sealInstruction scope s insn) := by
  rw [sealInstruction, Hermetic.X86.sealInstruction, sealOperands_eq List.drop_zero,
    within_bind]
  refine bind_congr fun changes => ?_
  split <;> rfl

end X86

namespace Arm

open Hermetic.Arm (OperandChange xRegister symbolFree pageAddress)

/-! ### Operands -/

/-- What becomes of the rest of an address that is added to a register. -/
def sealRelocation (mnemonic : String) (insn : Instruction) (i : ℕ) (o : Operand)
    (r : Relocation) : Checked Unsupported OperandChange := do
  if r.spec ≠ "lo12" ∨ mnemonic ≠ "add" ∨ i ≠ 2 ∨ insn.operands.length ≠ 3 then
    throw (.relocationIn o.text insn.mnemonic)
  let target ← within (xRegister .lowPartDestination (← operandAt insn 0))
  let source ← within (xRegister .lowPartSource (← operandAt insn 1))
  if target = source then return .replace []
  return .keep (.ofKind (.immediate (some '#') ⟨[.other "0"]⟩)) true []

/-- What becomes of operand `i`. -/
def sealOperand (scope : Scope) (insn : Instruction) (i : ℕ) (o : Operand) :
    Checked Unsupported OperandChange :=
  match o.kind with
  | .relocation r => sealRelocation insn.mnemonic.toLower insn i o r
  | _ => within (Hermetic.Arm.sealOperand scope insn i o)

/-- What is written for an instruction, from its operand `i` on. -/
def sealFrom (scope : Scope) (s : Statement) (insn : Instruction) (written : List Line.Operand)
    (changed : Bool) (helpers : List Helper) : ℕ → List Operand → Checked Unsupported Emission
  | _, [] =>
    return if changed then
      .replace s [.instruction insn.modifiers insn.mnemonic "\t" written.reverse] helpers
    else .copy s
  | i, o :: os => do
    match ← sealOperand scope insn i o with
    | .replace lines => return .replace s lines helpers
    | .keep operand change more =>
      sealFrom scope s insn (operand :: written) (changed || change) (helpers ++ more) (i + 1) os

/-- What is written for an instruction. -/
def sealInstruction (scope : Scope) (s : Statement) (insn : Instruction) :
    Checked Unsupported Emission :=
  let mnemonic := insn.mnemonic.toLower
  if mnemonic ∈ symbolFree then return .copy s
  else if mnemonic = "adrp" then within (pageAddress scope s insn)
  else sealFrom scope s insn [] false [] 0 insn.operands

lemma sealRelocation_eq (mnemonic : String) (r : Relocation) :
    sealRelocation mnemonic insn i o r =
      within (Hermetic.Arm.sealRelocation mnemonic insn i o r) := by
  by_cases h : i = 2 ∧ insn.operands.length = 3
  · obtain ⟨rfl, hlength⟩ := h
    obtain ⟨a, b, c, hops⟩ := List.length_eq_three.mp hlength
    simp only [sealRelocation, Hermetic.Arm.sealRelocation, operandAt, hops]
    by_cases hname : r.spec = "lo12" ∧ mnemonic = "add"
    · rw [if_pos hname, if_neg (by simp [hname])]
      simp only [List.getElem?_cons_zero, List.getElem?_cons_succ, liftM_some, pure_bind,
        within_bind]
      refine bind_congr fun target => bind_congr fun source => ?_
      split <;> rfl
    · rw [if_neg hname, if_pos ((Decidable.not_and_iff_not_or_not.mp hname).elim .inl
        fun h => .inr (.inl h))]
      rfl
  · rw [sealRelocation, if_pos (by omega)]
    unfold Hermetic.Arm.sealRelocation
    split
    · next hops => exact absurd ⟨rfl, by rw [hops]; rfl⟩ h
    · rfl

lemma sealOperand_eq (scope : Scope) (insn : Instruction) (i : ℕ) (o : Operand) :
    sealOperand scope insn i o = within (Hermetic.Arm.sealOperand scope insn i o) := by
  unfold sealOperand
  split
  · next r hkind =>
      rw [Hermetic.Arm.sealOperand, hkind]
      exact sealRelocation_eq _ r
  · rfl

lemma sealFrom_eq (s : Statement) (written : List Line.Operand) (changed : Bool)
    (helpers : List Helper) (i : ℕ) (os : List Operand) :
    sealFrom scope s insn written changed helpers i os =
      within (Hermetic.Arm.sealFrom scope s insn written changed helpers i os) := by
  induction os generalizing written changed helpers i with
  | nil => rfl
  | cons o os ih =>
      rw [sealFrom, Hermetic.Arm.sealFrom, sealOperand_eq, within_bind]
      refine bind_congr fun change => ?_
      cases change with
      | replace lines => rfl
      | keep operand change more => exact ih _ _ _ _

/-- An instruction is sealed within its operands. -/
lemma sealInstruction_eq (scope : Scope) (s : Statement) (insn : Instruction) :
    sealInstruction scope s insn = within (Hermetic.Arm.sealInstruction scope s insn) := by
  rw [sealInstruction, Hermetic.Arm.sealInstruction]
  split
  · rfl
  · split
    · rfl
    · exact sealFrom_eq s [] false [] 0 insn.operands

end Arm

end Hermetic.Checked

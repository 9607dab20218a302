/-
How an instruction of AArch64 is sealed, taken apart.

* `OperandSealed`: the ways in which an operand is sealed, one by one, with
  `operandSealed_of_sealOperand`: there are no others;
* `pageAddress_eq_ok`: what is written for an instruction that forms the address of a page;
* `OperandsSealed`: the operands of an instruction sealed in turn;
* `sealInstruction_eq_ok`: what is written for an instruction.
-/
import Hermetic.Proofs.Outcome
import Hermetic.Sealing.Arm
import Mathlib.Data.Nat.Notation

namespace Hermetic.Arm

variable {scope : Scope} {insn : Instruction} {i : ℕ} {o : Operand}

/-! ### Operands -/

/-- The ways in which an operand of an instruction is sealed. -/
inductive OperandSealed (scope : Scope) (insn : Instruction) (o : Operand) : OperandChange → Prop
  | memory {m : MemoryRef} : o.kind = .memory m →
      OperandSealed scope insn o (sealMemory scope insn.mnemonic.toLower o m)
  | constant {sigil : Option Char} {value : Expr} : o.kind = .immediate sigil value →
      OperandSealed scope insn o (.keep
        (.built (o.withKind (.immediate sigil (value.mapSymbols scope.localized))))
        (value.mapSymbols scope.localized != value) [])
  /-- An operand that forms no address is copied. -/
  | copied : (∀ m, o.kind ≠ .memory m) → (∀ sigil value, o.kind ≠ .immediate sigil value) →
      (∀ r, o.kind ≠ .relocation r) →
      (∀ x r, o.kind = .indexed x → x.rest ≠ some (.relocation r)) →
      OperandSealed scope insn o (.keep (.copied o) false [])
  /-- The rest of an address is left out of a reference. -/
  | base {x : Indexed} : o.kind = .indexed x →
      OperandSealed scope insn o (.keep (.ofKind (.indexed { base := x.base })) true [])
  /-- There is no rest of an address left to add. -/
  | zero {r : Relocation} : o.kind = .relocation r →
      OperandSealed scope insn o (.keep (.ofKind (.immediate (some '#') ⟨[.other "0"]⟩)) true [])
  | whole {lines : List Line} : isBranch insn.mnemonic.toLower = false →
      lines = [] ∨ (∃ target x, insn.operands.head?.bind Operand.register? = some target ∧
        o.kind = .indexed x ∧ lines = [.spaced "mov" [.register target, .register x.base]]) →
      OperandSealed scope insn o (.replace lines)

lemma operandSealed_of_sealIndexed {x : Indexed} {change : OperandChange}
    (hkind : o.kind = .indexed x)
    (h : sealIndexed insn.mnemonic.toLower insn.operands o x = .ok change) :
    OperandSealed scope insn o change := by
  unfold sealIndexed at h
  split at h
  · split at h
    · split at h
      · cases h
      · -- only a load takes the whole entry, which is its target or is moved to it
        next hm =>
          have hbranch : isBranch insn.mnemonic.toLower = false := by
            rw [show insn.mnemonic.toLower = "ldr" by simpa using hm]
            decide
          split at h
          · cases h
          · next target htarget =>
              cases h
              refine .whole hbranch ?_
              split
              · exact .inl rfl
              · exact .inr ⟨target, x, htarget, hkind, rfl⟩
    · split at h
      · cases h
        exact .base hkind
      · cases h
  · next hrest =>
      cases h
      -- what is no base and no relocation is copied
      have hother {k : Operand.Kind} (hk : ∀ y, k ≠ .indexed y) : o.kind ≠ k := by
        rw [hkind]
        exact (hk x).symm
      refine .copied (fun _ => hother nofun) (fun _ _ => hother nofun) (fun _ => hother nofun)
        fun y r hy => ?_
      rw [hkind] at hy
      cases hy
      exact hrest r

lemma operandSealed_of_sealRelocation {r : Relocation} {change : OperandChange}
    (hkind : o.kind = .relocation r)
    (h : sealRelocation insn.mnemonic.toLower insn i o r = .ok change) :
    OperandSealed scope insn o change := by
  unfold sealRelocation at h
  split at h
  · split at h
    · next hm =>
        have hbranch : isBranch insn.mnemonic.toLower = false := by
          rw [hm.2]
          decide
        obtain ⟨target, -, h⟩ := Outcome.bind_eq_ok_iff.mp h
        obtain ⟨source, -, h⟩ := Outcome.bind_eq_ok_iff.mp h
        split at h
        · cases h
          exact .whole hbranch (.inl rfl)
        · cases h
          exact .zero hkind
    · cases h
  · cases h

/-- There is no other way in which an operand is sealed. -/
lemma operandSealed_of_sealOperand {change : OperandChange}
    (h : sealOperand scope insn i o = .ok change) : OperandSealed scope insn o change := by
  unfold sealOperand at h
  dsimp only at h
  split at h
  · next m hkind =>
      cases h
      exact .memory hkind
  · next x hkind => exact operandSealed_of_sealIndexed hkind h
  · next r hkind => exact operandSealed_of_sealRelocation hkind h
  · next sigil value hkind =>
      cases h
      exact .constant hkind
  · next hmemory hindexed hrelocation himmediate =>
      cases h
      exact .copied hmemory himmediate hrelocation fun x _ hx => (hindexed x hx).elim

/-! ### Page addresses -/

/-- What is written for an instruction that forms the address of a page: one that forms the whole
address inside the module, or a load of the address from outside. -/
lemma pageAddress_eq_ok {s : Statement} {e : Emission} (h : pageAddress scope s insn = .ok e) :
    ∃ target source register symbol offset, insn.operands = [target, source] ∧
      xRegister .pageDestination target = .ok register ∧
      pageSymbol? source = some (symbol, offset) ∧
      (scope.isExternal symbol = false ∧
          e = .replace s [.spaced "adr" [.register register,
            .memory { symbol := some (scope.inside symbol), offset }]] ∨
        scope.isExternal symbol = true ∧
          e = .replace s (loadExternal symbol register) [.gotEntry symbol]) := by
  unfold pageAddress at h
  split at h
  · next target source hops =>
      obtain ⟨register, hregister, h⟩ := Outcome.bind_eq_ok_iff.mp h
      split at h
      · cases h
      · next symbol offset hsymbol =>
          refine ⟨target, source, register, symbol, offset, hops, hregister, hsymbol, ?_⟩
          split at h
          · next name hname =>
              cases h
              refine .inl ⟨?_, by rw [Scope.inside, hname, Option.getD_some]⟩
              rw [← Bool.not_eq_true, ← Scope.inside?_eq_none_iff, hname]
              exact Option.some_ne_none name
          · next hnone =>
              split at h
              · cases h
                exact .inr ⟨Scope.inside?_eq_none_iff.mp hnone, rfl⟩
              · cases h
  · cases h

/-! ### Instructions -/

/-- Operands that are sealed in turn: how they are written, whether one of them is a change, the
helpers that they need, and the lines that take the place of the instruction, if any do. -/
inductive OperandsSealed (scope : Scope) (insn : Instruction) :
    List Operand → List Line.Operand → Bool → List Helper → Option (List Line) → Prop
  | nil : OperandsSealed scope insn [] [] false [] none
  | whole {o : Operand} {os : List Operand} {lines : List Line} :
      OperandSealed scope insn o (.replace lines) →
        OperandsSealed scope insn (o :: os) [] false [] (some lines)
  | cons {o : Operand} {os : List Operand} {operand : Line.Operand} {change changed : Bool}
      {more helpers : List Helper} {written : List Line.Operand} {lines : Option (List Line)} :
      OperandSealed scope insn o (.keep operand change more) →
        OperandsSealed scope insn os written changed helpers lines →
          OperandsSealed scope insn (o :: os) (operand :: written) (change || changed)
            (more ++ helpers) lines

lemma sealFrom_eq_ok {s : Statement} {e : Emission} {before : List Line.Operand} {b : Bool}
    {earlier : List Helper} {os : List Operand}
    (h : sealFrom scope s insn before b earlier i os = .ok e) :
    ∃ written changed helpers lines, OperandsSealed scope insn os written changed helpers lines ∧
      (lines = none ∧ (b || changed) = false ∧ e = .copy s ∨
        lines = none ∧ (b || changed) = true ∧
          e = .replace s [.instruction insn.modifiers insn.mnemonic "\t"
            (before.reverse ++ written)] (earlier ++ helpers) ∨
        ∃ instead, lines = some instead ∧ e = .replace s instead (earlier ++ helpers)) := by
  -- by the operands that are left; a whole replacement ends the list
  induction os generalizing i before b earlier with
  | nil =>
      refine ⟨[], false, [], none, .nil, ?_⟩
      rw [sealFrom] at h
      cases h
      rw [Bool.or_false, List.append_nil, List.append_nil]
      cases b with
      | false => exact .inl ⟨rfl, rfl, rfl⟩
      | true => exact .inr (.inl ⟨rfl, rfl, rfl⟩)
  | cons o os ih =>
      rw [sealFrom] at h
      obtain ⟨change, hchange, h⟩ := Outcome.bind_eq_ok_iff.mp h
      have hsealed := operandSealed_of_sealOperand hchange
      cases change with
      | replace lines =>
          cases h
          refine ⟨[], false, [], some lines, .whole hsealed, .inr (.inr ⟨lines, rfl, ?_⟩)⟩
          rw [List.append_nil]
      | keep operand change more =>
          obtain ⟨written, changed, helpers, lines, hrest, he⟩ := ih h
          refine ⟨_, _, _, _, .cons hsealed hrest, ?_⟩
          simpa only [Bool.or_assoc, List.append_assoc, List.reverse_cons, List.cons_append,
            List.nil_append] using he

/-- What is written for an instruction: itself, the whole of an address, or what its operands
call for. -/
lemma sealInstruction_eq_ok {s : Statement} {e : Emission}
    (h : sealInstruction scope s insn = .ok e) :
    insn.mnemonic.toLower ∈ symbolFree ∧ e = .copy s ∨
      insn.mnemonic.toLower = "adrp" ∧ pageAddress scope s insn = .ok e ∨
      insn.mnemonic.toLower ≠ "adrp" ∧ ∃ written changed helpers lines,
        OperandsSealed scope insn insn.operands written changed helpers lines ∧
          (lines = none ∧ changed = false ∧ e = .copy s ∨
            lines = none ∧ changed = true ∧
              e = .replace s [.instruction insn.modifiers insn.mnemonic "\t" written] helpers ∨
            ∃ instead, lines = some instead ∧ e = .replace s instead helpers) := by
  unfold sealInstruction at h
  dsimp only at h
  split at h
  · next hfree =>
      cases h
      exact .inl ⟨hfree, rfl⟩
  · split at h
    · next hpage => exact .inr (.inl ⟨hpage, h⟩)
    · next hpage => exact .inr (.inr ⟨hpage, sealFrom_eq_ok h⟩)

end Hermetic.Arm

/-
How an instruction of x86-64 is sealed, taken apart.

* `gotLoad_eq_ok`: what is known of a load from the offset table that is accepted;
* `LoadPlanned`: the ways in which it is planned, family by family, with
  `loadPlanned_of_loadPlan`: there are no others;
* `viaGeneral_eq_ok`, `forall_frames_of_viaGeneral`: what is put around a plan for a vector;
* `isJump_of_gotLoad`: a load is no jump;
* `OperandSealed`: the ways in which an operand is sealed, one by one, with
  `operandSealed_of_sealOperand`: there are no others;
* `OperandsSealed`: the operands of an instruction sealed in turn, up to the last that plays a
  role;
* `sealInstruction_eq_ok`: what is written for an instruction.
-/
import Hermetic.Proofs.Outcome
import Hermetic.Sealing.X86
import Mathlib.Data.Nat.Notation

namespace Hermetic.X86

variable {scope : Scope} {insn : Instruction} {i : ℕ} {m : MemoryRef}
variable {frames : List Frame} {helpers : List Helper}

/-! ### Loads from the offset table -/

/-- What is known of a load that is accepted. -/
lemma gotLoad_eq_ok (h : gotLoad scope insn i m = .ok (frames, helpers)) :
    m.hasOffset = false ∧ m.isRipRelative = true ∧
      ((Family.of insn).loadsAnywhere = true ∨ i = 0) ∧
      ∃ first plan, loadPlan insn.mnemonic i (Family.of insn) = .ok first ∧
        viaGeneral insn.mnemonic first = .ok plan ∧
        frames = plan.frames ++
          [(addressOf scope (m.symbol.getD "") plan.target plan.redZoneCleared).1] ∧
        helpers = (addressOf scope (m.symbol.getD "") plan.target plan.redZoneCleared).2 := by
  unfold gotLoad at h
  by_cases hoffset : m.hasOffset = true
  · simp [hoffset, throw, throwThe, MonadExceptOf.throw, bind, Except.bind] at h
  by_cases hrip : m.isRipRelative = true
  · by_cases hplace : (!(Family.of insn).loadsAnywhere && i != 0) = true
    · simp [hoffset, hrip, hplace, throw, throwThe, MonadExceptOf.throw, bind, Except.bind] at h
    · simp only [hoffset, hrip, hplace, if_false, Bool.not_true, Bool.false_eq_true,
        Outcome.bind_eq_ok_iff] at h
      obtain ⟨first, hfirst, plan, hplan, h⟩ := h
      cases h
      exact ⟨by simpa using hoffset, hrip, by grind, first, plan, hfirst, hplan, rfl, rfl⟩
  · simp [hoffset, hrip, throw, throwThe, MonadExceptOf.throw, bind, Except.bind] at h

lemma register?_of_registerIn {role : RegisterRole} {o : Operand} {r : String}
    (h : registerIn role o = .ok r) : o.register? = some r := by
  unfold registerIn at h
  split at h
  · next hregister =>
      cases h
      exact hregister
  · cases h

/-- An address in a scratch register, and a frame that goes on with it. -/
def LoadPlan.scratch (temp : String) (rest : Frame) : LoadPlan :=
  ⟨[.saveRegister temp, rest], temp, true⟩

lemma LoadPlan.forall_scratch {P : Frame → Prop} {temp : String} {rest : Frame}
    (hsave : P (.saveRegister temp)) (hrest : P rest) : ∀ f ∈ (scratch temp rest).frames, P f :=
  List.forall_mem_cons.mpr ⟨hsave, List.forall_mem_singleton.mpr hrest⟩

/-- The two sources of an instruction, the address in a register in the place of operand `i`. -/
def LoadPlan.sources (i : ℕ) (temp : String) (kept : Operand) : List Line.Operand :=
  if i = 0 then [.register temp, .copied kept] else [.copied kept, .register temp]

lemma LoadPlan.mem_sources {temp : String} {kept : Operand} {o : Line.Operand} :
    o ∈ sources i temp kept ↔ o = .register temp ∨ o = .copied kept := by
  unfold sources
  split
  · exact List.mem_pair
  · exact List.mem_pair.trans or_comm

/-- The ways in which a load in the place of operand `i` is planned, one for each family. -/
inductive LoadPlanned (mnemonic : String) (i : ℕ) : Family → LoadPlan → Prop
  | push {a : Operand} : LoadPlanned mnemonic i (.push a) ⟨[.pushResult], "%rax", false⟩
  | move {a b : Operand} {r : String} : b.register? = some r →
      LoadPlanned mnemonic i (.move a b) ⟨[], r, false⟩
  | conditionalMove {skip : String} {a b : Operand} {r : String} : b.register? = some r →
      LoadPlanned mnemonic i (.conditionalMove skip a b) ⟨[.skipIf skip], r, false⟩
  | compare {a b : Operand} {temp : String} :
      Frame.scratch [(if i = 0 then b else a).text] = .ok temp →
      LoadPlanned mnemonic i (.compare a b) (.scratch temp
        (.afterwards (.spaced mnemonic (LoadPlan.sources i temp (if i = 0 then b else a)))))
  | transform {a b : Operand} {r : String} : b.register? = some r → holdsAddress r = false →
      LoadPlanned mnemonic i (.transform a b)
        ⟨[.afterwards (.spaced mnemonic [.register r, .register r])], r, false⟩
  | combine {a b : Operand} {r temp : String} : b.register? = some r → holdsAddress r = true →
      Frame.scratch [r] = .ok temp →
      LoadPlanned mnemonic i (.combine a b) (.scratch temp
        (.afterwards (.spaced mnemonic [.register temp, .register r])))
  | combineVector {a b : Operand} {r temp : String} : b.register? = some r →
      holdsAddress r = false → Frame.scratch [] = .ok temp →
      LoadPlanned mnemonic i (.combineVector a b) (.scratch temp (.combineVector mnemonic r temp))
  | threeArg {a b c : Operand} {temp : String} : i < 2 →
      Frame.scratch [c.text, (if i = 0 then b else a).text] = .ok temp →
      LoadPlanned mnemonic i (.threeArg a b c) (.scratch temp (.afterwards (.spaced mnemonic
        (LoadPlan.sources i temp (if i = 0 then b else a) ++ [.copied c]))))

/-- There is no other way in which a load is planned. -/
lemma loadPlanned_of_loadPlan {mnemonic : String} {family : Family} {plan : LoadPlan}
    (h : loadPlan mnemonic i family = .ok plan) : LoadPlanned mnemonic i family plan := by
  cases family with
  | push a =>
      cases h
      exact .push
  | move a b =>
      obtain ⟨r, hr, rfl⟩ := Outcome.map_eq_ok_iff.mp h
      exact .move (register?_of_registerIn hr)
  | conditionalMove skip a b =>
      obtain ⟨r, hr, rfl⟩ := Outcome.map_eq_ok_iff.mp h
      exact .conditionalMove (register?_of_registerIn hr)
  | compare a b =>
      obtain ⟨temp, htemp, rfl⟩ := Outcome.map_eq_ok_iff.mp h
      exact .compare htemp
  | transform a b =>
      obtain ⟨r, hr, h⟩ := Outcome.bind_eq_ok_iff.mp h
      split at h
      · cases h
      · next hvector =>
          cases h
          exact .transform (register?_of_registerIn hr) (Bool.eq_false_iff.mpr hvector)
  | combine a b =>
      obtain ⟨r, hr, h⟩ := Outcome.bind_eq_ok_iff.mp h
      split at h
      · cases h
      · next hgeneral =>
          obtain ⟨temp, htemp, rfl⟩ := Outcome.map_eq_ok_iff.mp h
          exact .combine (register?_of_registerIn hr) (by simpa using hgeneral) htemp
  | combineVector a b =>
      obtain ⟨r, hr, h⟩ := Outcome.bind_eq_ok_iff.mp h
      split at h
      · cases h
      · next hvector =>
          obtain ⟨temp, htemp, rfl⟩ := Outcome.map_eq_ok_iff.mp h
          exact .combineVector (register?_of_registerIn hr) (Bool.eq_false_iff.mpr hvector) htemp
  | threeArg a b c =>
      rw [loadPlan] at h
      split at h
      · cases h
      · next hi =>
          obtain ⟨temp, htemp, rfl⟩ := Outcome.map_eq_ok_iff.mp h
          exact .threeArg (by omega) htemp
  | jump a => cases h
  | other => cases h

/-- A plan stays as it is if its address can be computed where it is to go, and otherwise goes on
through a scratch register. -/
lemma viaGeneral_eq_ok {mnemonic : String} {first plan : LoadPlan}
    (h : viaGeneral mnemonic first = .ok plan) :
    holdsAddress first.target = true ∧ plan = first ∨
      ∃ temp, Frame.scratch [] = .ok temp ∧ plan = ⟨first.frames ++
        [.saveRegister temp, .moveTo first.target (Text.startsWith "v" mnemonic) temp], temp,
          true⟩ := by
  unfold viaGeneral at h
  split at h
  · next hgeneral =>
      cases h
      exact .inl ⟨hgeneral, rfl⟩
  · obtain ⟨temp, htemp, rfl⟩ := Outcome.map_eq_ok_iff.mp h
    exact .inr ⟨temp, htemp, rfl⟩

/-- What holds of the frames of a plan, and of those around a scratch register, holds of them all
together. -/
lemma forall_frames_of_viaGeneral {P : Frame → Prop} {mnemonic : String} {first plan : LoadPlan}
    (h : viaGeneral mnemonic first = .ok plan) (hfirst : ∀ f ∈ first.frames, P f)
    (hscratch : ∀ avx temp, Frame.scratch [] = .ok temp →
      P (.saveRegister temp) ∧ P (.moveTo first.target avx temp)) : ∀ f ∈ plan.frames, P f := by
  rcases viaGeneral_eq_ok h with ⟨-, rfl⟩ | ⟨temp, htemp, rfl⟩
  · exact hfirst
  · obtain ⟨hsave, hmove⟩ := hscratch (Text.startsWith "v" mnemonic) temp htemp
    exact List.forall_mem_append.mpr ⟨hfirst, LoadPlan.forall_scratch hsave hmove⟩

/-- A load from the table that is accepted is no jump. -/
lemma isJump_of_gotLoad (h : gotLoad scope insn i m = .ok (frames, helpers)) :
    (Family.of insn).isJump = false := by
  obtain ⟨-, -, -, first, plan, hfirst, -⟩ := gotLoad_eq_ok h
  generalize Family.of insn = family at hfirst
  cases loadPlanned_of_loadPlan hfirst <;> rfl

/-! ### Operands -/

variable {o : Operand}

/-- The ways in which operand `i` of an instruction is sealed. -/
inductive OperandSealed (scope : Scope) (insn : Instruction) (i : ℕ) (o : Operand) :
    OperandChange → Prop
  | reference {m : MemoryRef} : o.kind = .memory m → m.tag = none →
      OperandSealed scope insn i o {
        operand := .built (o.withKind (.memory { m with symbol := m.symbol.map scope.inside }))
        changed := m.symbol.map scope.inside != m.symbol }
  | linkage {m : MemoryRef} : o.kind = .memory m → m.tag = some "PLT" →
      (Family.of insn).isJump = true →
      OperandSealed scope insn i o {
        operand := .built (o.withKind (.memory { m with
          symbol := (m.symbol.map scope.branchTarget).map Prod.fst, tag := none,
          tagOffset := "" }))
        helpers := ((m.symbol.map scope.branchTarget).map Prod.snd).getD [] }
  | branch {m : MemoryRef} : o.kind = .memory m → m.tag = some "GOTPCREL" →
      (Family.of insn).isJump = true → o.indirect = true →
      OperandSealed scope insn i o {
        operand := .symbol (scope.branchTarget (m.symbol.getD "")).1
        helpers := (scope.branchTarget (m.symbol.getD "")).2 }
  | load {m : MemoryRef} {frames : List Frame} {helpers : List Helper} :
      o.kind = .memory m → m.tag = some "GOTPCREL" →
      gotLoad scope insn i m = .ok (frames, helpers) →
      OperandSealed scope insn i o { operand := .copied o, frames, helpers, last := true }
  | distance {anchor : String} {target : Operand} : o.kind = .gotDistance anchor →
      insn.mnemonic = "movabsq" → targetOfFirst insn i = some target →
      OperandSealed scope insn i o {
        operand := .memory (.ripRelative Symbol.gotDelta)
        mnemonic := some "movq"
        frames := [.afterwards (.spaced "addq"
          [.ofKind (.immediate (some '$') ⟨[.symbol Symbol.gotDelta, .other "-",
            .symbol (scope.localized anchor)]⟩), .copied target])]
        helpers := [.gotDelta] }
  | address {target : Operand} : o.kind = .gotAddress → insn.mnemonic = "leaq" →
      targetOfFirst insn i = some target →
      OperandSealed scope insn i o {
        operand := .memory (.ripRelative Symbol.gotDelta)
        frames := [.afterwards (.spaced "addq"
          [.memory (.ripRelative Symbol.gotDelta), .copied target])]
        helpers := [.gotDelta] }
  | offset {symbol : String} {fromTable : Bool} {target : Operand} :
      o.kind = .gotOffset symbol fromTable → insn.mnemonic = "movabsq" →
      targetOfFirst insn i = some target →
      OperandSealed scope insn i o {
        operand := .copied o
        frames := [.loadGotOffset (Symbol.gotOffsetSlot (scope.localized symbol) fromTable)
          (.copied target)]
        helpers := [.gotOffset (scope.localized symbol) fromTable] }
  | constant {sigil : Option Char} {value : Expr} : o.kind = .immediate sigil value →
      (∀ name ∈ value.symbols, Symbol.isDotLocal name = true) →
      OperandSealed scope insn i o {
        operand := .built (o.withKind (.immediate sigil (value.mapSymbols scope.localized)))
        changed := value.mapSymbols scope.localized != value }
  | other : (∀ m, o.kind ≠ .memory m) → o.kind ≠ .gotAddress →
      (∀ anchor, o.kind ≠ .gotDistance anchor) →
      (∀ symbol fromTable, o.kind ≠ .gotOffset symbol fromTable) →
      (∀ sigil value, o.kind ≠ .immediate sigil value) →
      OperandSealed scope insn i o { operand := .copied o, changed := false }

lemma operandSealed_of_sealMemory {change : OperandChange} (hkind : o.kind = .memory m)
    (h : sealMemory scope insn i o m = .ok change) : OperandSealed scope insn i o change := by
  unfold sealMemory at h
  cases htag : m.tag with
  | none =>
      rw [htag] at h
      cases h
      have hsealed : OperandSealed scope insn i o _ := .reference hkind htag
      rw [htag] at hsealed
      exact hsealed
  | some tag =>
      rw [htag] at h
      dsimp only at h
      -- only these two tags are known
      by_cases hplt : tag = "PLT"
      · rw [if_pos hplt] at h
        by_cases hj : (Family.of insn).isJump = true
        · rw [if_pos hj] at h
          cases h
          exact .linkage hkind (hplt ▸ htag) hj
        · rw [if_neg hj] at h
          cases h
      · rw [if_neg hplt] at h
        by_cases hgot : tag = "GOTPCREL"
        · rw [if_pos hgot] at h
          by_cases hj : (Family.of insn).isJump = true
          · rw [if_pos hj] at h
            split at h
            · cases h
            · next hform =>
                cases h
                simp only [Bool.or_eq_true, Bool.not_eq_true', not_or] at hform
                exact .branch hkind (hgot ▸ htag) hj (by simpa using hform.1.1)
          · rw [if_neg hj] at h
            obtain ⟨⟨frames, helpers⟩, hload, rfl⟩ := Outcome.map_eq_ok_iff.mp h
            exact .load hkind (hgot ▸ htag) hload
        · rw [if_neg hgot] at h
          cases h

/-- There is no other way in which an operand is sealed. -/
lemma operandSealed_of_sealOperand {change : OperandChange}
    (h : sealOperand scope insn i o = .ok change) : OperandSealed scope insn i o change := by
  unfold sealOperand at h
  split at h
  · next m hkind => exact operandSealed_of_sealMemory hkind h
  · next anchor hkind =>
      -- the three forms that compute with the table, each in its own instruction and place
      unfold sealGotDistance at h
      split at h
      · cases h
      · next hm =>
          split at h
          · cases h
          · next target htarget =>
              cases h
              exact .distance hkind (by simpa using hm) htarget
  · next hkind =>
      unfold sealGotAddress at h
      split at h
      · cases h
      · next hm =>
          split at h
          · cases h
          · next target htarget =>
              cases h
              exact .address hkind (by simpa using hm) htarget
  · next symbol fromTable hkind =>
      unfold sealGotOffset at h
      split at h
      · cases h
      · next hm =>
          split at h
          · cases h
          · next target htarget =>
              cases h
              exact .offset hkind (by simpa using hm) htarget
  · next sigil value hkind =>
      unfold sealImmediate at h
      split at h
      · cases h
      · next hnone =>
          cases h
          refine .constant hkind fun name hname => ?_
          simpa using List.find?_eq_none.mp hnone name hname
  · next hmemory hdistance haddress hoffset himmediate =>
      cases h
      exact .other hmemory haddress hdistance hoffset himmediate

lemma targetOfFirst_eq_some {target : Operand} (h : targetOfFirst insn i = some target) :
    i = 0 ∧ ∃ first, insn.operands = [first, target] := by
  unfold targetOfFirst at h
  split at h
  · next first target hops =>
      cases h
      exact ⟨rfl, first, hops⟩
  · cases h

/-! ### Instructions -/

/-- Operands that are sealed in turn, the first of which has number `k`. -/
inductive OperandsSealed (scope : Scope) (insn : Instruction) :
    ℕ → List Operand → List OperandChange → Prop
  | nil {k : ℕ} : OperandsSealed scope insn k [] []
  | last {k : ℕ} {o : Operand} {os : List Operand} {change : OperandChange} :
      OperandSealed scope insn k o change → change.last = true →
        OperandsSealed scope insn k (o :: os) [change]
  | cons {k : ℕ} {o : Operand} {os : List Operand} {change : OperandChange}
      {changes : List OperandChange} :
      OperandSealed scope insn k o change → change.last = false →
        OperandsSealed scope insn (k + 1) os changes →
          OperandsSealed scope insn k (o :: os) (change :: changes)

lemma operandsSealed_of_sealOperands {k : ℕ} {os : List Operand} {changes : List OperandChange}
    (h : sealOperands scope insn k os = .ok changes) : OperandsSealed scope insn k os changes := by
  induction os generalizing k changes with
  | nil =>
      cases h
      exact .nil
  | cons o os ih =>
      rw [sealOperands] at h
      obtain ⟨change, hchange, h⟩ := Outcome.bind_eq_ok_iff.mp h
      have hsealed := operandSealed_of_sealOperand hchange
      cases hlast : change.last with
      | true =>
          rw [hlast, if_pos rfl] at h
          cases h
          exact .last hsealed hlast
      | false =>
          rw [hlast, if_neg Bool.false_ne_true] at h
          obtain ⟨rest, hrest, h⟩ := Outcome.bind_eq_ok_iff.mp h
          cases h
          exact .cons hsealed hlast (ih hrest)

/-- Every change is that of an operand with some number, the first one that of the first
operand. -/
lemma OperandsSealed.exists_getElem? {k : ℕ} {os : List Operand} {changes : List OperandChange}
    (h : OperandsSealed scope insn k os changes) {change : OperandChange}
    (hc : change ∈ changes) :
    ∃ j o, os[j]? = some o ∧ OperandSealed scope insn (k + j) o change ∧
      (j = 0 → changes.head? = some change) := by
  induction h with
  | nil => cases hc
  | last hsealed =>
      rw [List.mem_singleton.mp hc]
      exact ⟨0, _, rfl, hsealed, fun _ => rfl⟩
  | @cons k _ _ _ _ hsealed _ _ ih =>
      rcases List.mem_cons.mp hc with rfl | hc
      · exact ⟨0, _, rfl, hsealed, fun _ => rfl⟩
      · obtain ⟨j, o, ho, hsealed, -⟩ := ih hc
        rw [Nat.add_right_comm, Nat.add_assoc] at hsealed
        exact ⟨j + 1, o, ho, hsealed, fun hj => by omega⟩

lemma OperandsSealed.exists_of_mem {k : ℕ} {os : List Operand} {changes : List OperandChange}
    (h : OperandsSealed scope insn k os changes) {change : OperandChange}
    (hc : change ∈ changes) :
    ∃ j o, o ∈ os ∧ OperandSealed scope insn j o change ∧ k ≤ j ∧
      (j = k → changes.head? = some change) := by
  obtain ⟨j, o, ho, hsealed, hhead⟩ := h.exists_getElem? hc
  exact ⟨k + j, o, List.mem_of_getElem? ho, hsealed, Nat.le_add_right k j,
    fun hj => hhead (by omega)⟩

lemma OperandsSealed.length_le {k : ℕ} {os : List Operand} {changes : List OperandChange}
    (h : OperandsSealed scope insn k os changes) : changes.length ≤ os.length := by
  induction h with
  | nil => exact Nat.le_refl _
  | last =>
      rw [List.length_singleton, List.length_cons]
      omega
  | cons _ _ _ ih =>
      rw [List.length_cons, List.length_cons]
      omega

/-- What is written for an instruction: itself, or the lines that its changed operands call
for. -/
lemma sealInstruction_eq_ok {s : Statement} {e : Emission}
    (h : sealInstruction scope s insn = .ok e) :
    ∃ changes, OperandsSealed scope insn 0 insn.operands changes ∧
      (changes.any (·.changed) = false ∧ e = .copy s ∨
        changes.any (·.changed) = true ∧
          e = .replace s (changedLines insn changes) (changes.flatMap (·.helpers))) := by
  obtain ⟨changes, hchanges, h⟩ := Outcome.bind_eq_ok_iff.mp h
  refine ⟨changes, operandsSealed_of_sealOperands hchanges, ?_⟩
  split at h
  · next hany =>
      cases h
      exact .inr ⟨hany, rfl⟩
  · next hany =>
      cases h
      exact .inl ⟨by simpa using hany, rfl⟩

end Hermetic.X86

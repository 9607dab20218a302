/-
Loads from the offset table, and the lines that take their place.

* `LoadsAt`: an instruction that loads the address of a symbol by one of its operands, while the
  others are general registers or constants;
* `replaces_gotLoad`: the frames of the load do what the instruction does;
* `sealInstruction_agrees`: an instruction and the lines in its place end in the same state,
  apart from the memory below the red zone.
-/
import Hermetic.Proofs.Machine.Families
import Hermetic.Proofs.Sealing.X86

namespace Hermetic.X86

/-! ### Loads as they are planned -/

variable {l : Layout} {scope : Scope} {symbol : String} {m : MemoryRef} {o a b c : Operand}
variable {insn : Instruction} {i : ℕ} {frames : List Frame} {helpers : List Helper}

/-- An address can be computed into a general register. -/
lemma viaGeneral_name {mnemonic : String} {plan : LoadPlan} {r : Register}
    (h : plan.target = r.name) : viaGeneral mnemonic plan = .ok plan := by
  rw [viaGeneral, h, holdsAddress_name, if_pos rfl]

/-- What is planned with a scratch register. -/
lemma viaScratch_eq_ok {inUse : List String} {rest : String → Frame} {plan : LoadPlan}
    (h : viaScratch inUse rest = .ok plan) :
    ∃ temp : Register, temp ≠ .rsp ∧ temp.name ∉ inUse ∧
      plan = ⟨[.saveRegister temp.name, rest temp.name], temp.name, true⟩ := by
  obtain ⟨name, hname, rfl⟩ := Outcome.map_eq_ok_iff.mp h
  obtain ⟨temp, rfl, htemp, hfree⟩ := Frame.scratch_eq_ok hname
  exact ⟨temp, htemp, hfree, rfl⟩

/-- What is planned for a combination of two words. -/
lemma combine_eq_ok {mnemonic : String} {r : Register} {plan : LoadPlan}
    (h : loadPlan mnemonic i (.combine a (.ofKind (.register r.name))) = .ok plan) :
    ∃ temp : Register, temp ≠ .rsp ∧ temp.name ≠ r.name ∧
      plan = ⟨[.saveRegister temp.name,
        .afterwards (.spaced mnemonic [.register temp.name, .register r.name])],
        temp.name, true⟩ := by
  cases loadPlanned_of_loadPlan h with
  | combine hr _ hname =>
      cases hr
      obtain ⟨temp, rfl, htemp, hfree⟩ := Frame.scratch_eq_ok hname
      exact ⟨temp, htemp, by simpa using hfree, rfl⟩

/-- No address is moved into a general register as if that were a vector. -/
lemma transform_ne_ok {mnemonic : String} (r : Register) {plan : LoadPlan} :
    loadPlan mnemonic i (.transform a (.ofKind (.register r.name))) ≠ .ok plan := by
  intro h
  cases loadPlanned_of_loadPlan h with
  | transform hr hvector =>
      cases hr
      exact Bool.eq_false_iff.mp hvector (holdsAddress_name r)

lemma combineVector_ne_ok {mnemonic : String} (r : Register) {plan : LoadPlan} :
    loadPlan mnemonic i (.combineVector a (.ofKind (.register r.name))) ≠ .ok plan := by
  intro h
  cases loadPlanned_of_loadPlan h with
  | combineVector hr hvector =>
      cases hr
      exact Bool.eq_false_iff.mp hvector (holdsAddress_name r)

/-- An instruction that loads the address of a symbol by its operand `i`. -/
structure LoadsAt (symbol : String) (m : MemoryRef) (i : ℕ) (insn : Instruction) : Prop where
  modifiers : insn.modifiers = []
  entry : ∃ o, insn.operands[i]? = some o ∧ LoadsEntry symbol m o
  others : ∀ j o, j ≠ i → insn.operands[j]? = some o →
    IsGeneral o ∨ insn.mnemonic = "cmpq" ∧ IsConstant o

lemma LoadsAt.general {j : ℕ} (h : LoadsAt symbol m i insn) (hj : j ≠ i)
    (ha : insn.operands[j]? = some a) (hm : insn.mnemonic ≠ "cmpq") :
    ∃ r : Register, r ≠ .rsp ∧ a = .ofKind (.register r.name) :=
  (h.others j a hj ha).resolve_right fun hc => hm hc.1

lemma LoadsAt.kept {j : ℕ} (h : LoadsAt symbol m i insn) (hj : j ≠ i)
    (ha : insn.operands[j]? = some a) : IsGeneral a ∨ IsConstant a :=
  (h.others j a hj ha).imp_right fun hc => hc.2

lemma LoadsAt.lt_length (h : LoadsAt symbol m i insn) : i < insn.operands.length := by
  obtain ⟨o, ho, -⟩ := h.entry
  exact (List.getElem?_eq_some_iff.mp ho).1

section Plans

variable {s : Machine} {first plan : LoadPlan}

/-- What is planned for an instruction with one operand does what the instruction does. -/
lemma replaces_ofOne (h : Linked l scope symbol (s.registers .rsp) s.memory)
    (hops : insn.operands = [a])
    (hvalue : ∀ o, insn.operands[i]? = some o → l.value? s o = some (l.address symbol))
    (hplace : (Family.ofOne insn.mnemonic a).loadsAnywhere = true ∨ i = 0)
    (hfirst : loadPlan insn.mnemonic i (Family.ofOne insn.mnemonic a) = .ok first)
    (hplan : viaGeneral insn.mnemonic first = .ok plan) :
    Replaces l s insn.mnemonic [a]
      (plan.frames ++ [(addressOf scope symbol plan.target plan.redZoneCleared).1]) := by
  unfold Family.ofOne at hplace hfirst
  by_cases hpush : insn.mnemonic ∈ ["push", "pushq"]
  · rw [if_pos hpush] at hplace hfirst
    have hi : i = 0 := hplace.resolve_left Bool.false_ne_true
    cases hfirst
    rw [viaGeneral_name (r := .rax) rfl] at hplan
    cases hplan
    exact replaces_push h hpush (hvalue a (by rw [hops, hi]; rfl))
  rw [if_neg hpush] at hfirst
  split at hfirst
  · cases hfirst
  · cases hfirst

/-- What is planned for an instruction with two operands does what the instruction does. -/
lemma replaces_ofTwo (h : Linked l scope symbol (s.registers .rsp) s.memory)
    (hinsn : LoadsAt symbol m i insn) (hops : insn.operands = [a, b])
    (hvalue : ∀ o, insn.operands[i]? = some o → l.value? s o = some (l.address symbol))
    (hplace : (Family.ofTwo insn.mnemonic a b).loadsAnywhere = true ∨ i = 0)
    (hfirst : loadPlan insn.mnemonic i (Family.ofTwo insn.mnemonic a b) = .ok first)
    (hplan : viaGeneral insn.mnemonic first = .ok plan) :
    Replaces l s insn.mnemonic [a, b]
      (plan.frames ++ [(addressOf scope symbol plan.target plan.redZoneCleared).1]) := by
  have ha (hi : i = 0) : l.value? s a = some (l.address symbol) :=
    hvalue a (by rw [hops, hi]; rfl)
  have hgeneral (hi : i = 0) (hm : insn.mnemonic ≠ "cmpq") :=
    hinsn.general (j := 1) (a := b) (by omega) (by rw [hops]; rfl) hm
  -- the mnemonics are told apart as the family tells them apart: first moves
  unfold Family.ofTwo at hplace hfirst
  by_cases hmove : insn.mnemonic ∈ ["mov", "movq", "vmovq", "movsd", "vmovsd"]
  · rw [if_pos hmove] at hplace hfirst
    have hi : i = 0 := hplace.resolve_left Bool.false_ne_true
    obtain ⟨r, hr, rfl⟩ := hgeneral hi (by rintro hm; simp [hm] at hmove)
    cases hfirst
    rw [viaGeneral_name rfl] at hplan
    cases hplan
    exact replaces_move h hmove (ha hi) hr
  rw [if_neg hmove] at hplace hfirst
  -- operations on two words
  by_cases hcombine : insn.mnemonic ∈ ["orq", "andq", "xorq"]
  · rw [if_pos hcombine] at hplace hfirst
    have hi : i = 0 := hplace.resolve_left Bool.false_ne_true
    obtain ⟨r, hr, rfl⟩ := hgeneral hi (by rintro hm; simp [hm] at hcombine)
    obtain ⟨temp, htemp, hfree, rfl⟩ := combine_eq_ok hfirst
    rw [viaGeneral_name rfl] at hplan
    cases hplan
    exact replaces_combine h hcombine (ha hi) htemp hr fun hrt => hfree (by rw [hrt])
  rw [if_neg hcombine] at hplace hfirst
  -- comparisons, the only ones that load the address by either operand
  by_cases hcompare : insn.mnemonic = "cmpq"
  · rw [if_pos hcompare] at hfirst
    obtain ⟨temp, htemp, hfree, rfl⟩ := viaScratch_eq_ok hfirst
    rw [viaGeneral_name rfl] at hplan
    cases hplan
    rw [hcompare]
    by_cases hi : i = 0
    · have hb := hinsn.kept (j := 1) (a := b) (by omega) (by rw [hops]; rfl)
      simp only [hi, if_pos, List.mem_singleton] at hfree ⊢
      exact replaces_compare_first h (ha hi) htemp hb hfree
    · have ha := hinsn.kept (j := 0) (a := a) (by omega) (by rw [hops]; rfl)
      have hb : l.value? s b = some (l.address symbol) := by
        have hi : i = 1 := by
          have hlt := hinsn.lt_length
          rw [hops, List.length_cons, List.length_singleton] at hlt
          omega
        exact hvalue b (by rw [hops, hi]; rfl)
      simp only [hi, if_false, List.mem_singleton] at hfree ⊢
      exact replaces_compare_second h hb htemp ha hfree
  rw [if_neg hcompare] at hplace hfirst
  -- conditional moves; vectors are no general registers
  have hi : i = 0 := by
    refine hplace.resolve_left ?_
    split
    · exact Bool.false_ne_true
    · split
      · exact Bool.false_ne_true
      · split <;> exact Bool.false_ne_true
  obtain ⟨r, hr, rfl⟩ := hgeneral hi hcompare
  split at hfirst
  · exact absurd hfirst (transform_ne_ok r)
  split at hfirst
  · exact absurd hfirst (combineVector_ne_ok r)
  split at hfirst
  · next skip hskip =>
      cases hfirst
      rw [viaGeneral_name rfl] at hplan
      cases hplan
      exact replaces_conditionalMove h hskip (ha hi) hr
  · cases hfirst

/-- What is planned for an instruction with three operands does what the instruction does. -/
lemma replaces_ofThree (h : Linked l scope symbol (s.registers .rsp) s.memory)
    (hinsn : LoadsAt symbol m i insn) (hops : insn.operands = [a, b, c])
    (hvalue : ∀ o, insn.operands[i]? = some o → l.value? s o = some (l.address symbol))
    (hfirst : loadPlan insn.mnemonic i (Family.ofThree insn.mnemonic a b c) = .ok first)
    (hplan : viaGeneral insn.mnemonic first = .ok plan) :
    Replaces l s insn.mnemonic [a, b, c]
      (plan.frames ++ [(addressOf scope symbol plan.target plan.redZoneCleared).1]) := by
  unfold Family.ofThree at hfirst
  split at hfirst
  · next hshift =>
      rw [loadPlan] at hfirst
      split at hfirst
      · cases hfirst
      · next hlt =>
          have hcmpq : insn.mnemonic ≠ "cmpq" := by
            rintro hm
            simp [hm] at hshift
          obtain ⟨r, hr, rfl⟩ :=
            hinsn.general (j := 2) (a := c) (by omega) (by rw [hops]; rfl) hcmpq
          obtain ⟨temp, htemp, hfree, rfl⟩ := viaScratch_eq_ok hfirst
          rw [viaGeneral_name rfl] at hplan
          cases hplan
          -- the symbol is the first or the second operand; the third is the register to fill
          by_cases hi : i = 0
          · have ha : l.value? s a = some (l.address symbol) :=
              hvalue a (by rw [hops, hi]; rfl)
            have hb := hinsn.kept (j := 1) (a := b) (by omega) (by rw [hops]; rfl)
            simp only [hi, if_pos, List.mem_cons, List.not_mem_nil, or_false, not_or] at hfree ⊢
            exact replaces_shift_first h hshift ha htemp hb hfree.2 hr
              fun hrt => hfree.1 (by rw [hrt]; rfl)
          · have hi : i = 1 := by omega
            have hb : l.value? s b = some (l.address symbol) :=
              hvalue b (by rw [hops, hi]; rfl)
            have ha := hinsn.kept (j := 0) (a := a) (by omega) (by rw [hops]; rfl)
            simp only [hi, Nat.one_ne_zero, if_false, List.mem_cons, List.not_mem_nil, or_false,
              not_or] at hfree ⊢
            exact replaces_shift_second h hshift hb htemp ha hfree.2 hr
              fun hrt => hfree.1 (by rw [hrt]; rfl)
  · cases hfirst

end Plans

/-- The frames of an instruction that loads from the table do what the instruction does. -/
lemma replaces_gotLoad {s : Machine} (h : Linked l scope symbol (s.registers .rsp) s.memory)
    (hinsn : LoadsAt symbol m i insn)
    (hload : gotLoad scope insn i m = .ok (frames, helpers)) :
    Replaces l s insn.mnemonic insn.operands frames := by
  obtain ⟨hoffset, hrip, hplace, first, plan, hfirst, hplan, rfl, -⟩ := gotLoad_eq_ok hload
  obtain ⟨o, ho, hentry⟩ := hinsn.entry
  rw [hentry.symbol, Option.getD_some]
  have hvalue (a : Operand) (ha : insn.operands[i]? = some a) :
      l.value? s a = some (l.address symbol) := by
    obtain rfl : o = a := Option.some_inj.mp (ho.symm.trans ha)
    exact hentry.value? hoffset hrip s
  unfold Family.of at hplace hfirst
  split at hfirst
  · next a hops =>
      rw [hops] at hplace ⊢
      exact replaces_ofOne h hops hvalue hplace hfirst hplan
  · next a b hops =>
      rw [hops] at hplace ⊢
      exact replaces_ofTwo h hinsn hops hvalue hplace hfirst hplan
  · next a b c hops =>
      rw [hops]
      exact replaces_ofThree h hinsn hops hvalue hfirst hplan
  · cases hfirst

/-! ### Sealed instructions -/

lemma wrap_addressOf (frames : List Frame) (register : String) (cleared : Bool)
    (body : List Line) :
    Frame.wrap (frames ++ [(addressOf scope symbol register cleared).1]) body =
      Frame.wrap (frames ++ [(addressOf scope symbol register cleared).1]) [] := by
  have hload : Frame.wrap [(addressOf scope symbol register cleared).1] body =
      Frame.wrap [(addressOf scope symbol register cleared).1] [] := by
    unfold addressOf
    cases scope.inside? symbol <;> rfl
  rw [Frame.wrap_append, Frame.wrap_append, hload]

/-- A register or a constant needs nothing around the instruction. -/
lemma sealOperand_plain (scope : Scope) (insn : Instruction) (j : ℕ)
    (h : IsGeneral a ∨ IsConstant a) :
    ∃ change, sealOperand scope insn j a = .ok change ∧ change.frames = [] ∧
      change.helpers = [] ∧ change.last = false := by
  rcases h with ⟨r, -, rfl⟩ | h
  · exact ⟨_, rfl, rfl, rfl, rfl⟩
  · obtain ⟨e, hkind, hsymbols⟩ := h.kind
    have hseal : sealOperand scope insn j a = .ok {
        operand := .built (a.withKind (.immediate (some '$') (e.mapSymbols scope.localized)))
        changed := e.mapSymbols scope.localized != e } := by
      simp only [sealOperand, hkind, sealImmediate, hsymbols, List.find?_nil]
    exact ⟨_, hseal, rfl, rfl, rfl⟩

/-- What becomes of the operand that loads from the table. -/
lemma sealOperand_entry (hentry : LoadsEntry symbol m o)
    (hload : gotLoad scope insn i m = .ok (frames, helpers)) :
    sealOperand scope insn i o =
      .ok { operand := .copied o, frames := frames, helpers := helpers, last := true } := by
  have htag : "GOTPCREL" ≠ "PLT" := by decide
  simp only [sealOperand, hentry.kind, sealMemory, hentry.tag, isJump_of_gotLoad hload, hload,
    if_neg htag, if_true, Bool.false_eq_true, if_false, Except.map]

/-- The frames of an instruction whose operand `i` loads from the table are those of the load. -/
lemma sealOperands_eq_ok {os : List Operand} {k : ℕ} (ho : os[i]? = some o)
    (hentry : LoadsEntry symbol m o)
    (hload : gotLoad scope insn (k + i) m = .ok (frames, helpers))
    (hplain : ∀ j a, j ≠ i → os[j]? = some a → IsGeneral a ∨ IsConstant a) :
    ∃ changes, sealOperands scope insn k os = .ok changes ∧
      changes.flatMap (·.frames) = frames ∧ changes.flatMap (·.helpers) = helpers ∧
      changes.any (·.changed) = true := by
  -- by the operands in front of the load, which add no frames
  induction os generalizing i k with
  | nil => cases ho
  | cons a os ih =>
      cases i with
      | zero =>
          cases ho
          have hseal := sealOperand_entry hentry hload
          rw [Nat.add_zero] at hseal
          refine ⟨[_], by rw [sealOperands, hseal]; rfl, ?_, ?_, rfl⟩
          · exact List.append_nil frames
          · exact List.append_nil helpers
      | succ i =>
          obtain ⟨change, hchange, hframes, hhelpers, hlast⟩ :=
            sealOperand_plain scope insn k (hplain 0 a (by omega) rfl)
          obtain ⟨changes, hchanges, hf, hh, hc⟩ := ih (k := k + 1) ho
            (by rwa [Nat.add_right_comm])
            fun j b hj hb => hplain (j + 1) b (by omega) hb
          refine ⟨change :: changes, ?_, ?_, ?_, ?_⟩
          · rw [sealOperands, hchange]
            simp [bind, Except.bind, hlast, hchanges, pure, Except.pure]
          · rw [List.flatMap_cons, hframes, List.nil_append, hf]
          · rw [List.flatMap_cons, hhelpers, List.nil_append, hh]
          · rw [List.any_cons, hc, Bool.or_true]

/-- An instruction as a line of its own. -/
def sourceLine (insn : Instruction) : Line :=
  .instruction insn.modifiers insn.mnemonic "\t" (insn.operands.map .copied)

lemma run_sourceLine {s t : Machine} (hinsn : LoadsAt symbol m i insn)
    (h : l.exec? s insn.mnemonic insn.operands = some t) :
    l.run s [sourceLine insn] = some t := by
  have hoperands : (insn.operands.map Line.Operand.copied).map operandIn = insn.operands := by
    simp [operandIn, Function.comp_def]
  have hj : jump? insn.mnemonic insn.operands = none := by
    obtain ⟨o, ho, hentry⟩ := hinsn.entry
    unfold jump?
    split
    · next a hops =>
        rw [hops] at ho
        have hi : i = 0 := by
          have hlt := hinsn.lt_length
          rw [hops, List.length_singleton] at hlt
          omega
        rw [hi] at ho
        cases ho
        rw [hentry.kind]
    · rfl
  rw [sourceLine, hinsn.modifiers, Layout.run_instruction "\t" (by rw [hoperands]; exact hj)
    (by rw [hoperands]; exact h), Layout.run_nil]

/-- An instruction that loads the address of a symbol from the offset table, and the lines that
are written instead, end in the same state apart from the memory below the red zone. -/
theorem sealInstruction_agrees {s : Machine}
    (h : Linked l scope symbol (s.registers .rsp) s.memory) (hinsn : LoadsAt symbol m i insn)
    (hload : gotLoad scope insn i m = .ok (frames, helpers)) (statement : Statement) :
    ∃ lines t u, sealInstruction scope statement insn = .ok (.replace statement lines helpers) ∧
      l.run s [sourceLine insn] = some t ∧ l.run s lines = some u ∧ Agrees t u := by
  obtain ⟨o, ho, hentry⟩ := hinsn.entry
  obtain ⟨changes, hchanges, hframes, hhelpers, hchanged⟩ :=
    sealOperands_eq_ok (k := 0) ho hentry (by rwa [Nat.zero_add])
      fun j a hj ha => hinsn.kept hj ha
  obtain ⟨t, u, ht, hu, hagrees⟩ := replaces_gotLoad h hinsn hload
  have hwrap (body : List Line) : Frame.wrap frames body = Frame.wrap frames [] := by
    obtain ⟨-, -, -, first, plan, -, -, rfl, -⟩ := gotLoad_eq_ok hload
    exact wrap_addressOf ..
  refine ⟨changedLines insn changes, t, u, ?_, run_sourceLine hinsn ht, ?_, hagrees⟩
  · rw [sealInstruction, hchanges]
    simp [bind, Except.bind, hchanged, hhelpers, pure, Except.pure]
  · rw [changedLines, hframes, hwrap]
    exact hu

/-! ### A comparison with an address outside the module -/

namespace Comparison

/-- A module without symbols. -/
def emptyScope : Scope where
  symbols := ⟨.empty⟩
  marker := Symbol.defaultMarker
  index := 0

/-- Where a symbol outside the module lies, the word with the distance to its entry, and the
entry. -/
def layout : Layout where
  address name := if name = "foo" then 0x1000 else 0x2000
  entry _ := 0x3000
  constant _ := 0

/-- The state before the comparison. -/
def start : Machine where
  registers r := if r = .rsp then 0x8000 else 7
  flags := 0
  memory := (Memory.store (fun _ => 0) 0x2000 0x1000).store 0x3000 0x1000

/-- The reference to the entry of the symbol. -/
def reference : MemoryRef :=
  { symbol := some "foo", tag := some "GOTPCREL", base := some .rip }

/-- The comparison. -/
def instruction : Instruction where
  mnemonic := "cmpq"
  operands := [.ofKind (.memory reference), .ofKind (.register "%rax")]

lemma linked : Linked layout emptyScope "foo" (start.registers .rsp) start.memory where
  localAlias := by decide
  renamed := by decide
  slot _ := by decide
  entry _ := by decide
  slot_clear _ := by
    unfold Clear Below
    decide
  entry_clear _ := by
    unfold Clear Below
    decide

lemma loadsAt : LoadsAt "foo" reference 0 instruction where
  modifiers := rfl
  entry := ⟨_, rfl, rfl, rfl, rfl, rfl, rfl, rfl⟩
  others j o hj ho := by
    match j, hj with
    | 1, _ => exact .inl ⟨.rax, by decide, (Option.some_inj.mp ho).symm⟩
    | j + 2, _ => cases ho

end Comparison

/-- A comparison with the address of a symbol outside the module. -/
theorem sealInstruction_agrees_comparison :
    ∃ lines t u, sealInstruction Comparison.emptyScope ⟨.blank, "", {}⟩ Comparison.instruction =
        .ok (.replace ⟨.blank, "", {}⟩ lines [.gotEntry "foo"]) ∧
      Comparison.layout.run Comparison.start [sourceLine Comparison.instruction] = some t ∧
      Comparison.layout.run Comparison.start lines = some u ∧ Agrees t u :=
  sealInstruction_agrees Comparison.linked Comparison.loadsAt rfl _

end Hermetic.X86

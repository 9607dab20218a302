/-
Instructions that load the address of a symbol, and the frames that do the same.

* `IsGeneral`, `IsConstant`, `LoadsEntry`: the operands of such an instruction;
* `Agrees`: two states are the same, apart from the memory below the red zone;
* `Layout.exec?_push` to `Layout.exec?_shift`: what the instructions of the families do;
* `ofJump?_skipCondition`: the jump around a conditional move has the opposite condition;
* `Replaces`: frames do what an instruction does.  This is shown from `replaces_move` to
  `replaces_shift_second`, family by family.
-/
import Hermetic.Proofs.Machine.Frames

namespace Hermetic.X86

/-! ### Operands -/

/-- A general register other than that of the stack, without anything around it. -/
def IsGeneral (o : Operand) : Prop :=
  ∃ r : Register, r ≠ .rsp ∧ o = .ofKind (.register r.name)

/-- A constant without symbols, and without anything around it. -/
structure IsConstant (o : Operand) : Prop where
  kind : ∃ e : Expr, o.kind = .immediate (some '$') e ∧ e.symbols = []
  direct : o.indirect = false
  undecorated : o.decorators = ""

/-- A reference to the entry of a symbol in the offset table, without anything around it. -/
structure LoadsEntry (symbol : String) (m : MemoryRef) (o : Operand) : Prop where
  kind : o.kind = .memory m
  symbol : m.symbol = some symbol
  tag : m.tag = some "GOTPCREL"
  segment : m.segment = none
  direct : o.indirect = false
  undecorated : o.decorators = ""

variable {l : Layout} {scope : Scope} {symbol : String} {m : MemoryRef} {o a b c : Operand}

/-- A reference to the table is read as the address of its symbol. -/
lemma LoadsEntry.value? (h : LoadsEntry symbol m o) (hoffset : m.hasOffset = false)
    (hrip : m.isRipRelative = true) (s : Machine) :
    l.value? s o = some (l.address symbol) := by
  have hentry : Layout.isEntry m = true := by
    simp [Layout.isEntry, h.tag, h.segment, hoffset, hrip]
  simp [Layout.value?, h.direct, h.undecorated, h.kind, hentry, h.symbol]

/-- A constant, or a register that is not in use, has one value as long as no register changes but
that of the stack and the one in use. -/
lemma value?_kept (h : IsGeneral a ∨ IsConstant a) {temp : Register} (ha : temp.name ≠ a.text)
    (s : Machine) :
    ∃ w, ∀ x : Machine, (∀ q, q ≠ .rsp → q ≠ temp → x.registers q = s.registers q) →
      l.value? x a = some w := by
  rcases h with ⟨r, hr, rfl⟩ | h
  · have hne : r ≠ temp := fun hrt => ha (hrt ▸ rfl)
    refine ⟨s.registers r, fun x hx => ?_⟩
    rw [Layout.value?_register, hx r hr hne]
  · obtain ⟨e, hkind, hsymbols⟩ := h.kind
    refine ⟨l.constant e.display, fun x _ => ?_⟩
    simp [Layout.value?, h.direct, h.undecorated, hkind, hsymbols]

lemma holdsAddress_name (r : Register) : holdsAddress r.name = true := by
  cases r <;> decide

/-! ### Agreement -/

/-- Two states with the same registers and flags, and with the same memory apart from what lies
below the red zone. -/
structure Agrees (t u : Machine) : Prop where
  registers : u.registers = t.registers
  flags : u.flags = t.flags
  memory : t.memory.SameOutside (t.registers .rsp) 128 144 u.memory

/-- Frames do what an instruction does. -/
def Replaces (l : Layout) (s : Machine) (mnemonic : String) (operands : List Operand)
    (frames : List Frame) : Prop :=
  ∃ t u, l.exec? s mnemonic operands = some t ∧ l.run s (Frame.wrap frames []) = some u ∧
    Agrees t u

/-! ### Instructions that load addresses -/

namespace Layout

lemma exec?_push {s : Machine} {mnemonic : String} {w : Word}
    (hm : mnemonic ∈ ["push", "pushq"]) (ha : l.value? s a = some w) :
    l.exec? s mnemonic [a] = some (s.push w) := by
  rw [exec?, execOne?, if_pos hm, ha]
  rfl

lemma exec?_move {s : Machine} {mnemonic : String} {w : Word} (hm : mnemonic ∈ moves)
    (ha : l.value? s a = some w) (r : Register) :
    l.exec? s mnemonic [a, .ofKind (.register r.name)] = some (s.set r w) := by
  rw [exec?, execTwo?, if_pos hm, ha, place?_register]
  rfl

lemma exec?_conditionalMove {s : Machine} {mnemonic : String} {w : Word} {c : Condition}
    (hc : Condition.ofMove? mnemonic = some c) (ha : l.value? s a = some w) (r : Register) :
    l.exec? s mnemonic [a, .ofKind (.register r.name)] =
      some (if c.holds s.flags then s.set r w else s) := by
  have hmoves : mnemonic ∉ moves := by
    have hnone : ∀ name ∈ moves, Condition.ofMove? name = none := by decide
    intro hm
    rw [hnone mnemonic hm] at hc
    cases hc
  have hleaq : mnemonic ≠ "leaq" := by
    rintro rfl
    cases hc
  have hxchg : mnemonic ≠ "xchg" := by
    rintro rfl
    cases hc
  rw [exec?, execTwo?, if_neg hmoves, if_neg hleaq, if_neg hxchg, hc, ha, place?_register]
  rfl

lemma exec?_cmpq {s : Machine} {x y : Word} (ha : l.value? s a = some x)
    (hb : l.value? s b = some y) :
    l.exec? s "cmpq" [a, b] = some (s.after none (flagsOfSub s.flags y x)) := by
  have hmove : Condition.ofMove? "cmpq" = none := rfl
  rw [exec?, execTwo?, if_neg (by decide), if_neg (by decide), if_neg (by decide), hmove, ha, hb]
  rfl

/-- What a combination of two words does. -/
lemma exec?_combine {mnemonic : String} (hm : mnemonic ∈ ["orq", "andq", "xorq"]) :
    ∃ f : Word → Word → Word, ∀ (s : Machine) (a : Operand) (w : Word) (r : Register),
      l.value? s a = some w →
        l.exec? s mnemonic [a, .ofKind (.register r.name)] =
          some (s.after (some (r, f (s.registers r) w))
            (flagsOfLogic s.flags (f (s.registers r) w))) := by
  have hmove : Condition.ofMove? mnemonic = none := by
    have hnone : ∀ name ∈ ["orq", "andq", "xorq"], Condition.ofMove? name = none := by decide
    exact hnone mnemonic hm
  obtain ⟨f, hf⟩ : ∃ f, logic? mnemonic = some f := by
    simp only [List.mem_cons, List.not_mem_nil, or_false] at hm
    rcases hm with rfl | rfl | rfl
    · exact ⟨_, rfl⟩
    · exact ⟨_, rfl⟩
    · exact ⟨_, rfl⟩
  have hother : mnemonic ∉ moves ∧ mnemonic ≠ "leaq" ∧ mnemonic ≠ "xchg" ∧
      mnemonic ≠ "cmpq" ∧ mnemonic ≠ "addq" := by
    have hall : ∀ name ∈ ["orq", "andq", "xorq"], name ∉ moves ∧ name ≠ "leaq" ∧
        name ≠ "xchg" ∧ name ≠ "cmpq" ∧ name ≠ "addq" := by decide
    exact hall mnemonic hm
  obtain ⟨hmoves, hleaq, hxchg, hcmpq, haddq⟩ := hother
  refine ⟨f, fun s a w r ha => ?_⟩
  rw [exec?, execTwo?, if_neg hmoves, if_neg hleaq, if_neg hxchg, hmove, ha, value?_register]
  simp only [bind, Option.bind]
  rw [execArithmetic?, if_neg hcmpq, if_neg haddq, hf, place?_register]
  rfl

/-- What a shift of a word by another does. -/
lemma exec?_shift {mnemonic : String} (hm : mnemonic ∈ ["sarxq", "shlxq", "shrxq"]) :
    ∃ f : Word → Word → Word, ∀ (s : Machine) (a b : Operand) (x y : Word) (r : Register),
      l.value? s a = some x → l.value? s b = some y →
        l.exec? s mnemonic [a, b, .ofKind (.register r.name)] =
          some (s.after (some (r, f y x)) s.flags) := by
  obtain ⟨f, hf⟩ : ∃ f, shift? mnemonic = some f := by
    simp only [List.mem_cons, List.not_mem_nil, or_false] at hm
    rcases hm with rfl | rfl | rfl
    · exact ⟨_, rfl⟩
    · exact ⟨_, rfl⟩
    · exact ⟨_, rfl⟩
  refine ⟨f, fun s a b x y r ha hb => ?_⟩
  rw [exec?, execThree?, hf, ha, hb, place?_register]
  rfl

end Layout

/-! ### Conditions under which nothing is moved -/

/-- The jump around a conditional move has the opposite condition. -/
lemma ofJump?_skipCondition {mnemonic skip : String}
    (h : skipCondition mnemonic = some skip) :
    ∃ c, Condition.ofMove? mnemonic = some c ∧
      Condition.ofJump? ("j" ++ skip) = some c.opposite := by
  have htable : ∀ p ∈ oppositeConditions, ∀ name ∈ p.1,
      ((Condition.ofName? name).isSome = true ∧
        (Condition.ofName? name).map Condition.opposite =
          Condition.ofJump? ("j" ++ p.2)) := by
    decide +kernel
  unfold skipCondition at h
  unfold Condition.ofMove?
  split at h
  · next name hname =>
      obtain ⟨p, hfind, rfl⟩ := Option.map_eq_some_iff.mp h
      have hp := List.mem_of_find?_eq_some hfind
      have hin : String.ofList name ∈ p.1 := by simpa using List.find?_some hfind
      obtain ⟨hsome, hjump⟩ := htable p hp _ hin
      obtain ⟨c, hc⟩ := Option.isSome_iff_exists.mp hsome
      refine ⟨c, ?_, ?_⟩
      · rw [hname]
        exact hc
      · rw [← hjump, hc]
        rfl
  · cases h

/-! ### Families -/

section Families

variable {s : Machine}

/-- The address of a symbol is loaded below the red zone. -/
lemma run_addressOf_top (h : Linked l scope symbol (s.registers .rsp) s.memory) {r : Register}
    (hr : r ≠ .rsp) :
    ∃ m, s.memory.SameOutside (s.registers .rsp) 128 144 m ∧
      l.run s (Frame.wrap [(addressOf scope symbol r.name false).1] []) =
        some { s.set r (l.address symbol) with memory := m } := by
  obtain ⟨m, hm, hrun⟩ := Layout.run_addressOf h (s := s) hr false (k := 0) (by decide)
    (by simp) (Memory.SameOutside.refl _ _ _ _)
  refine ⟨m, hm.mono (by decide) (by decide), ?_⟩
  have hrun := hrun []
  rwa [List.append_nil, Layout.run_nil] at hrun

lemma replaces_move (h : Linked l scope symbol (s.registers .rsp) s.memory) {mnemonic : String}
    (hm : mnemonic ∈ Layout.moves) (ho : l.value? s o = some (l.address symbol)) {r : Register}
    (hr : r ≠ .rsp) :
    Replaces l s mnemonic [o, .ofKind (.register r.name)]
      [(addressOf scope symbol r.name false).1] := by
  obtain ⟨m, hmem, hrun⟩ := run_addressOf_top h hr
  refine ⟨_, _, Layout.exec?_move hm ho r, hrun, rfl, rfl, ?_⟩
  rw [Machine.registers_set_of_ne s hr.symm]
  exact hmem

lemma labels_addressOf (register : String) (cleared : Bool) :
    Line.labels (Frame.wrap [(addressOf scope symbol register cleared).1] []) = [] := by
  unfold addressOf
  cases scope.inside? symbol with
  | some name => rfl
  | none => cases cleared <;> rfl

lemma replaces_conditionalMove (h : Linked l scope symbol (s.registers .rsp) s.memory)
    {mnemonic skip : String} (hskip : skipCondition mnemonic = some skip)
    (ho : l.value? s o = some (l.address symbol)) {r : Register} (hr : r ≠ .rsp) :
    Replaces l s mnemonic [o, .ofKind (.register r.name)]
      [.skipIf skip, (addressOf scope symbol r.name false).1] := by
  obtain ⟨c, hmove, hjump⟩ := ofJump?_skipCondition hskip
  obtain ⟨m, hmem, hrun⟩ := run_addressOf_top h hr
  have hexec := Layout.exec?_conditionalMove hmove ho r
  -- the jump over the load is taken exactly if the move is not
  have hlines : l.run s (Frame.wrap [.skipIf skip, (addressOf scope symbol r.name false).1] []) =
      l.runFrom (if c.opposite.holds s.flags then some "999" else none) s
        (Frame.wrap [(addressOf scope symbol r.name false).1] [] ++ [.label "999"]) := by
    have hj : jump? ("j" ++ skip) [.ofKind (.localLabel "999f")] = some (c.opposite, "999") := by
      simp only [jump?, Operand.ofKind, hjump]
      rfl
    change l.runFrom none s (.instruction [] ("j" ++ skip) " " _ :: _) = _
    rw [Layout.runFrom, List.map_cons, List.map_nil, Layout.operandIn_ofKind, hj]
    rfl
  rw [Condition.holds_opposite] at hlines
  -- if the condition holds, the load is run up to the label behind it
  cases hc : c.holds s.flags with
  | true =>
      rw [hc, if_pos rfl] at hexec
      refine ⟨_, { s.set r (l.address symbol) with memory := m }, hexec, ?_, rfl, rfl, ?_⟩
      · rw [hlines, hc, Bool.not_true, if_neg (by decide)]
        exact Layout.run_append hrun _
      · rw [Machine.registers_set_of_ne s hr.symm]
        exact hmem
  | false =>
      rw [hc, if_neg (by decide)] at hexec
      refine ⟨s, s, hexec, ?_, rfl, rfl, Memory.SameOutside.refl _ _ _ _⟩
      rw [hlines, hc, Bool.not_false, if_pos rfl]
      exact Layout.runFrom_passed (labels_addressOf ..) s []

lemma replaces_push (h : Linked l scope symbol (s.registers .rsp) s.memory) {mnemonic : String}
    (hm : mnemonic ∈ ["push", "pushq"]) (ho : l.value? s o = some (l.address symbol)) :
    Replaces l s mnemonic [o] [.pushResult, (addressOf scope symbol "%rax" false).1] := by
  obtain ⟨top, htop⟩ : ∃ top, s.registers .rsp = top := ⟨_, rfl⟩
  have hexec := Layout.exec?_push hm ho
  -- the word below the top holds `%rax` first and the address in the end
  have hsp : (s.push (s.registers .rax)).registers .rsp = top - BitVec.ofNat 64 8 := by
    simp [Machine.push, htop]
  have hpushed : s.memory.SameOutside top 0 144 (s.push (s.registers .rax)).memory := by
    rw [Machine.push, htop]
    exact Memory.sameOutside_store _ _ _ (k := 8) (by omega) (by omega) (by omega)
  rw [htop] at h
  obtain ⟨m, hmem, hrun⟩ := Layout.run_addressOf h (s := s.push (s.registers .rax))
    (r := .rax) (by decide) false (by decide) hsp hpushed
  have hmem : (s.memory.store (top - 8) (s.registers .rax)).SameOutside top 136 144 m := by
    rw [Machine.push, htop] at hmem
    exact hmem
  have hkept : m.word (top - 8) = s.registers .rax :=
    (hmem.word_eq (k := 8) (by omega) (by omega)).trans (Memory.word_store ..)
  have hlines : Frame.wrap [.pushResult, (addressOf scope symbol "%rax" false).1] [] =
      .spaced "pushq" [.register Register.rax.name] ::
        (Frame.wrap [(addressOf scope symbol Register.rax.name false).1] [] ++
          [.spaced "xchg" [.register Register.rax.name, Frame.stack ""]]) := rfl
  refine ⟨_, { s.push (l.address symbol) with
    memory := m.store (top - 8) (l.address symbol) }, hexec, ?_, rfl, rfl, ?_⟩
  · rw [hlines, Layout.run_pushq, hrun, Layout.run_xchg, Layout.run_nil]
    have hne : Register.rsp ≠ .rax := by decide
    simp only [Machine.push, Machine.set, Machine.top, htop, Function.update_of_ne hne,
      Function.update_self, Function.update_idem, hkept]
    rw [Function.update_comm hne, Function.update_eq_self]
  · have hfinal := (hmem.store_again (l.address symbol)).nearer (k := 8) (by omega)
    simp only [Machine.push, Machine.set, htop, Function.update_self]
    exact hfinal.mono (by omega) (by omega)

/-- An instruction that reads a register in the place of an operand does what it did, if the
register holds what the operand denotes. -/
lemma replaces_scratch (h : Linked l scope symbol (s.registers .rsp) s.memory)
    {temp : Register} (htemp : temp ≠ .rsp) {mnemonic : String} {originals : List Operand}
    {operands : List Line.Operand} (hj : jump? mnemonic (operands.map operandIn) = none)
    (target : Option (Register × Word))
    (htarget : ∀ p ∈ target, p.1 ≠ .rsp ∧ p.1 ≠ temp) {flags : Word}
    (horiginal : l.exec? s mnemonic originals = some (s.after target flags))
    (hexec : ∀ x : Machine, x.registers temp = l.address symbol →
      (∀ q, q ≠ .rsp → q ≠ temp → x.registers q = s.registers q) → x.flags = s.flags →
      l.exec? x mnemonic (operands.map operandIn) = some (x.after target flags)) :
    Replaces l s mnemonic originals
      [.saveRegister temp.name, .afterwards (.spaced mnemonic operands),
        (addressOf scope symbol temp.name true).1] := by
  obtain ⟨m, hmem, hrun⟩ := Layout.run_scratch h htemp hj htarget hexec
  refine ⟨_, _, horiginal, hrun, rfl, rfl, ?_⟩
  rw [Machine.registers_after_of_ne s flags fun p hp => (htarget p hp).1]
  exact hmem

lemma replaces_compare_first (h : Linked l scope symbol (s.registers .rsp) s.memory)
    (ho : l.value? s o = some (l.address symbol)) {temp : Register} (htemp : temp ≠ .rsp)
    (hb : IsGeneral b ∨ IsConstant b) (hfree : temp.name ≠ b.text) :
    Replaces l s "cmpq" [o, b]
      [.saveRegister temp.name, .afterwards (.spaced "cmpq" [.register temp.name, .copied b]),
        (addressOf scope symbol temp.name true).1] := by
  obtain ⟨y, hy⟩ := value?_kept (l := l) hb hfree s
  refine replaces_scratch h htemp rfl none (by simp)
    (Layout.exec?_cmpq ho (hy s fun _ _ _ => rfl)) fun x hx hkept hflags => ?_
  rw [← hflags, ← hx]
  exact Layout.exec?_cmpq (Layout.value?_register x temp) (hy x hkept)

lemma replaces_compare_second (h : Linked l scope symbol (s.registers .rsp) s.memory)
    (ho : l.value? s o = some (l.address symbol)) {temp : Register} (htemp : temp ≠ .rsp)
    (ha : IsGeneral a ∨ IsConstant a) (hfree : temp.name ≠ a.text) :
    Replaces l s "cmpq" [a, o]
      [.saveRegister temp.name, .afterwards (.spaced "cmpq" [.copied a, .register temp.name]),
        (addressOf scope symbol temp.name true).1] := by
  obtain ⟨y, hy⟩ := value?_kept (l := l) ha hfree s
  refine replaces_scratch h htemp rfl none (by simp)
    (Layout.exec?_cmpq (hy s fun _ _ _ => rfl) ho) fun x hx hkept hflags => ?_
  rw [← hflags, ← hx]
  exact Layout.exec?_cmpq (hy x hkept) (Layout.value?_register x temp)

lemma replaces_combine (h : Linked l scope symbol (s.registers .rsp) s.memory)
    {mnemonic : String} (hm : mnemonic ∈ ["orq", "andq", "xorq"])
    (ho : l.value? s o = some (l.address symbol)) {temp r : Register} (htemp : temp ≠ .rsp)
    (hr : r ≠ .rsp) (hne : r ≠ temp) :
    Replaces l s mnemonic [o, .ofKind (.register r.name)]
      [.saveRegister temp.name,
        .afterwards (.spaced mnemonic [.register temp.name, .register r.name]),
        (addressOf scope symbol temp.name true).1] := by
  obtain ⟨f, hf⟩ := Layout.exec?_combine (l := l) hm
  refine replaces_scratch h htemp rfl (some (r, f (s.registers r) (l.address symbol)))
    ?_ (hf s o _ r ho) fun x hx hkept hflags => ?_
  · rintro p ⟨⟩
    exact ⟨hr, hne⟩
  · rw [← hflags, ← hx, ← hkept r hr hne]
    exact hf x _ _ r (Layout.value?_register x temp)

lemma replaces_shift_first (h : Linked l scope symbol (s.registers .rsp) s.memory)
    {mnemonic : String} (hm : mnemonic ∈ ["sarxq", "shlxq", "shrxq"])
    (ho : l.value? s o = some (l.address symbol)) {temp r : Register} (htemp : temp ≠ .rsp)
    (hb : IsGeneral b ∨ IsConstant b) (hfree : temp.name ≠ b.text) (hr : r ≠ .rsp)
    (hne : r ≠ temp) :
    Replaces l s mnemonic [o, b, .ofKind (.register r.name)]
      [.saveRegister temp.name,
        .afterwards (.spaced mnemonic
          [.register temp.name, .copied b, .copied (.ofKind (.register r.name))]),
        (addressOf scope symbol temp.name true).1] := by
  obtain ⟨f, hf⟩ := Layout.exec?_shift (l := l) hm
  obtain ⟨y, hy⟩ := value?_kept (l := l) hb hfree s
  refine replaces_scratch h htemp rfl (some (r, f y (l.address symbol)))
    ?_ (hf s o b _ _ r ho (hy s fun _ _ _ => rfl)) fun x hx hkept hflags => ?_
  · rintro p ⟨⟩
    exact ⟨hr, hne⟩
  · rw [← hflags, ← hx]
    exact hf x _ b _ _ r (Layout.value?_register x temp) (hy x hkept)

lemma replaces_shift_second (h : Linked l scope symbol (s.registers .rsp) s.memory)
    {mnemonic : String} (hm : mnemonic ∈ ["sarxq", "shlxq", "shrxq"])
    (ho : l.value? s o = some (l.address symbol)) {temp r : Register} (htemp : temp ≠ .rsp)
    (ha : IsGeneral a ∨ IsConstant a) (hfree : temp.name ≠ a.text) (hr : r ≠ .rsp)
    (hne : r ≠ temp) :
    Replaces l s mnemonic [a, o, .ofKind (.register r.name)]
      [.saveRegister temp.name,
        .afterwards (.spaced mnemonic
          [.copied a, .register temp.name, .copied (.ofKind (.register r.name))]),
        (addressOf scope symbol temp.name true).1] := by
  obtain ⟨f, hf⟩ := Layout.exec?_shift (l := l) hm
  obtain ⟨y, hy⟩ := value?_kept (l := l) ha hfree s
  refine replaces_scratch h htemp rfl (some (r, f (l.address symbol) y))
    ?_ (hf s a o _ _ r (hy s fun _ _ _ => rfl) ho) fun x hx hkept hflags => ?_
  · rintro p ⟨⟩
    exact ⟨hr, hne⟩
  · rw [← hflags, ← hx]
    exact hf x a _ _ _ r (hy x hkept) (Layout.value?_register x temp)

end Families

end Hermetic.X86

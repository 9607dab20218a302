/-
What the lines around and instead of an instruction do on the machine.

Everything that is written below the end of the stack is told by its distance from where the
stack ended at first, so that it can be added up.

* `Clear`, `Linked`: what the linker has laid down for a symbol that is loaded from the offset
  table;
* `Layout.run_pushq` to `Layout.run_xchg`: the lines of frames, one by one;
* `Layout.run_addressOf`: the address of a symbol ends up in a register, and nothing else changes
  but a word below the red zone;
* `Layout.run_scratch`: an instruction that reads a scratch register in the place of a symbol's
  address.
-/
import Hermetic.Proofs.Machine.X86
import Hermetic.Sealing.X86

namespace Hermetic.X86

/-! ### What the linker lays down -/

/-- Eight bytes from an address on, none of which is overwritten by the lines written here when
the stack ends at `top`. -/
def Clear (top a : Word) : Prop :=
  ∀ k < 8, ¬ Below top 0 144 (a.plus k)

lemma word_eq_of_clear {top a : Word} {m m' : Memory} (ha : Clear top a)
    (h : m.SameOutside top 0 144 m') : m'.word a = m.word a :=
  Memory.word_congr fun k hk => h _ (ha k hk)

/-- A symbol lies where its other names in the module lie.  If it lies outside the module, a word
holds the distance to its entry in the offset table, the entry holds its address, and both are
clear of a stack that ends at `top`. -/
structure Linked (l : Layout) (scope : Scope) (symbol : String) (top : Word) (m : Memory) :
    Prop where
  localAlias : scope.defines symbol = true →
    l.address (Symbol.localAlias symbol) = l.address symbol
  renamed : Symbol.isDotLocal symbol = true →
    l.address (Symbol.renamed symbol scope.index) = l.address symbol
  slot : scope.isExternal symbol = true →
    m.word (l.address (Symbol.gotSlot symbol)) =
      l.entry symbol - l.address (Symbol.gotSlot symbol)
  entry : scope.isExternal symbol = true → m.word (l.entry symbol) = l.address symbol
  slot_clear : scope.isExternal symbol = true → Clear top (l.address (Symbol.gotSlot symbol))
  entry_clear : scope.isExternal symbol = true → Clear top (l.entry symbol)

variable {l : Layout} {scope : Scope} {symbol : String} {top : Word} {m₀ : Memory}

/-- The name under which a symbol is reached inside the module has its address. -/
lemma Linked.inside (h : Linked l scope symbol top m₀) {name : String}
    (hn : scope.inside? symbol = some name) : l.address name = l.address symbol := by
  unfold Scope.inside? at hn
  split at hn
  · next hd =>
      cases hn
      exact h.localAlias hd
  · split at hn
    · next hd =>
        cases hn
        exact h.renamed hd
    · split at hn <;> cases hn
      rfl

/-! ### Registers of a state -/

namespace Machine

@[simp] lemma registers_set_self (s : Machine) (r : Register) (w : Word) :
    (s.set r w).registers r = w :=
  Function.update_self ..

lemma registers_set_of_ne (s : Machine) {r q : Register} (h : q ≠ r) (w : Word) :
    (s.set r w).registers q = s.registers q :=
  Function.update_of_ne h ..

@[simp] lemma flags_set (s : Machine) (r : Register) (w : Word) : (s.set r w).flags = s.flags :=
  rfl

@[simp] lemma memory_set (s : Machine) (r : Register) (w : Word) :
    (s.set r w).memory = s.memory := rfl

/-- What is pushed is written below the end of the stack. -/
lemma sameOutside_push {s : Machine} {k : ℕ} (hk : k + 8 ≤ 144)
    (hsp : s.registers .rsp = top - BitVec.ofNat 64 k) (w : Word) :
    s.memory.SameOutside top k (k + 8) (s.memory.store (s.registers .rsp - 8) w) := by
  have hpush : s.registers .rsp - 8 = top - BitVec.ofNat 64 (k + 8) := by
    rw [hsp]
    bv_omega
  rw [hpush]
  exact Memory.sameOutside_store _ _ _ (by omega) (by omega) (by omega)

end Machine

namespace Layout

/-! ### Lines of frames -/

lemma exec?_leaq {s : Machine} {m : MemoryRef} {a : Word} (h : l.effective? s m = some a)
    (r : Register) :
    l.exec? s "leaq" [.ofKind (.memory m), .ofKind (.register r.name)] = some (s.set r a) := by
  simp [exec?, execTwo?, moves, Operand.ofKind, h]
  simp [place?, Machine.save]

lemma run_leaq {s : Machine} {m : MemoryRef} {a : Word} (h : l.effective? s m = some a)
    (gap : String) (r : Register) (lines : List Line) :
    l.run s (.instruction [] "leaq" gap [.memory m, .register r.name] :: lines) =
      l.run (s.set r a) lines :=
  run_instruction gap rfl (exec?_leaq h r) lines

lemma run_clearRedZone (s : Machine) (lines : List Line) :
    l.run s (Frame.clearRedZone :: lines) =
      l.run (s.set .rsp (s.registers .rsp - 128)) lines := by
  have h : l.effective? s (.ofRegister Register.rsp.name "-128") =
      some (s.registers .rsp - 128) := by
    rw [effective?_ofRegister s .rsp (d := 0 - 128) (by decide)]
    simp [BitVec.sub_eq_add_neg]
  exact run_leaq h " " .rsp lines

lemma run_restoreRedZone (s : Machine) (lines : List Line) :
    l.run s (Frame.restoreRedZone :: lines) =
      l.run (s.set .rsp (s.registers .rsp + 128)) lines :=
  run_leaq (effective?_ofRegister s .rsp (by decide)) " " .rsp lines

lemma run_pushq (s : Machine) (r : Register) (lines : List Line) :
    l.run s (.spaced "pushq" [.register r.name] :: lines) =
      l.run (s.push (s.registers r)) lines :=
  run_instruction " " rfl (by simp [exec?, execOne?, Line.Operand.register]) lines

lemma run_popq (s : Machine) (r : Register) (lines : List Line) :
    l.run s (.spaced "popq" [.register r.name] :: lines) =
      l.run (s.pop.set r s.top) lines :=
  run_instruction " " rfl (by simp [exec?, execOne?, Line.Operand.register, Machine.save]) lines

lemma run_pushf (s : Machine) (lines : List Line) :
    l.run s (.spaced "pushf" [] :: lines) = l.run (s.push s.flags) lines :=
  run_instruction " " rfl rfl lines

lemma run_popf (s : Machine) (lines : List Line) :
    l.run s (.spaced "popf" [] :: lines) = l.run { s.pop with flags := s.top } lines :=
  run_instruction " " rfl rfl lines

lemma place?_ofRegister (s : Machine) (r : Register) :
    l.place? s (.ofKind (.memory (.ofRegister r.name))) = some (.cell (s.registers r)) := by
  have h : l.effective? s (.ofRegister r.name) = some (s.registers r + 0) :=
    effective?_ofRegister s r (by decide)
  simp [place?, Operand.ofKind, h]

lemma value?_ofRegister (s : Machine) (r : Register) :
    l.value? s (.ofKind (.memory (.ofRegister r.name))) =
      some (s.memory.word (s.registers r)) := by
  rw [value?, place?_ofRegister]
  rfl

/-- The word that a register points at is added to the register. -/
lemma run_addq (s : Machine) (r : Register) (lines : List Line) :
    l.run s (.spaced "addq" [.memory (.ofRegister r.name), .register r.name] :: lines) =
      l.run { s.set r (s.registers r + s.memory.word (s.registers r)) with
        flags := flagsOfAdd s.flags (s.registers r) (s.memory.word (s.registers r)) } lines := by
  have hv := value?_ofRegister (l := l) s r
  refine run_instruction " " rfl ?_ lines
  simp [exec?, execTwo?, execArithmetic?, moves, Condition.ofMove?, Text.after?,
    Line.Operand.register, Line.Operand.memory, Machine.save, hv]

/-- The word that a register points at is copied into the register. -/
lemma run_movq (s : Machine) (r : Register) (lines : List Line) :
    l.run s (.spaced "movq" [.memory (.ofRegister r.name), .register r.name] :: lines) =
      l.run (s.set r (s.memory.word (s.registers r))) lines := by
  have hv := value?_ofRegister (l := l) s r
  refine run_instruction " " rfl ?_ lines
  simp [exec?, execTwo?, moves, Line.Operand.register, Line.Operand.memory, Machine.save, hv]

/-- A register and the word on top of the stack change places. -/
lemma run_xchg (s : Machine) (r : Register) (lines : List Line) :
    l.run s (.spaced "xchg" [.register r.name, Frame.stack ""] :: lines) =
      l.run { s.set r s.top with
        memory := s.memory.store (s.registers .rsp) (s.registers r) } lines := by
  have hp := place?_ofRegister (l := l) s .rsp
  rw [Register.name] at hp
  refine run_instruction " " rfl ?_ lines
  simp [exec?, execTwo?, moves, Frame.stack, Line.Operand.register, Line.Operand.memory,
    Machine.save, Machine.load, Machine.top, Machine.set, hp]

/-! ### The computation of an address -/

/-- What the linker has laid down is loaded: the word as far from the slot of a symbol as the slot
says.  The flags are kept where the stack ends. -/
lemma run_loadFromGot_word {s : Machine} {r : Register} (hr : r ≠ .rsp) (symbol : String)
    {m : Memory} (hm : s.memory.store (s.registers .rsp - 8) s.flags = m) (lines : List Line) :
    l.run s (Frame.wrap [.loadFromGot symbol r.name true] [] ++ lines) =
      l.run { s.set r (m.word (l.address (Symbol.gotSlot symbol) +
        m.word (l.address (Symbol.gotSlot symbol)))) with memory := m } lines := by
  have hpop : s.registers .rsp - 8 + 8 = s.registers .rsp := by bv_omega
  have hflags : m.word (s.registers .rsp - 8) = s.flags := hm ▸ Memory.word_store ..
  simp only [Frame.loadFromGot, Frame.wrap, if_true, List.cons_append, List.nil_append]
  rw [run_pushf, Line.spaced, run_leaq (effective?_ripRelative _ _), run_addq, run_movq, run_popf]
  simp only [Machine.push, Machine.set, Machine.pop, Machine.top, hm, hflags, hpop,
    Function.update_self, Function.update_of_ne (Ne.symm hr), Function.update_idem]
  rw [Function.update_comm hr, Function.update_idem, Function.update_eq_self]

/-- The address of a symbol outside the module is loaded, and a word is overwritten where the
stack ends. -/
lemma run_loadFromGot (h : Linked l scope symbol top m₀) (he : scope.isExternal symbol = true)
    {s : Machine} {r : Register} (hr : r ≠ .rsp) {k : ℕ} (hk : k + 8 ≤ 144)
    (hsp : s.registers .rsp = top - BitVec.ofNat 64 k)
    (hs : m₀.SameOutside top 0 144 s.memory) :
    ∃ m, s.memory.SameOutside top k (k + 8) m ∧ ∀ lines,
      l.run s (Frame.wrap [.loadFromGot symbol r.name true] [] ++ lines) =
        l.run { s.set r (l.address symbol) with memory := m } lines := by
  obtain ⟨m, hdef⟩ : ∃ m, s.memory.store (s.registers .rsp - 8) s.flags = m := ⟨_, rfl⟩
  have hbelow := Machine.sameOutside_push hk hsp s.flags
  rw [hdef] at hbelow
  -- neither the word nor the entry is overwritten by the flags
  have hm₀ : m₀.SameOutside top 0 144 m := hs.trans (hbelow.mono (Nat.zero_le k) hk)
  have hslot := (word_eq_of_clear (h.slot_clear he) hm₀).trans (h.slot he)
  have hentry := (word_eq_of_clear (h.entry_clear he) hm₀).trans (h.entry he)
  have hsum : l.address (Symbol.gotSlot symbol) +
      (l.entry symbol - l.address (Symbol.gotSlot symbol)) = l.entry symbol := by
    bv_omega
  refine ⟨m, hbelow, fun lines => ?_⟩
  rw [run_loadFromGot_word hr symbol hdef, hslot, hsum, hentry]

/-- The same where the red zone has to be left alone. -/
lemma run_loadFromGot_uncleared (h : Linked l scope symbol top m₀)
    (he : scope.isExternal symbol = true) {s : Machine} {r : Register} (hr : r ≠ .rsp) {k : ℕ}
    (hk : k + 136 ≤ 144) (hsp : s.registers .rsp = top - BitVec.ofNat 64 k)
    (hs : m₀.SameOutside top 0 144 s.memory) :
    ∃ m, s.memory.SameOutside top (k + 128) (k + 136) m ∧ ∀ lines,
      l.run s (Frame.wrap [.loadFromGot symbol r.name false] [] ++ lines) =
        l.run { s.set r (l.address symbol) with memory := m } lines := by
  have hsub : (s.set .rsp (s.registers .rsp - 128)).registers .rsp =
      top - BitVec.ofNat 64 (k + 128) := by
    rw [Machine.registers_set_self, hsp]
    bv_omega
  have hadd : s.registers .rsp - 128 + 128 = s.registers .rsp := by bv_omega
  obtain ⟨m, hm, hrun⟩ := run_loadFromGot h he hr (by omega) hsub hs
  refine ⟨m, hm, fun lines => ?_⟩
  have hrun := hrun (Frame.restoreRedZone :: lines)
  simp only [Frame.loadFromGot, Frame.wrap, if_true, Bool.false_eq_true, if_false,
    List.cons_append, List.nil_append] at hrun ⊢
  rw [run_clearRedZone, hrun, run_restoreRedZone]
  simp only [Machine.set, Function.update_self, Function.update_of_ne (Ne.symm hr), hadd]
  rw [Function.update_comm hr, Function.update_idem, Function.update_eq_self]

/-- The number of bytes between the end of the stack and what a load of an address may
overwrite. -/
def spared (redZoneCleared : Bool) : ℕ :=
  if redZoneCleared then 0 else 128

/-- The address of a symbol ends up in a register.  Nothing else changes but a word where the
stack, or the red zone, ends. -/
lemma run_addressOf (h : Linked l scope symbol top m₀) {s : Machine} {r : Register}
    (hr : r ≠ .rsp) (cleared : Bool) {k : ℕ} (hk : k + spared cleared + 8 ≤ 144)
    (hsp : s.registers .rsp = top - BitVec.ofNat 64 k)
    (hs : m₀.SameOutside top 0 144 s.memory) :
    ∃ m, s.memory.SameOutside top (k + spared cleared) (k + spared cleared + 8) m ∧ ∀ lines,
      l.run s (Frame.wrap [(addressOf scope symbol r.name cleared).1] [] ++ lines) =
        l.run { s.set r (l.address symbol) with memory := m } lines := by
  unfold addressOf
  cases hi : scope.inside? symbol with
  | some name =>
      refine ⟨s.memory, Memory.SameOutside.refl _ _ _ _, fun lines => ?_⟩
      have hrun := run_leaq (effective?_ripRelative (l := l) s name) "\t" r lines
      rw [h.inside hi] at hrun
      exact hrun
  | none =>
      have he := Scope.inside?_eq_none_iff.mp hi
      cases cleared with
      | true => exact run_loadFromGot h he hr (by simpa [spared] using hk) hsp hs
      | false => exact run_loadFromGot_uncleared h he hr (by simpa [spared] using hk) hsp hs

end Layout

/-! ### Scratch registers -/

/-- A scratch register is a general register that is not in use, and not the stack register. -/
lemma Frame.scratch_eq_ok {inUse : List String} {temp : String}
    (h : Frame.scratch inUse = .ok temp) :
    ∃ t : Register, t.name = temp ∧ t ≠ .rsp ∧ temp ∉ inUse := by
  unfold Frame.scratch at h
  split at h
  · next r hr =>
      cases h
      have hmem := List.mem_of_find?_eq_some hr
      have huse := List.find?_some hr
      simp only [Frame.scratchRegisters, List.mem_cons, List.not_mem_nil, or_false] at hmem
      simp only [Bool.not_eq_true', List.contains_eq_mem, decide_eq_false_iff_not] at huse
      rcases hmem with rfl | rfl | rfl | rfl
      · exact ⟨.rax, rfl, by decide, huse⟩
      · exact ⟨.rbx, rfl, by decide, huse⟩
      · exact ⟨.rcx, rfl, by decide, huse⟩
      · exact ⟨.rdx, rfl, by decide, huse⟩
  · cases h

/-- The state with other flags, and with a register set, perhaps. -/
def Machine.after (s : Machine) (target : Option (Register × Word)) (flags : Word) : Machine where
  registers := target.elim s.registers fun p => Function.update s.registers p.1 p.2
  flags := flags
  memory := s.memory

lemma Machine.registers_after_of_ne (s : Machine) {target : Option (Register × Word)}
    (flags : Word) {q : Register} (h : ∀ p ∈ target, p.1 ≠ q) :
    (s.after target flags).registers q = s.registers q := by
  cases target with
  | none => rfl
  | some p => exact Function.update_of_ne (Ne.symm (h p rfl)) ..

lemma Machine.registers_after_congr {s x : Machine} {target : Option (Register × Word)}
    (flags : Word) {q : Register} (h : x.registers q = s.registers q) :
    (x.after target flags).registers q = (s.after target flags).registers q := by
  cases target with
  | none => exact h
  | some p => simp [Machine.after, Function.update_apply, h]

/-- The state with a register saved below the red zone. -/
def Machine.saved (s : Machine) (r : Register) : Machine where
  registers := Function.update s.registers .rsp (s.registers .rsp - 136)
  flags := s.flags
  memory := s.memory.store (s.registers .rsp - 136) (s.registers r)

/-- The state with a register that was saved below the red zone taken back. -/
def Machine.restored (s : Machine) (r : Register) : Machine where
  registers := Function.update (Function.update s.registers r s.top) .rsp (s.registers .rsp + 136)
  flags := s.flags
  memory := s.memory

lemma Machine.registers_restored (s : Machine) (r : Register) :
    (s.restored r).registers =
      Function.update (Function.update s.registers r s.top) .rsp (s.registers .rsp + 136) := rfl

namespace Layout

lemma run_saveRegister (s : Machine) {r : Register} (hr : r ≠ .rsp) (lines : List Line) :
    l.run s (Frame.clearRedZone :: .spaced "pushq" [.register r.name] :: lines) =
      l.run (s.saved r) lines := by
  have hsp : s.registers .rsp - 128 - 8 = s.registers .rsp - 136 := by bv_omega
  rw [run_clearRedZone, run_pushq]
  simp only [Machine.saved, Machine.push, Machine.set, Function.update_self,
    Function.update_of_ne hr, Function.update_idem, hsp]

lemma run_takeRegister (s : Machine) {r : Register} (hr : r ≠ .rsp) (lines : List Line) :
    l.run s (.spaced "popq" [.register r.name] :: Frame.restoreRedZone :: lines) =
      l.run (s.restored r) lines := by
  have hsp : s.registers .rsp + 8 + 128 = s.registers .rsp + 136 := by bv_omega
  rw [run_popq, run_restoreRedZone]
  simp only [Machine.restored, Machine.pop, Machine.set, Function.update_self,
    Function.update_of_ne (Ne.symm hr), Function.update_comm hr, Function.update_idem, hsp]

/-- An instruction that reads a scratch register in the place of a symbol's address, and changes
neither that register nor the stack, does around the red zone what it would do to the state
before.  What the scratch register held is taken back. -/
lemma run_scratch {s : Machine} (h : Linked l scope symbol (s.registers .rsp) s.memory)
    {temp : Register} (htemp : temp ≠ .rsp) {mnemonic : String} {operands : List Line.Operand}
    (hj : jump? mnemonic (operands.map operandIn) = none) {target : Option (Register × Word)}
    (htarget : ∀ p ∈ target, p.1 ≠ .rsp ∧ p.1 ≠ temp) {flags : Word}
    (hexec : ∀ x : Machine, x.registers temp = l.address symbol →
      (∀ q, q ≠ .rsp → q ≠ temp → x.registers q = s.registers q) → x.flags = s.flags →
      l.exec? x mnemonic (operands.map operandIn) = some (x.after target flags)) :
    ∃ m, s.memory.SameOutside (s.registers .rsp) 128 144 m ∧
      l.run s (Frame.wrap [.saveRegister temp.name, .afterwards (.spaced mnemonic operands),
        (addressOf scope symbol temp.name true).1] []) =
          some { s.after target flags with memory := m } := by
  obtain ⟨top, htop⟩ : ∃ top, s.registers .rsp = top := ⟨_, rfl⟩
  -- the red zone is gone past, and the scratch register is saved below it
  have hsp : (s.saved temp).registers .rsp = top - 136 := by simp [Machine.saved, htop]
  have hsame : s.memory.SameOutside top 128 144 (s.saved temp).memory := by
    rw [Machine.saved, htop]
    exact Memory.sameOutside_store _ _ _ (k := 136) (by omega) (by omega) (by omega)
  rw [htop] at h ⊢
  obtain ⟨m, hm, hrun⟩ := run_addressOf h htemp true (k := 136) (by decide) hsp
    (hsame.mono (by omega) (by omega))
  refine ⟨m, hsame.trans (hm.mono (by decide) (by decide)), ?_⟩
  -- the state `x` in which the instruction runs
  obtain ⟨x, hx⟩ : ∃ x, { (s.saved temp).set temp (l.address symbol) with memory := m } = x :=
    ⟨_, rfl⟩
  have hx_of_ne (q : Register) (hq : q ≠ .rsp) (ht : q ≠ temp) :
      x.registers q = s.registers q := by
    simp [← hx, Machine.set, Machine.saved, hq, ht]
  have hx_rsp : x.registers .rsp = top - 136 := by
    simp [← hx, Machine.set, Machine.saved, Ne.symm htemp, htop]
  have hsaved : m.word (top - 136) = s.registers temp := by
    have hword : m.word (top - 136) = (s.saved temp).memory.word (top - 136) :=
      hm.word_eq (k := 136) (by omega) (by simp)
    rw [hword, Machine.saved, htop, Memory.word_store]
  have hexec := hexec x (by simp [← hx]) hx_of_ne (by simp [← hx, Machine.set, Machine.saved])
  have hlines : Frame.wrap [.saveRegister temp.name, .afterwards (.spaced mnemonic operands),
      (addressOf scope symbol temp.name true).1] [] =
        Frame.clearRedZone :: .spaced "pushq" [.register temp.name] ::
          (Frame.wrap [(addressOf scope symbol temp.name true).1] [] ++
            .spaced mnemonic operands :: .spaced "popq" [.register temp.name] ::
              Frame.restoreRedZone :: []) := by
    simp [Frame.wrap, Frame.saveRegister, Frame.afterwards]
  rw [hlines, run_saveRegister _ htemp, hrun, hx, Line.spaced, run_instruction " " hj hexec,
    run_takeRegister _ htemp, run_nil]
  -- afterwards the register is taken from the stack, where it still is
  have hrsp : (x.after target flags).registers .rsp = top - 136 := by
    rw [Machine.registers_after_of_ne _ _ fun p hp => (htarget p hp).1, hx_rsp]
  have htop' : (x.after target flags).top = s.registers temp := by
    rw [Machine.top, hrsp, ← hsaved, ← hx]
    rfl
  have hregisters : ((x.after target flags).restored temp).registers =
      (s.after target flags).registers := by
    funext q
    rw [Machine.registers_restored, hrsp, htop']
    by_cases hq : q = .rsp
    · have hadd : top - 136 + 136 = top := by bv_omega
      subst hq
      rw [Function.update_self, hadd, ← htop,
        Machine.registers_after_of_ne _ _ fun p hp => (htarget p hp).1]
    · rw [Function.update_of_ne hq]
      by_cases ht : q = temp
      · subst ht
        rw [Function.update_self, Machine.registers_after_of_ne _ _ fun p hp => (htarget p hp).2]
      · rw [Function.update_of_ne ht]
        exact Machine.registers_after_congr flags (hx_of_ne q hq ht)
  rw [Option.some_inj, Machine.mk.injEq]
  exact ⟨hregisters, rfl, hx ▸ rfl⟩

end Layout

end Hermetic.X86

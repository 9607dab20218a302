/-
Loads of the addresses of symbols outside a module, for AArch64, on a machine.

* `Layout.run_helper`: the helper that a load calls returns the address in the table entry of its
  symbol;
* `Layout.run_loadExternal`: the lines of a load, with the helper, do not change what is not in
  the registers that they are about, or below the red zone;
* `run_sealInstruction`: what the lines in the place of an instruction that forms the address of a
  page do, for every target;
* `sealInstruction_loads`: they load the address into the target, and change no other register;
* `exists_load_lost`: but not if the target is the link register, or the first register under a
  name with a capital letter, for which the address is lost.
-/
import Hermetic.Proofs.Helpers.Names
import Hermetic.Proofs.Machine.Arm
import Hermetic.Proofs.Sealing.Arm

namespace Hermetic

namespace Word

lemma plus_plus (a : Word) (j k : ℕ) : (a.plus j).plus k = a.plus (j + k) := by
  rw [plus, plus, plus, BitVec.ofNat_add, BitVec.add_assoc]

end Word

namespace Arm

open X86 (displacement? operandIn)

namespace Layout

variable {l : Layout} {s : Machine} {symbol : String}

/-! ### The lines of a load -/

lemma execLine?_sub : l.execLine? s (.spaced "sub" [sp, sp, redZone]) =
    some { s with pc := s.pc.plus 4, sp := s.sp - 128 } := rfl

lemma execLine?_add : l.execLine? s (.spaced "add" [sp, sp, redZone]) =
    some { s with pc := s.pc.plus 4, sp := s.sp + 128 } := rfl

lemma register?_operandIn (name : String) :
    register? (operandIn (.register name)) = Register.ofName? name := rfl

lemma displacement?_push :
    (Text.after? ['#'] "#-16".toList).bind displacement? = some (0 - 16) := by
  rw [show Text.after? ['#'] "#-16".toList = some ['-', '1', '6'] by decide]
  decide

lemma execStore?_sp {a b text : String} {x y : Register} {d : Word}
    (ha : Register.ofName? a = some x) (hb : Register.ofName? b = some y)
    (hd : (Text.after? ['#'] text.toList).bind displacement? = some d) :
    execStore? s (operandIn (.register a)) (operandIn (.register b)) (operandIn
        (.ofKind (.indexed { base := "sp", rest := some (.text text), writeback := true }))) =
      some { s with
        sp := s.sp + d
        memory := (s.memory.store (s.sp + d) (s.get x)).store ((s.sp + d).plus 8) (s.get y) } := by
  rw [execStore?, register?_operandIn, register?_operandIn, ha, hb]
  simp [operandIn, Line.Operand.ofKind, Operand.ofKind, hd, Machine.set, Machine.get]

/-- Two registers are pushed. -/
lemma execLine?_push : l.execLine? s (.spaced "stp" [.register "x0", .register "lr",
      .ofKind (.indexed { base := "sp", rest := some (.text "#-16"), writeback := true })]) =
    some { s with
      pc := s.pc.plus 4
      sp := s.sp - 16
      memory := (s.memory.store (s.sp - 16) (s.registers 0)).store (s.sp - 8)
        (s.registers 30) } := by
  have htop : s.sp + (0 - 16) = s.sp - 16 := by bv_omega
  have hnext : (s.sp - 16).plus 8 = s.sp - 8 := by
    unfold Word.plus
    bv_omega
  have h := execStore?_sp (s := s) Register.ofName?_x0 Register.ofName?_lr displacement?_push
  rw [htop, hnext] at h
  exact congrArg (Option.map Machine.next) h

lemma constant?_size :
    constant? (operandIn (.ofKind (.immediate (some '#') ⟨[.other "16"]⟩))) = some 16 := by
  decide +kernel

lemma execLoad?_sp {a b : String} {x y : Register} {number : Operand} {d : Word}
    (ha : Register.ofName? a = some x) (hb : Register.ofName? b = some y)
    (hd : constant? number = some d) :
    execLoad? s (operandIn (.register a)) (operandIn (.register b))
        (operandIn (.ofKind (.indexed { base := "sp" }))) number =
      some (((s.set x (s.memory.word s.sp)).set y (s.memory.word (s.sp.plus 8))).set .sp
        (s.sp + d)) := by
  rw [execLoad?, register?_operandIn, register?_operandIn, ha, hb, hd]
  simp [operandIn, Line.Operand.ofKind, Operand.ofKind, Machine.get]

/-- Two words are popped, the second of which into the link register. -/
lemma execLine?_pop {a : String} {x : Register} (ha : Register.ofName? a = some x) :
    l.execLine? s (.spaced "ldp" [.register a, .register "lr", .ofKind (.indexed { base := "sp" }),
      .ofKind (.immediate (some '#') ⟨[.other "16"]⟩)]) =
    some { s with
      pc := s.pc.plus 4
      registers := Function.update (s.set x (s.memory.word s.sp)).registers 30
        (s.memory.word (s.sp.plus 8))
      sp := s.sp + 16 } := by
  have h := execLoad?_sp (s := s) ha Register.ofName?_lr constant?_size
  refine (congrArg (Option.map Machine.next) h).trans ?_
  cases x <;> rfl

lemma execLine?_bl {name : String} : l.execLine? s (.spaced "bl" [.symbol name]) =
    some { s with
      pc := l.address name
      registers := Function.update s.registers 30 (s.pc.plus 4) } := rfl

lemma execLine?_mov {name : String} {n : Fin 31} (hn : Register.ofName? name = some (.x n)) :
    l.execLine? s (.spaced "mov" [.register name, .register "x0"]) =
      some { s with
        pc := s.pc.plus 4
        registers := Function.update s.registers n (s.registers 0) } := by
  have htarget : register? (operandIn (.register name)) = some (.x n) := hn
  have hsource : register? (operandIn (.register "x0")) = some (.x 0) := rfl
  simp [Line.spaced, execLine?, exec?, execTwo?, htarget, hsource, Machine.set, Machine.get,
    Machine.next]

/-! ### The helper -/

/-- The helper returns the word in the table entry of its symbol. -/
lemma run_helper {a : Word} (h : l.Holds a (Boundary.armGotEntry symbol))
    (hpc : s.pc = l.address (Symbol.gotHelper symbol)) :
    l.run 4 s = some { s with
      pc := s.registers 30
      registers := Function.update s.registers 0 (s.memory.word (l.entry symbol)) } := by
  obtain ⟨-, -, -, haddress, -, hpad, hadrp, hldr, hret, -⟩ := h
  rw [haddress] at hpc
  rw [← hpc] at hpad hadrp hldr hret
  rw [run_succ hpad rfl, run_succ hadrp rfl, run_succ hldr rfl, run_succ hret rfl, run]
  simp [Machine.next, Machine.set, Machine.get, Register.link]

/-! ### The whole load -/

end Layout

namespace Machine

variable (s : Machine)

lemma sameOutside_spill : s.memory.SameOutside s.sp 128 144 s.spill :=
  (Memory.sameOutside_store _ _ _ (k := 144) (by omega) (by omega) (by omega)).trans
    (Memory.sameOutside_store _ _ _ (k := 136) (by omega) (by omega) (by omega))

lemma word_spill_link : s.spill.word (s.sp - 136) = s.registers 30 :=
  Memory.word_store ..

lemma word_spill_zero : s.spill.word (s.sp - 144) = s.registers 0 := by
  rw [spill, ← Memory.word_store s.memory (s.sp - 144) (s.registers 0)]
  refine Memory.word_congr fun k hk => ?_
  rw [Memory.word_store]
  refine Memory.store_of_outside _ _ ?_
  unfold Word.plus
  bv_omega

end Machine

section Registers

variable {name : String} {n : Fin 31} (w : Word) (registers : Fin 31 → Word)

/-- A load into any register but the first and the link register, or into the first by the name
that is looked for, changes that register only. -/
lemma afterLoad_of_loaded (hn : Register.ofName? name = some (.x n))
    (hzero : n = 0 → name = "x0") (hlink : n ≠ 30) :
    afterLoad name n w registers = Function.update registers n w := by
  by_cases hx0 : name = "x0"
  · subst hx0
    cases hn
    exact if_pos rfl
  · have hn0 : n ≠ 0 := fun h => hx0 (hzero h)
    rw [afterLoad, if_neg hx0]
    funext i
    simp only [Function.update_apply]
    grind

/-- A load into the first register by another name, or into the link register, changes none. -/
lemma afterLoad_of_lost (hx0 : name ≠ "x0") (hn : n = 0 ∨ n = 30) :
    afterLoad name n w registers = registers := by
  rw [afterLoad, if_neg hx0]
  funext i
  simp only [Function.update_apply]
  grind

/-- What the registers held before they are loaded and brought back does not matter. -/
lemma afterLoad_overwritten (hx0 : name ≠ "x0") (v : Word) :
    Function.update (Function.update (Function.update
      (Function.update (Function.update registers 30 v) 0 w) n w) 0 (registers 0)) 30
        (registers 30) = afterLoad name n w registers := by
  rw [afterLoad, if_neg hx0]
  funext i
  simp only [Function.update_apply]
  grind

end Registers

/-- A state with some registers that is like another except for where its program goes on, and
for the memory right below the red zone. -/
structure EndsWith (registers : Fin 31 → Word) (s t : Machine) : Prop where
  registers : t.registers = registers
  sp : t.sp = s.sp
  flags : t.flags = s.flags
  memory : s.memory.SameOutside s.sp 128 144 t.memory

namespace Layout

variable {l : Layout} {s : Machine} {symbol : String}

/-- The lines before the helper keep two registers and call it. -/
lemma run_call {name : String} (h : l.Holds s.pc (loadExternal symbol name)) :
    l.run 3 s = some { s with
      pc := l.address (Symbol.gotHelper symbol)
      registers := Function.update s.registers 30 (s.pc.plus 12)
      sp := s.sp - 144
      memory := s.spill } := by
  obtain ⟨hsub, hstp, hbl, -⟩ := h
  rw [run_succ hsub execLine?_sub, run_succ hstp execLine?_push,
    run_succ hbl execLine?_bl, run]
  have hfirst : s.sp - 128 - 16 = s.sp - 144 := by bv_omega
  have hsecond : s.sp - 128 - 8 = s.sp - 136 := by bv_omega
  simp only [Word.plus_plus, Machine.spill, hfirst, hsecond]

/-- The last lines of a load, in a state `t`, bring registers of the state `s` back that were kept
when the load started there. -/
lemma run_pop {a : String} {x : Register} {t : Machine} (ha : Register.ofName? a = some x)
    (hldp : l.code t.pc = some (.spaced "ldp" [.register a, .register "lr",
      .ofKind (.indexed { base := "sp" }), .ofKind (.immediate (some '#') ⟨[.other "16"]⟩)]))
    (hadd : l.code (t.pc.plus 4) = some (.spaced "add" [sp, sp, redZone]))
    (hsp : t.sp = s.sp - 144) (hmemory : t.memory = s.spill) :
    l.run 2 t = some { t with
      pc := t.pc.plus 8
      registers := Function.update (t.set x (s.registers 0)).registers 30 (s.registers 30)
      sp := s.sp } := by
  have hlink : (s.sp - 144).plus 8 = s.sp - 136 := by
    unfold Word.plus
    bv_omega
  have htop : s.sp - 144 + 16 + 128 = s.sp := by bv_omega
  rw [run_succ hldp (execLine?_pop ha), run_succ hadd execLine?_add, run]
  simp only [hsp, hmemory, hlink, htop, Machine.word_spill_zero, Machine.word_spill_link,
    Word.plus_plus]

/-- The registers after a load into the first register, by the name that is looked for. -/
lemma afterLoad_returned (s : Machine) (n : Fin 31) (w : Word) :
    Function.update (s.returned w).registers 30 (s.registers 30) =
      afterLoad "x0" n w s.registers := by
  rw [Machine.returned, afterLoad, if_pos rfl,
    Function.update_comm (by decide : (0 : Fin 31) ≠ 30), Function.update_idem,
    Function.update_eq_self]

/-- The lines after the helper bring its result to the target, and the registers that were kept
back. -/
lemma run_return {name : String} {n : Fin 31} (w : Word)
    (hn : Register.ofName? name = some (.x n)) (h : l.Holds s.pc (loadExternal symbol name)) :
    ∃ k, l.run k (s.returned w) = some { s with
      pc := s.pc.plus (4 * (loadExternal symbol name).length)
      registers := afterLoad name n w s.registers
      memory := s.spill } := by
  -- into the first register the result is not moved, and its old value is dropped
  by_cases hx0 : name = "x0"
  · subst hx0
    obtain ⟨-, -, -, hldp, hadd, -⟩ := h
    rw [Word.plus_plus s.pc, Word.plus_plus s.pc] at hldp hadd
    refine ⟨2, ?_⟩
    rw [run_pop (s := s) (t := s.returned w) Register.ofName?_xzr hldp hadd rfl rfl,
      ← afterLoad_returned]
    simp only [Machine.returned, Machine.set, Word.plus_plus]
    rfl
  · have hlines : (loadExternal symbol name).length = 6 := by
      simp [loadExternal, hx0]
    unfold loadExternal at h
    simp only [if_neg hx0] at h
    obtain ⟨-, -, -, hmov, hldp, hadd, -⟩ := h
    rw [Word.plus_plus s.pc, Word.plus_plus s.pc] at hmov hldp hadd
    -- behind the move the target has the result, and the first register still has it
    let t : Machine := { s.returned w with
      pc := (s.pc.plus 12).plus 4
      registers := Function.update (s.returned w).registers n ((s.returned w).registers 0) }
    have hpop := run_pop (s := s) (t := t) Register.ofName?_x0 hldp hadd rfl rfl
    refine ⟨3, ?_⟩
    rw [run_succ (s := s.returned w) hmov (execLine?_mov hn), hlines]
    refine hpop.trans ?_
    simp only [t, Machine.returned, Machine.set, Word.plus_plus, Function.update_self,
      afterLoad_overwritten w s.registers hx0]

/-- The lines of a load, together with the helper that they call, bring the word in the table
entry of the symbol to the target and change no register that is kept. -/
lemma run_loadExternal {name : String} {n : Fin 31} {a : Word}
    (hn : Register.ofName? name = some (.x n)) (h : l.Holds s.pc (loadExternal symbol name))
    (hhelper : l.Holds a (Boundary.armGotEntry symbol))
    (hclear : ∀ k < 8, ¬ Below s.sp 128 144 ((l.entry symbol).plus k)) :
    ∃ k t, l.run k s = some t ∧ t.pc = s.pc.plus (4 * (loadExternal symbol name).length) ∧
      EndsWith (afterLoad name n (s.memory.word (l.entry symbol)) s.registers) s t := by
  obtain ⟨k, hreturn⟩ := run_return (s.memory.word (l.entry symbol)) hn h
  refine ⟨3 + (4 + k), { s with
    pc := s.pc.plus (4 * (loadExternal symbol name).length)
    registers := afterLoad name n (s.memory.word (l.entry symbol)) s.registers
    memory := s.spill }, ?_, rfl, rfl, rfl, rfl, s.sameOutside_spill⟩
  have hword : s.spill.word (l.entry symbol) = s.memory.word (l.entry symbol) :=
    Memory.word_congr fun i hi => s.sameOutside_spill _ (hclear i hi)
  rw [run_add (run_call h), run_add (run_helper hhelper rfl), hword]
  exact hreturn

end Layout

/-! ### Instructions that form the address of a page -/

/-- An instruction that forms the address of the page of a symbol in the register that operands
call `name`. -/
structure FormsPage (insn : Instruction) (symbol name : String) : Prop where
  mnemonic : insn.mnemonic.toLower = "adrp"
  operands : ∃ target source offset, insn.operands = [target, source] ∧
    target.register? = some name ∧ pageSymbol? source = some (symbol, offset)

/-- The lines of an emission stand where a state goes on, the helpers that were asked for are
placed, and the table entry of a symbol holds its address and is not where the lines keep
registers. -/
structure Linked (l : Layout) (symbol : String) (helpers : Helpers) (e : Emission)
    (s : Machine) : Prop where
  code : l.Holds s.pc e.lines
  requested : ∀ h ∈ e.helpers, helpers.Holds h
  helpers : ∃ a, l.Holds a (Boundary.helperLines .aarch64 helpers)
  entry : s.memory.word (l.entry symbol) = l.address symbol
  clear : ∀ k < 8, ¬ Below s.sp 128 144 ((l.entry symbol).plus k)

section Instructions

variable {l : Layout} {scope : Scope} {statement : Statement} {insn : Instruction} {e : Emission}
variable {helpers : Helpers} {symbol name : String} {n : Fin 31} {s : Machine}

/-- What is written for an instruction that forms the address of a page outside the module. -/
lemma sealInstruction_of_formsPage (hpage : FormsPage insn symbol name)
    (hexternal : scope.isExternal symbol = true)
    (h : sealInstruction scope statement insn = .ok e) :
    e = .replace statement (loadExternal symbol name) [.gotEntry symbol] := by
  obtain ⟨target, source, offset, hops, hname, hsymbol⟩ := hpage.operands
  rcases sealInstruction_eq_ok h with ⟨hfree, -⟩ | ⟨-, h⟩ | ⟨hmnemonic, -⟩
  · rw [hpage.mnemonic] at hfree
    exact absurd hfree (by decide)
  · obtain ⟨target', source', register, symbol', offset', hops', hregister, hsymbol', h⟩ :=
      pageAddress_eq_ok h
    rw [hops] at hops'
    cases hops'
    rw [hsymbol] at hsymbol'
    cases hsymbol'
    have hregister : register = name := by
      rw [xRegister, hname] at hregister
      split at hregister
      · next r hr =>
          cases hregister
          exact (Option.some_inj.mp (Option.eq_some_of_filter_eq_some hr)).symm
      · cases hregister
    rcases h with ⟨hinside, -⟩ | ⟨-, rfl⟩
    · rw [hexternal] at hinside
      cases hinside
    · rw [hregister]
  · exact absurd hpage.mnemonic hmnemonic

/-- The lines in the place of the instruction do what is written for it. -/
lemma run_sealInstruction (hpage : FormsPage insn symbol name)
    (hexternal : scope.isExternal symbol = true) (hn : Register.ofName? name = some (.x n))
    (h : sealInstruction scope statement insn = .ok e) (hlinked : Linked l symbol helpers e s) :
    ∃ k t, l.run k s = some t ∧ t.pc = s.pc.plus (4 * e.lines.length) ∧
      EndsWith (afterLoad name n (l.address symbol) s.registers) s t := by
  obtain rfl := sealInstruction_of_formsPage hpage hexternal h
  have hcode := hlinked.code
  rw [Emission.lines_replace] at hcode ⊢
  obtain ⟨a, ha⟩ := hlinked.helpers
  have hneeds := hlinked.requested (.gotEntry symbol) (List.mem_singleton_self _)
  obtain ⟨b, hb⟩ := ha.of_infix (Helpers.lines_infix hneeds)
  rw [← hlinked.entry]
  exact Layout.run_loadExternal hn hcode hb hlinked.clear

/-- The lines in the place of the instruction load the address of the symbol into the target, and
change nothing else but memory below the red zone, if the target is not the link register, nor the
first register under another name than the one that is looked for. -/
theorem sealInstruction_loads (hpage : FormsPage insn symbol name)
    (hexternal : scope.isExternal symbol = true) (hn : Register.ofName? name = some (.x n))
    (h : sealInstruction scope statement insn = .ok e) (hlinked : Linked l symbol helpers e s)
    (hzero : n = 0 → name = "x0") (hlink : n ≠ 30) :
    ∃ k t, l.run k s = some t ∧ t.pc = s.pc.plus (4 * e.lines.length) ∧
      EndsWith (Function.update s.registers n (l.address symbol)) s t := by
  rw [← afterLoad_of_loaded (l.address symbol) s.registers hn hzero hlink]
  exact run_sealInstruction hpage hexternal hn h hlinked

end Instructions

/-! ### A symbol outside a module -/

namespace PageLoad

/-- A module without symbols. -/
def emptyScope : Scope where
  symbols := ⟨.empty⟩
  marker := Symbol.defaultMarker
  index := 0

/-- The instruction that forms the address of a page in a register. -/
def instruction (name : String) : Instruction where
  mnemonic := "adrp"
  operands := [.ofKind (.register name), .ofKind (.memory (.ofSymbol "ext"))]

/-- What is written for it. -/
def emission (name : String) : Emission :=
  .replace ⟨.blank, "", {}⟩ (loadExternal "ext" name) [.gotEntry "ext"]

/-- The helpers that are asked for. -/
def helpers : Helpers :=
  Helpers.request {} (.gotEntry "ext")

/-- Where the lines and the helper lie. -/
def layout (name : String) : Layout where
  address symbol := if symbol = "ext" then 0x4000 else 0x2000
  entry _ := 0x3000
  code a := (Layout.placed 0x1000 (emission name).lines ++
    Layout.placed 0x2000 (Boundary.helperLines .aarch64 helpers)).lookup a

/-- The state before the lines. -/
def start : Machine where
  pc := 0x1000
  registers _ := 7
  sp := 0x8000
  flags := 0
  memory := Memory.store (fun _ => 0) 0x3000 0x4000

/-- Three targets. -/
def targets : List String := ["x1", "X0", "x30"]

lemma formsPage (name : String) : FormsPage (instruction name) "ext" name where
  mnemonic := show "adrp".toLower = "adrp" by decide +kernel
  operands := ⟨_, _, "", rfl, rfl, rfl⟩

lemma isExternal_ext : emptyScope.isExternal "ext" = true := by decide

lemma linked {name : String} (h : name ∈ targets) :
    Linked (layout name) "ext" helpers (emission name) start where
  code := by
    revert name
    decide +kernel
  requested h hh := by
    obtain rfl := List.mem_singleton.mp hh
    exact Helpers.mem_gotEntries_requestAll.mpr (.inr (List.mem_singleton_self _))
  helpers := ⟨0x2000, by revert name; decide +kernel⟩
  entry := Memory.word_store ..
  clear k hk := by
    unfold Below Word.plus
    simp only [layout, start]
    bv_omega

end PageLoad

/-- A load into the second register. -/
theorem sealInstruction_loads_second :
    ∃ k t, (PageLoad.layout "x1").run k PageLoad.start = some t ∧
      t.pc = PageLoad.start.pc.plus (4 * (PageLoad.emission "x1").lines.length) ∧
      EndsWith (Function.update PageLoad.start.registers 1 0x4000) PageLoad.start t :=
  have hsealed : sealInstruction PageLoad.emptyScope ⟨.blank, "", {}⟩
      (PageLoad.instruction "x1") = .ok (PageLoad.emission "x1") := by
    decide +kernel
  sealInstruction_loads (PageLoad.formsPage "x1") PageLoad.isExternal_ext (by decide +kernel)
    hsealed (PageLoad.linked (by decide)) (by decide) (by decide)

/-- A load into the register `n` under a name is accepted, but its lines end with something else
in the register than the address of the symbol. -/
def PageLoad.Lost (name : String) (n : Fin 31) : Prop :=
  Register.ofName? name = some (.x n) ∧ PageLoad.emptyScope.isExternal "ext" = true ∧
    ∃ insn e l helpers s k t, FormsPage insn "ext" name ∧
      sealInstruction PageLoad.emptyScope ⟨.blank, "", {}⟩ insn = .ok e ∧
      Linked l "ext" helpers e s ∧ l.run k s = some t ∧
      t.pc = s.pc.plus (4 * e.lines.length) ∧ t.registers n ≠ l.address "ext"

lemma PageLoad.lost {name : String} {n : Fin 31} (hmem : name ∈ targets) (hx0 : name ≠ "x0")
    (hlost : n = 0 ∨ n = 30) (hn : Register.ofName? name = some (.x n)) : Lost name n := by
  have hsealed : sealInstruction emptyScope ⟨.blank, "", {}⟩ (instruction name) =
      .ok (emission name) := by
    clear hn hx0
    revert name
    decide +kernel
  have hlinked := linked hmem
  obtain ⟨k, t, hrun, hpc, hend⟩ :=
    run_sealInstruction (formsPage name) isExternal_ext hn hsealed hlinked
  refine ⟨hn, isExternal_ext, _, _, _, _, _, k, t, formsPage name, hsealed, hlinked, hrun, hpc, ?_⟩
  rw [hend.registers, afterLoad_of_lost _ _ hx0 hlost]
  show (7 : Word) ≠ 0x4000
  decide

/-- The first register under a name with a capital letter, and the link register, keep what they
held before the load. -/
theorem exists_load_lost : PageLoad.Lost "X0" 0 ∧ PageLoad.Lost "x30" 30 :=
  ⟨PageLoad.lost (by decide) (by decide) (.inl rfl) (by decide +kernel),
    PageLoad.lost (by decide) (by decide) (.inr rfl) (by decide +kernel)⟩

end Arm

end Hermetic

/-
The lines that are written for an instruction leave the flags as they are.

The processor here is any that keeps what its manual says of the few instructions that are written
around others.  What an instruction of the source does is left open, apart from its flags.

* `Processor`: a state with flags and a stack, and what is known of its instructions;
* `Processor.run`: the state after some lines;
* `Processor.KeepsFlags`: lines that leave the flags as they are, with
  `Processor.keepsFlags_wrap`: frames made of such lines leave them as they are together;
* `flags_sealInstruction`: the lines for an instruction that leaves the flags as they are do so
  too, unless it forms the address of the offset table or loads an outside address into the stack
  register.
-/
import Hermetic.Proofs.Helpers.X86
import Hermetic.Proofs.Machine.GotLoad
import Hermetic.Proofs.Sealing.Instructions

namespace Hermetic.X86

/-! ### Processors -/

/-- Whether a name is that of the stack register, or of a part of it. -/
def isStackRegister (name : String) : Bool :=
  ["%rsp", "%esp", "%sp", "%spl"].contains name.toLower

/-- The instructions written around others that leave the flags as they are. -/
def plainMnemonics : List String :=
  ["pushf", "pushq", "popq", "leaq", "movq", "vmovq", "xchg"]

/-- A processor whose state has a word of flags, and a word on top of the stack.  `step` is what an
instruction does that is no jump within the lines at hand. -/
structure Processor (State : Type) where
  flags : State → Word
  top : State → Word
  step : State → List String → String → List Operand → State
  /-- Copies and addresses leave the flags as they are. -/
  flags_plain : ∀ mnemonic ∈ plainMnemonics, ∀ s modifiers operands,
    flags (step s modifiers mnemonic operands) = flags s
  /-- The flags can be put on top of the stack. -/
  top_pushf : ∀ s, top (step s [] "pushf" []) = flags s
  /-- They can be taken from there. -/
  flags_popf : ∀ s, flags (step s [] "popf" []) = top s
  /-- What is computed into a register leaves the stack as it is, unless it is that of the
  stack. -/
  top_step : ∀ mnemonic ∈ ["leaq", "addq", "movq"], ∀ s source register,
    isStackRegister register = false →
      top (step s [] mnemonic [source, .ofKind (.register register)]) = top s

namespace Processor

variable {State : Type} (P : Processor State)

/-- Whether an instruction leaves the flags as they are, whatever its operands. -/
def Keeps (mnemonic : String) : Prop :=
  ∀ s modifiers operands, P.flags (P.step s modifiers mnemonic operands) = P.flags s

/-- The label that is sought after some lines, and the state.  What stands before a label that is
sought is passed over. -/
def runFrom : Option String → State → List Line → Option String × State
  | sought, s, [] => (sought, s)
  | sought, s, .label name :: lines =>
    runFrom (if sought = some name then none else sought) s lines
  | some label, s, _ :: lines => runFrom (some label) s lines
  | none, s, .instruction modifiers mnemonic _ operands :: lines =>
    match jump? mnemonic (operands.map operandIn) with
    | some (c, label) => runFrom (if c.holds (P.flags s) then some label else none) s lines
    | none => runFrom none (P.step s modifiers mnemonic (operands.map operandIn)) lines
  | none, s, _ :: lines => runFrom none s lines

/-- The state after some lines. -/
def run (s : State) (lines : List Line) : State :=
  (P.runFrom none s lines).2

/-! ### Lines that leave the flags as they are -/

/-- Whether lines leave the flags as they are, all of them or from a label on. -/
def KeepsFlags (lines : List Line) : Prop :=
  ∀ sought s, P.flags (P.runFrom sought s lines).2 = P.flags s

variable {P} {lines more : List Line}

lemma keeps_of_mem {mnemonic : String} (h : mnemonic ∈ plainMnemonics) : P.Keeps mnemonic :=
  P.flags_plain mnemonic h

lemma runFrom_append (sought : Option String) (s : State) (lines more : List Line) :
    P.runFrom sought s (lines ++ more) =
      P.runFrom (P.runFrom sought s lines).1 (P.runFrom sought s lines).2 more := by
  induction lines generalizing sought s with
  | nil => rfl
  | cons line lines ih =>
      cases line with
      | label name => exact ih _ _
      | directive =>
          cases sought with
          | none => exact ih _ _
          | some label => exact ih _ _
      | landingPad =>
          cases sought with
          | none => exact ih _ _
          | some label => exact ih _ _
      | instruction modifiers mnemonic gap operands =>
          cases sought with
          | some label => exact ih _ _
          | none =>
              rw [List.cons_append, runFrom, runFrom]
              split
              · exact ih _ _
              · exact ih _ _

namespace KeepsFlags

lemma nil : P.KeepsFlags [] := fun _ _ => rfl

lemma append (h : P.KeepsFlags lines) (h' : P.KeepsFlags more) : P.KeepsFlags (lines ++ more) := by
  intro sought s
  rw [runFrom_append, h', h]

lemma label (name : String) (h : P.KeepsFlags lines) : P.KeepsFlags (.label name :: lines) :=
  fun _ s => h _ s

lemma instruction {mnemonic : String} (hkeeps : P.Keeps mnemonic) (modifiers : List String)
    (gap : String) (operands : List Line.Operand) (h : P.KeepsFlags lines) :
    P.KeepsFlags (.instruction modifiers mnemonic gap operands :: lines) := by
  intro sought s
  cases sought with
  | some label => exact h _ s
  | none =>
      rw [runFrom]
      split
      · exact h _ s
      · rw [h, hkeeps]

/-- A jump over some lines leaves the flags as they are. -/
lemma jump {mnemonic : String} {operands : List Line.Operand} {c : Condition} {name : String}
    (hjump : jump? mnemonic (operands.map operandIn) = some (c, name)) (modifiers : List String)
    (gap : String) (h : P.KeepsFlags lines) :
    P.KeepsFlags (.instruction modifiers mnemonic gap operands :: lines) := by
  intro sought s
  cases sought with
  | some label => exact h _ s
  | none =>
      rw [runFrom, hjump]
      exact h _ s

/-- Lines between a saving and a restoring of the flags leave them as they are, if they leave the
stack as it is. -/
lemma loadFromGot {symbol register : String} (hregister : isStackRegister register = false) :
    P.KeepsFlags (Frame.wrap [.loadFromGot symbol register true] []) := by
  intro sought s
  cases sought with
  | some label => rfl
  | none =>
      have hleaq := P.top_step "leaq" (by decide)
      have haddq := P.top_step "addq" (by decide)
      have hmovq := P.top_step "movq" (by decide)
      refine (P.flags_popf _).trans ?_
      refine (hmovq _ _ _ hregister).trans ?_
      refine (haddq _ _ _ hregister).trans ?_
      refine (hleaq _ _ _ hregister).trans ?_
      exact P.top_pushf s

end KeepsFlags

end Processor

/-! ### Frames -/

variable {State : Type} {P : Processor State} {scope : Scope} {insn : Instruction}

/-- Whether the lines of a frame leave the flags as they are. -/
def Frame.KeepsFlags (P : Processor State) : Frame → Prop
  | .around before after => P.KeepsFlags before ∧ P.KeepsFlags after
  | .instead lines => P.KeepsFlags lines

/-- Lines inside frames leave the flags as they are if they do, and the frames do. -/
lemma Processor.keepsFlags_wrap {frames : List Frame} {body : List Line}
    (hframes : ∀ f ∈ frames, f.KeepsFlags P) (hbody : P.KeepsFlags body) :
    P.KeepsFlags (Frame.wrap frames body) := by
  induction frames with
  | nil => exact hbody
  | cons f frames ih =>
      obtain ⟨hf, hrest⟩ := List.forall_mem_cons.mp hframes
      cases f with
      | instead lines => exact hf
      | around before after => exact (hf.1.append (ih hrest)).append hf.2

namespace Frame

lemma keepsFlags_afterwards {mnemonic : String} (h : P.Keeps mnemonic)
    (operands : List Line.Operand) :
    (afterwards (.spaced mnemonic operands)).KeepsFlags P :=
  ⟨.nil, .instruction h _ _ _ .nil⟩

lemma keepsFlags_saveRegister (r : String) : (saveRegister r).KeepsFlags P :=
  ⟨.instruction (P.keeps_of_mem (by decide)) _ _ _
      (.instruction (P.keeps_of_mem (by decide)) _ _ _ .nil),
    .instruction (P.keeps_of_mem (by decide)) _ _ _
      (.instruction (P.keeps_of_mem (by decide)) _ _ _ .nil)⟩

lemma keepsFlags_moveTo (target : String) (avx : Bool) (source : String) :
    (moveTo target avx source).KeepsFlags P := by
  cases avx with
  | true => exact keepsFlags_afterwards (P.keeps_of_mem (by decide)) _
  | false => exact keepsFlags_afterwards (P.keeps_of_mem (by decide)) _

lemma keepsFlags_skipIf {mnemonic skip : String} (h : skipCondition mnemonic = some skip) :
    (skipIf skip).KeepsFlags P := by
  obtain ⟨c, -, hjump⟩ := ofJump?_skipCondition h
  have hskip : jump? ("j" ++ skip)
      ([Line.Operand.ofKind (.localLabel "999f")].map operandIn) = some (c.opposite, "999") := by
    simp only [List.map_cons, List.map_nil, Layout.operandIn_ofKind, jump?, hjump]
    rfl
  exact ⟨.jump hskip _ _ .nil, .label _ .nil⟩

end Frame

/-! ### Loads from the offset table -/

/-- Whether an instruction copies a word, perhaps under a condition. -/
def Copies (insn : Instruction) (source target : Operand) : Prop :=
  Family.of insn = .move source target ∨
    ∃ skip, Family.of insn = .conditionalMove skip source target

/-- What is known of the plan for a load: its frames leave the flags as they are, and the address
does not go to the stack register unless it is copied there. -/
structure LoadPlan.Keeps (P : Processor State) (insn : Instruction) (plan : LoadPlan) : Prop where
  frames : ∀ f ∈ plan.frames, f.KeepsFlags P
  target : holdsAddress plan.target = true → isStackRegister plan.target = false ∨
    ∃ a b, Copies insn a b ∧ b.register? = some plan.target

lemma isStackRegister_name {r : Register} (hr : r ≠ .rsp) : isStackRegister r.name = false := by
  cases r with
  | rsp => exact (hr rfl).elim
  | _ => decide +kernel

lemma isStackRegister_scratch {inUse : List String} {temp : String}
    (h : Frame.scratch inUse = .ok temp) : isStackRegister temp = false := by
  obtain ⟨r, rfl, hr, -⟩ := Frame.scratch_eq_ok h
  exact isStackRegister_name hr

/-- The condition of a conditional move is that of its mnemonic. -/
lemma skipCondition_of_family {skip : String} {a b : Operand}
    (h : Family.of insn = .conditionalMove skip a b) :
    skipCondition insn.mnemonic = some skip := by
  unfold Family.of at h
  split at h
  · unfold Family.ofOne at h
    split at h
    · cases h
    · split at h <;> cases h
  · unfold Family.ofTwo at h
    split at h
    · cases h
    split at h
    · cases h
    split at h
    · cases h
    split at h
    · cases h
    split at h
    · cases h
    split at h
    · next hskip =>
        cases h
        exact hskip
    · cases h
  · unfold Family.ofThree at h
    split at h <;> cases h
  · cases h

namespace LoadPlan.Keeps

variable {plan : LoadPlan}

/-- What is planned for an instruction that leaves the flags as they are leaves them as they
are. -/
lemma of_loadPlan {i : ℕ} (hkeeps : P.Keeps insn.mnemonic)
    (h : loadPlan insn.mnemonic i (Family.of insn) = .ok plan) : plan.Keeps P insn := by
  have hafter := Frame.keepsFlags_afterwards hkeeps
  -- a scratch register is saved and restored by moves, whatever stands between
  have hscratch {inUse : List String} {temp : String} {rest : Frame}
      (htemp : Frame.scratch inUse = .ok temp) (hrest : rest.KeepsFlags P) :
      (LoadPlan.scratch temp rest).Keeps P insn :=
    ⟨forall_scratch (Frame.keepsFlags_saveRegister temp) hrest,
      fun _ => .inl (isStackRegister_scratch htemp)⟩
  generalize hfamily : Family.of insn = family at h
  cases loadPlanned_of_loadPlan h with
  | push =>
      exact {
        frames := List.forall_mem_singleton.mpr
          ⟨.instruction (P.keeps_of_mem (by decide)) _ _ _ .nil,
            .instruction (P.keeps_of_mem (by decide)) _ _ _ .nil⟩
        target _ := .inl (isStackRegister_name (r := .rax) (by decide)) }
  | move hr => exact ⟨List.forall_mem_nil _, fun _ => .inr ⟨_, _, .inl hfamily, hr⟩⟩
  | conditionalMove hr =>
      have hskip := skipCondition_of_family hfamily
      exact ⟨List.forall_mem_singleton.mpr (Frame.keepsFlags_skipIf hskip),
        fun _ => .inr ⟨_, _, .inr ⟨_, hfamily⟩, hr⟩⟩
  | transform _ hvector =>
      exact ⟨List.forall_mem_singleton.mpr (hafter _),
        fun hholds => (Bool.eq_false_iff.mp hvector hholds).elim⟩
  | compare htemp => exact hscratch htemp (hafter _)
  | combine _ _ htemp => exact hscratch htemp (hafter _)
  | threeArg _ htemp => exact hscratch htemp (hafter _)
  | combineVector _ _ htemp =>
      exact hscratch htemp
        ⟨.nil, .instruction (P.keeps_of_mem (by decide)) _ _ _ (.instruction hkeeps _ _ _
          (.instruction (P.keeps_of_mem (by decide)) _ _ _ .nil))⟩

lemma viaGeneral {first : LoadPlan} (hfirst : first.Keeps P insn)
    (h : viaGeneral insn.mnemonic first = .ok plan) :
    plan.Keeps P insn ∧ holdsAddress plan.target = true := by
  have hframes := forall_frames_of_viaGeneral h hfirst.frames fun avx temp _ =>
    ⟨Frame.keepsFlags_saveRegister temp, Frame.keepsFlags_moveTo ..⟩
  rcases viaGeneral_eq_ok h with ⟨hholds, rfl⟩ | ⟨temp, htemp, rfl⟩
  · exact ⟨hfirst, hholds⟩
  · obtain ⟨r, hr, -⟩ := Frame.scratch_eq_ok htemp
    exact ⟨⟨hframes, fun _ => .inl (isStackRegister_scratch htemp)⟩, hr ▸ holdsAddress_name r⟩

end LoadPlan.Keeps

/-! ### Instructions -/

/-- Whether an instruction copies the address of a symbol outside the module from the offset table
into the stack register. -/
def LoadsIntoStack (scope : Scope) (insn : Instruction) : Prop :=
  ∃ a b m register, Copies insn a b ∧ a.kind = .memory m ∧ m.tag = some "GOTPCREL" ∧
    scope.isExternal (m.symbol.getD "") = true ∧ b.register? = some register ∧
      isStackRegister register = true

/-- The lines that are run for an instruction: itself if it is copied, or what is written for
it. -/
def executed (insn : Instruction) (e : Emission) : List Line :=
  e.chunks.filterMap fun
    | .copied _ => some (sourceLine insn)
    | .line line => some line
    | _ => none

/-- The computation of an address leaves the flags as they are, unless that is an address outside
the module and goes to the stack register. -/
lemma keepsFlags_addressOf {symbol register : String} {cleared : Bool}
    (h : scope.isExternal symbol = true → isStackRegister register = false) :
    (addressOf scope symbol register cleared).1.KeepsFlags P := by
  unfold addressOf
  cases hinside : scope.inside? symbol with
  | some name => exact .instruction (P.keeps_of_mem (by decide)) _ _ _ .nil
  | none =>
      have hload : P.KeepsFlags (Frame.wrap [.loadFromGot symbol register true] []) :=
        .loadFromGot (h (Scope.inside?_eq_none_iff.mp hinside))
      cases cleared with
      | true => exact hload
      | false =>
          exact .instruction (P.keeps_of_mem (by decide)) _ _ _
            (hload.append (.instruction (P.keeps_of_mem (by decide)) _ _ _ .nil))

/-- An instruction that copies a word has its source in front of its target. -/
lemma Copies.operands {a b : Operand} (h : Copies insn a b) :
    insn.operands = [a, b] ∧ (Family.of insn).loadsAnywhere = false :=
  operands_of_moves h

/-- The frames of a load leave the flags as they are. -/
lemma keepsFlags_gotLoad {i : ℕ} {o : Operand} {m : MemoryRef} {frames : List Frame}
    {helpers : List Helper} (h : gotLoad scope insn i m = .ok (frames, helpers))
    (ho : insn.operands[i]? = some o) (hkind : o.kind = .memory m)
    (htag : m.tag = some "GOTPCREL") (hkeeps : P.Keeps insn.mnemonic)
    (hstack : ¬ LoadsIntoStack scope insn) : ∀ f ∈ frames, f.KeepsFlags P := by
  obtain ⟨-, -, hplace, first, plan, hfirst, hplan, rfl, -⟩ := gotLoad_eq_ok h
  obtain ⟨hplan, hholds⟩ := (LoadPlan.Keeps.of_loadPlan hkeeps hfirst).viaGeneral hplan
  refine List.forall_mem_append.mpr ⟨hplan.frames, List.forall_mem_singleton.mpr ?_⟩
  refine keepsFlags_addressOf fun hexternal => ?_
  rcases hplan.target hholds with htarget | ⟨a, b, hcopies, htarget⟩
  · exact htarget
  · obtain ⟨hops, hfirst⟩ := hcopies.operands
    obtain rfl : i = 0 := hplace.resolve_left (Bool.eq_false_iff.mp hfirst)
    rw [hops] at ho
    obtain rfl : a = o := Option.some_inj.mp ho
    refine Bool.eq_false_iff.mpr fun hregister => hstack ?_
    exact ⟨a, b, m, plan.target, hcopies, hkind, htag, hexternal, htarget, hregister⟩

/-- The frames of an operand leave the flags as they are, and the mnemonic stays the same. -/
lemma OperandSealed.keepsFlags_frames {i : ℕ} {o : Operand} {change : OperandChange}
    (h : OperandSealed scope insn i o change) (ho : insn.operands[i]? = some o)
    (hkeeps : P.Keeps insn.mnemonic) (hdelta : .gotDelta ∉ change.helpers)
    (hstack : ¬ LoadsIntoStack scope insn) :
    (∀ f ∈ change.frames, f.KeepsFlags P) ∧ change.mnemonic = none := by
  have hnone : ∀ f ∈ ([] : List Frame), f.KeepsFlags P := List.forall_mem_nil _
  cases h with
  | load hkind htag hload =>
      exact ⟨keepsFlags_gotLoad hload ho hkind htag hkeeps hstack, rfl⟩
  | distance => exact (hdelta List.mem_cons_self).elim
  | address => exact (hdelta List.mem_cons_self).elim
  | offset =>
      refine ⟨List.forall_mem_singleton.mpr ?_, rfl⟩
      exact .instruction (P.keeps_of_mem (by decide)) _ _ _ .nil
  | reference => exact ⟨hnone, rfl⟩
  | linkage => exact ⟨hnone, rfl⟩
  | branch => exact ⟨hnone, rfl⟩
  | constant => exact ⟨hnone, rfl⟩
  | other => exact ⟨hnone, rfl⟩

/-- The lines that are run for an instruction that leaves the flags as they are leave them as they
are too, unless the distance to the offset table is added to something, or an address outside the
module is loaded into the stack register. -/
theorem flags_sealInstruction {s : Statement} {e : Emission} (hkeeps : P.Keeps insn.mnemonic)
    (h : sealInstruction scope s insn = .ok e) (hdelta : .gotDelta ∉ e.helpers)
    (hstack : ¬ LoadsIntoStack scope insn) (state : State) :
    P.flags (P.run state (executed insn e)) = P.flags state := by
  obtain ⟨changes, hsealed, ⟨-, rfl⟩ | ⟨-, rfl⟩⟩ := sealInstruction_eq_ok h
  · exact Processor.KeepsFlags.instruction hkeeps insn.modifiers "\t" _ .nil none state
  · have hchange {change : OperandChange} (hc : change ∈ changes) :
        (∀ f ∈ change.frames, f.KeepsFlags P) ∧ change.mnemonic = none := by
      obtain ⟨j, o, ho, hsealed, -⟩ := hsealed.exists_getElem? hc
      rw [Nat.zero_add] at hsealed
      exact hsealed.keepsFlags_frames ho hkeeps
        (fun hmem => hdelta (List.mem_flatMap.mpr ⟨change, hc, hmem⟩)) hstack
    have hmnemonic : changes.filterMap (·.mnemonic) = [] :=
      List.filterMap_eq_nil_iff.mpr fun change hc => (hchange hc).2
    have hlines : executed insn (.replace s (changedLines insn changes)
        (changes.flatMap (·.helpers))) = changedLines insn changes := by
      rw [executed, Emission.replace, List.filterMap_cons_none rfl, List.filterMap_map]
      exact List.filterMap_some
    rw [hlines, changedLines, hmnemonic]
    refine Processor.keepsFlags_wrap (fun f hf => ?_) ?_ none state
    · obtain ⟨change, hc, hf⟩ := List.mem_flatMap.mp hf
      exact (hchange hc).1 f hf
    · exact .instruction hkeeps _ _ _ .nil

/-! ### The machine as a processor -/

@[simp] lemma Machine.flags_save (s : Machine) (w : Word) (p : Place) :
    (s.save w p).flags = s.flags := by
  cases p <;> rfl

@[simp] lemma Machine.flags_push (s : Machine) (w : Word) : (s.push w).flags = s.flags := rfl

@[simp] lemma Machine.flags_pop (s : Machine) : s.pop.flags = s.flags := rfl

namespace Layout

variable {l : Layout} {s t : Machine} {mnemonic : String}

lemma flags_execOne? {a : Operand} (h : l.execOne? s mnemonic a = some t) : t.flags = s.flags := by
  unfold execOne? at h
  split at h
  · obtain ⟨w, -, rfl⟩ := Option.map_eq_some_iff.mp h
    rfl
  · split at h
    · obtain ⟨p, -, rfl⟩ := Option.map_eq_some_iff.mp h
      rw [Machine.flags_save, Machine.flags_pop]
    · cases h

lemma flags_execTwo? {a b : Operand}
    (harithmetic : ∀ x y target, l.execArithmetic? s mnemonic x y target = none)
    (h : l.execTwo? s mnemonic a b = some t) : t.flags = s.flags := by
  -- moves, addresses, exchanges and conditional moves only write values
  unfold execTwo? at h
  split at h
  · obtain ⟨w, -, h⟩ := Option.bind_eq_some_iff.mp h
    obtain ⟨p, -, h⟩ := Option.bind_eq_some_iff.mp h
    cases h
    exact Machine.flags_save ..
  split at h
  · split at h
    · obtain ⟨w, -, h⟩ := Option.bind_eq_some_iff.mp h
      obtain ⟨p, -, h⟩ := Option.bind_eq_some_iff.mp h
      cases h
      exact Machine.flags_save ..
    · cases h
  split at h
  · obtain ⟨p, -, h⟩ := Option.bind_eq_some_iff.mp h
    obtain ⟨q, -, h⟩ := Option.bind_eq_some_iff.mp h
    cases h
    rw [Machine.flags_save, Machine.flags_save]
  split at h
  · obtain ⟨w, -, h⟩ := Option.bind_eq_some_iff.mp h
    obtain ⟨p, -, h⟩ := Option.bind_eq_some_iff.mp h
    cases h
    split
    · exact Machine.flags_save ..
    · rfl
  · obtain ⟨x, -, h⟩ := Option.bind_eq_some_iff.mp h
    obtain ⟨y, -, h⟩ := Option.bind_eq_some_iff.mp h
    rw [harithmetic] at h
    cases h

lemma flags_execThree? {a b c : Operand} (h : l.execThree? s mnemonic a b c = some t) :
    t.flags = s.flags := by
  obtain ⟨f, -, h⟩ := Option.bind_eq_some_iff.mp h
  obtain ⟨x, -, h⟩ := Option.bind_eq_some_iff.mp h
  obtain ⟨y, -, h⟩ := Option.bind_eq_some_iff.mp h
  obtain ⟨p, -, h⟩ := Option.bind_eq_some_iff.mp h
  cases h
  exact Machine.flags_save ..

/-- An instruction leaves the flags as they are if it takes them from nowhere, and computes
nothing from two words. -/
lemma flags_exec? {operands : List Operand} (hpopf : mnemonic ≠ "popf")
    (harithmetic : ∀ x y target, l.execArithmetic? s mnemonic x y target = none)
    (h : l.exec? s mnemonic operands = some t) : t.flags = s.flags := by
  unfold exec? at h
  split at h
  · unfold execNone? at h
    split at h
    · cases h
      rfl
    · cases h
  · exact flags_execOne? h
  · exact flags_execTwo? harithmetic h
  · exact flags_execThree? h
  · cases h

/-- What an instruction does on the machine.  What the machine does not understand changes
nothing. -/
def step (l : Layout) (s : Machine) (mnemonic : String) (operands : List Operand) : Machine :=
  (l.exec? s mnemonic operands).getD s

lemma flags_step (hpopf : mnemonic ≠ "popf")
    (harithmetic : ∀ x y target, l.execArithmetic? s mnemonic x y target = none)
    (operands : List Operand) : (l.step s mnemonic operands).flags = s.flags := by
  unfold step
  cases h : l.exec? s mnemonic operands with
  | none => rfl
  | some t => exact flags_exec? hpopf harithmetic h

lemma top_push (s : Machine) (w : Word) : (s.push w).top = w := by
  rw [Machine.top, Machine.push, Machine.registers_set_self, Memory.word_store]

/-- What is put into a register leaves the stack as it is, unless it is that of the stack. -/
lemma top_of_place {register : String} (hregister : isStackRegister register = false) {p : Place}
    (hp : l.place? s (.ofKind (.register register)) = some p) (w flags : Word) :
    ({ s.save w p with flags } : Machine).top = s.top := by
  obtain ⟨r, hr, rfl⟩ : ∃ r, Register.ofName? register = some r ∧ Place.register r = p :=
    Option.map_eq_some_iff.mp hp
  have hne : r ≠ .rsp := by
    rintro rfl
    have hname : Register.rsp.name = register := by simpa using List.find?_some hr
    rw [← hname] at hregister
    exact absurd hregister (by decide +kernel)
  have hrsp : (s.set r w).registers .rsp = s.registers .rsp :=
    Machine.registers_set_of_ne s (Ne.symm hne) w
  exact congrArg s.memory.word hrsp

lemma top_step {source : Operand} {register : String} (hm : mnemonic ∈ ["leaq", "addq", "movq"])
    (hregister : isStackRegister register = false) :
    (l.step s mnemonic [source, .ofKind (.register register)]).top = s.top := by
  have htop {p : Place} (hp : l.place? s (.ofKind (.register register)) = some p) :=
    top_of_place hregister hp
  unfold step
  cases h : l.exec? s mnemonic [source, .ofKind (.register register)] with
  | none => rfl
  | some t =>
      simp only [List.mem_cons, List.not_mem_nil, or_false] at hm
      change l.execTwo? s mnemonic source _ = some t at h
      -- each of the three writes to the register only
      rcases hm with rfl | rfl | rfl
      · rw [execTwo?, if_neg (by decide), if_pos rfl] at h
        split at h
        · obtain ⟨w, -, h⟩ := Option.bind_eq_some_iff.mp h
          obtain ⟨p, hp, h⟩ := Option.bind_eq_some_iff.mp h
          cases h
          exact htop hp w _
        · cases h
      · obtain ⟨x, -, h⟩ := Option.bind_eq_some_iff.mp h
        obtain ⟨y, -, h⟩ := Option.bind_eq_some_iff.mp h
        obtain ⟨p, hp, rfl⟩ := Option.map_eq_some_iff.mp h
        exact htop hp _ _
      · obtain ⟨w, -, h⟩ := Option.bind_eq_some_iff.mp h
        obtain ⟨p, hp, h⟩ := Option.bind_eq_some_iff.mp h
        cases h
        exact htop hp w _

/-- The machine is a processor. -/
def processor (l : Layout) : Processor Machine where
  flags := Machine.flags
  top := Machine.top
  step s _ mnemonic operands := l.step s mnemonic operands
  flags_plain mnemonic hm s _ operands := by
    simp only [plainMnemonics, List.mem_cons, List.not_mem_nil, or_false] at hm
    rcases hm with rfl | rfl | rfl | rfl | rfl | rfl | rfl
    all_goals exact flags_step (by decide) (fun _ _ _ => rfl) operands
  top_pushf s := top_push s s.flags
  flags_popf _ := rfl
  top_step _ hm _ _ _ hregister := top_step hm hregister

end Layout

/-! ### Instructions that leave the flags, and instructions that do not -/

/-- Whether the instruction of a text is sealed to lines that pass a test. -/
def Seals (scope : Scope) (text : String) (p : Instruction → Emission → Bool) : Bool :=
  (Statement.parse .x86_64 text).toOption.any fun
    | [s] =>
      match s.kind with
      | .instruction insn => (sealInstruction scope s insn).toOption.any (p insn)
      | _ => false
    | _ => false

lemma exists_of_seals {text : String} {p : Instruction → Emission → Bool}
    (h : Seals scope text p = true) : ∃ s insn e, Statement.parse .x86_64 text = .ok [s] ∧
      s.kind = .instruction insn ∧ sealInstruction scope s insn = .ok e ∧ p insn e = true := by
  obtain ⟨l, hl, h⟩ := Outcome.exists_of_any h
  split at h
  · next s =>
      split at h
      · next insn hkind =>
          obtain ⟨e, he, hp⟩ := Outcome.exists_of_any h
          exact ⟨s, insn, e, hl, hkind, he, hp⟩
      · cases h
  · cases h

namespace Comparison

/-- The state before the comparison, with the carry flag set. -/
def carry : Machine := { start with flags := 1 }

end Comparison

/-- A conditional move of an address outside the module leaves the flags as they are. -/
theorem flags_sealInstruction_conditionalMove :
    ∃ s insn e, Statement.parse .x86_64 "\tcmovneq foo@GOTPCREL(%rip), %rbx\n" = .ok [s] ∧
      s.kind = .instruction insn ∧ sealInstruction Comparison.emptyScope s insn = .ok e ∧
        e.helpers = [.gotEntry "foo"] ∧
          Comparison.layout.processor.flags
            (Comparison.layout.processor.run Comparison.carry (executed insn e)) = 1 := by
  have hseals : Seals Comparison.emptyScope "\tcmovneq foo@GOTPCREL(%rip), %rbx\n"
      (fun insn e => insn.mnemonic = "cmovneq" ∧ e.helpers = [.gotEntry "foo"] ∧
        ∀ o ∈ insn.operands, o.register?.any isStackRegister = false) = true := by
    decide +kernel
  obtain ⟨s, insn, e, hs, hkind, he, hp⟩ := exists_of_seals hseals
  obtain ⟨hm, hhelpers, hregisters⟩ := of_decide_eq_true (p := _ ∧ _ ∧ _) hp
  have hkeeps : Comparison.layout.processor.Keeps insn.mnemonic := by
    rw [hm]
    exact fun _ _ => Layout.flags_step (by decide) fun _ _ _ => rfl
  have hdelta : .gotDelta ∉ e.helpers := by
    rw [hhelpers]
    decide
  -- no operand is the stack pointer
  have hstack : ¬ LoadsIntoStack Comparison.emptyScope insn := by
    rintro ⟨a, b, m, register, hcopies, -, -, -, hregister, hstack⟩
    have hb := hregisters b (by rw [hcopies.operands.1]; exact List.mem_cons_of_mem _ (.head _))
    rw [hregister, Option.any_some, hstack] at hb
    cases hb
  exact ⟨s, insn, e, hs, hkind, he, hhelpers,
    flags_sealInstruction hkeeps he hdelta hstack Comparison.carry⟩

/-- Whether the lines for the instruction of a text change the flags of a machine. -/
def LosesFlags (l : Layout) (text : String) : Prop :=
  ∃ s insn e state, Statement.parse .x86_64 text = .ok [s] ∧ s.kind = .instruction insn ∧
    l.processor.Keeps insn.mnemonic ∧
      sealInstruction Comparison.emptyScope s insn = .ok e ∧
        l.processor.flags (l.processor.run state (executed insn e)) ≠ l.processor.flags state

/-- The address of the offset table, and an address outside the module that is loaded into the
stack register. -/
theorem exists_flags_lost :
    LosesFlags Comparison.layout "\tleaq _GLOBAL_OFFSET_TABLE_(%rip), %rax\n" ∧
      LosesFlags Comparison.layout "\tmovq foo@GOTPCREL(%rip), %rsp\n" := by
  have hloses {text : String} {mnemonic : String}
      (hkeeps : Comparison.layout.processor.Keeps mnemonic)
      (h : Seals Comparison.emptyScope text (fun insn e => insn.mnemonic = mnemonic ∧
        (Comparison.layout.processor.run Comparison.carry (executed insn e)).flags ≠ 1) = true) :
      LosesFlags Comparison.layout text := by
    obtain ⟨s, insn, e, hs, hkind, he, hp⟩ := exists_of_seals h
    obtain ⟨rfl, hflags⟩ := of_decide_eq_true (p := _ ∧ _) hp
    exact ⟨s, insn, e, Comparison.carry, hs, hkind, hkeeps, he, hflags⟩
  have hleaq : Comparison.layout.processor.Keeps "leaq" := Processor.keeps_of_mem (by decide)
  have hmovq : Comparison.layout.processor.Keeps "movq" := Processor.keeps_of_mem (by decide)
  exact ⟨hloses hleaq (by decide +kernel), hloses hmovq (by decide +kernel)⟩

end Hermetic.X86

/-
Branches, and where control goes by them.

A branch goes to the address that its operand spells, which is that of a symbol and its offsets,
or, if the operand is a place in memory, to the word that is there.  In a sealed module it may go
to a redirector first, which goes on to a symbol outside the module.

* `Layout`: what the linker and the assembler settle, and what memory holds;
* `Layout.target?`: where a branch with an operand goes, and `Layout.Reaches`: where control goes
  from there;
* `Linked`: where aliases, local names, entries in the offset table and helpers lie;
* `sealInstruction_reaches`: by an instruction in the place of a branch, control comes to where the
  branch goes, if the offsets are ones that are kept;
* `exists_offset_lost`: it does not come there by one whose offset stands after a relocation tag.
-/
import Hermetic.Proofs.Helpers.Arm
import Hermetic.Proofs.Helpers.X86
import Hermetic.Proofs.Machine.Arm
import Hermetic.Proofs.Operand.Indexed
import Hermetic.Sealing.Statement
import Mathlib.Logic.Relation

namespace Hermetic.Branch

open X86 (operandIn)

/-! ### Addresses -/

/-- What the linker and the assembler settle, and what memory and registers hold: the address of
every symbol and of its entry in the offset table, the value of offsets, what the registers in
brackets add to an address, where segments start, and the line at every address with its size. -/
structure Layout where
  address : String → Word
  entry : String → Word
  value : String → Word
  registers : BaseIndex → Word
  segment : String → Word
  memory : Memory
  size : Line → ℕ
  code : Word → Option Line

/-- Whether an operand is an address, not a place in memory. -/
def isDirect (o : Operand) (m : MemoryRef) : Bool :=
  !o.indirect && m.segment.isNone && m.base.isNone

namespace Layout

variable (l : Layout)

/-- The address that a symbol with offsets and a relocation tag spells. -/
def spelled (m : MemoryRef) : Word :=
  (m.symbol.elim 0 fun name => if m.tag = some "GOTPCREL" then l.entry name else l.address name) +
    m.lead.elim 0 l.value + l.value m.offset + l.value m.tagOffset

/-- Where a branch with an operand goes. -/
def target? (o : Operand) : Option Word :=
  match o.kind with
  | .memory m =>
    some (if isDirect o m then l.spelled m
      else l.memory.word (l.spelled m + m.segment.elim 0 l.segment + m.base.elim 0 l.registers))
  | _ => none

/-! ### Control -/

/-- The address that control goes to from another, if a jump or the mark of a place that may be
branched to stands there. -/
def next (a : Word) : Option Word :=
  match l.code a with
  | some .landingPad => some (a.plus (l.size .landingPad))
  | some (.instruction [] mnemonic _ [target]) =>
    if mnemonic = "jmp" ∨ mnemonic = "b" then l.target? (operandIn target) else none
  | _ => none

/-- Control comes from an address to another. -/
def Reaches : Word → Word → Prop :=
  Relation.ReflTransGen fun a b => l.next a = some b

/-- The number of bytes that a line takes. -/
def room : Line → ℕ
  | .label _ => 0
  | .directive indented name gap arguments =>
    if name ∈ Arm.Layout.roomless then 0 else l.size (.directive indented name gap arguments)
  | line => l.size line

/-- A line stands at an address, unless it is a directive. -/
def Stands (a : Word) : Line → Prop
  | .label name => l.address name = a
  | .directive .. => True
  | line => l.code a = some line

/-- By a branch with an operand, control comes to where a branch with another operand goes. -/
def Arrives (p o : Operand) : Prop :=
  ∃ a b, l.target? p = some a ∧ l.target? o = some b ∧ l.Reaches a b

/-- Lines that are placed one after the other, from an address on. -/
def Holds : Word → List Line → Prop
  | _, [] => True
  | a, line :: lines => l.Stands a line ∧ Holds (a.plus (l.room line)) lines

variable {l}

lemma holds_append {a : Word} {lines more : List Line} :
    l.Holds a (lines ++ more) ↔
      l.Holds a lines ∧ l.Holds (a.plus (lines.map l.room).sum) more := by
  induction lines generalizing a with
  | nil => simp [Holds, Word.plus]
  | cons line lines ih =>
      have hplus (j k : ℕ) : (a.plus j).plus k = a.plus (j + k) := by
        simp [Word.plus, BitVec.ofNat_add, BitVec.add_assoc]
      simp only [List.cons_append, Holds, ih, List.map_cons, List.sum_cons, hplus, and_assoc]

/-- Lines among lines that are placed one after the other are placed so. -/
lemma Holds.of_infix {a : Word} {lines more : List Line} (h : l.Holds a more)
    (hpart : lines <:+: more) : ∃ b, l.Holds b lines := by
  obtain ⟨before, after, rfl⟩ := hpart
  exact ⟨_, (holds_append.mp (holds_append.mp h).1).2⟩

end Layout

/-! ### Names and helpers -/

/-- A symbol as it is linked: its alias and its name for the file stand for the same address, its
entry in the offset table holds this address, what is reached relative to the instruction pointer
is spelled by its address, no offset adds nothing, and the helpers of the module are placed. -/
structure Linked (arch : Arch) (l : Layout) (scope : Scope) (symbol : String)
    (helpers : Helpers) : Prop where
  localAlias : scope.defines symbol = true → l.address (Symbol.localAlias symbol) = l.address symbol
  renamed : Symbol.isDotLocal symbol = true →
    l.address (Symbol.renamed symbol scope.index) = l.address symbol
  entry : l.memory.word (l.entry symbol) = l.address symbol
  rip : ∀ b : BaseIndex, b.isRipRelative = true → l.registers b = 0
  blank : l.value "" = 0
  helpers : ∃ a, l.Holds a (Boundary.helperLines arch helpers)

section Linked

variable {arch : Arch} {l : Layout} {scope : Scope} {symbol : String} {helpers : Helpers}

/-- A bare symbol is its address. -/
lemma target?_symbol (hblank : l.value "" = 0) (name : String) :
    l.target? (operandIn (.symbol name)) = some (l.address name) := by
  simp [Layout.target?, Layout.spelled, isDirect, Line.Operand.symbol, Line.Operand.memory,
    MemoryRef.ofSymbol, Operand.ofKind, hblank]

/-- A redirector goes on to its symbol. -/
lemma Linked.reaches_redirector (h : Linked arch l scope symbol helpers)
    (hneeded : helpers.Holds (.redirector symbol)) :
    l.Reaches (l.address (Symbol.redirector symbol)) (l.address symbol) := by
  obtain ⟨a, ha⟩ := h.helpers
  obtain ⟨b, hb⟩ := ha.of_infix (Helpers.lines_infix hneeded)
  have hzero (c : Word) : c.plus 0 = c := BitVec.add_zero c
  cases arch with
  -- a single jump stands behind the label
  | x86_64 =>
      obtain ⟨-, hlabel, hjump, -⟩ := hb
      have hjump : l.code (l.address (Symbol.redirector symbol)) =
          some (.tabbed "jmp" [.symbol symbol]) := by
        rw [hlabel]
        exact (congrArg l.code (hzero _)).symm.trans hjump
      refine .single ?_
      rw [Layout.next, hjump]
      exact target?_symbol h.blank symbol
  -- a landing pad stands in front of the branch
  | aarch64 =>
      obtain ⟨-, -, -, hlabel, -, hpad, hjump, -⟩ := hb
      have hpad : l.code (l.address (Symbol.redirector symbol)) = some .landingPad := by
        rw [hlabel]
        refine (congrArg l.code ?_).symm.trans hpad
        exact (hzero _).trans (hzero _)
      have hjump : l.code ((l.address (Symbol.redirector symbol)).plus (l.size .landingPad)) =
          some (.spaced "b" [.symbol symbol]) := by
        rw [hlabel]
        refine (congrArg l.code (congrArg (Word.plus · (l.size .landingPad)) ?_)).symm.trans hjump
        exact (hzero _).trans (hzero _)
      refine .head (b := (l.address (Symbol.redirector symbol)).plus (l.size .landingPad)) ?_
        (.single ?_)
      · rw [Layout.next, hpad]
      · rw [Layout.next, hjump]
        exact target?_symbol h.blank symbol

/-- A branch inside the module goes to a name that stands for the address of its symbol. -/
lemma Linked.address_branchTarget (h : Linked arch l scope symbol helpers)
    (hinside : scope.isExternal symbol = false) :
    l.address (scope.branchTarget symbol).1 = l.address symbol := by
  have hname : scope.inside? symbol ≠ none := by
    rw [Ne, Scope.inside?_eq_none_iff, hinside]
    exact Bool.false_ne_true
  obtain ⟨name, hname⟩ := Option.ne_none_iff_exists'.mp hname
  rw [Scope.branchTarget, hname]
  unfold Scope.inside? at hname
  split at hname
  · next hdefined =>
      cases hname
      exact h.localAlias hdefined
  · split at hname
    · next hlocal =>
        cases hname
        exact h.renamed hlocal
    · split at hname <;> cases hname
      rfl

/-- Control comes from the name that a branch to a symbol goes to, to the symbol. -/
lemma Linked.reaches_branchTarget (h : Linked arch l scope symbol helpers)
    (hrequested : ∀ needed ∈ (scope.branchTarget symbol).2, helpers.Holds needed) :
    l.Reaches (l.address (scope.branchTarget symbol).1) (l.address symbol) := by
  cases hexternal : scope.isExternal symbol with
  | false =>
      rw [h.address_branchTarget hexternal]
      exact .refl
  | true =>
      have hname : scope.inside? symbol = none := Scope.inside?_eq_none_iff.mpr hexternal
      rw [Scope.branchTarget, hname] at hrequested ⊢
      exact h.reaches_redirector (hrequested _ (List.mem_singleton_self _))

end Linked

/-! ### Operands -/

/-- The reference that goes to a name in the place of a symbol, without a relocation tag. -/
def branchingTo (m : MemoryRef) (name : String) : MemoryRef :=
  { m with symbol := some name, tag := none, tagOffset := "" }

/-- The branches whose offsets are kept: nothing is added after a relocation tag, and nothing at all
to a symbol outside the module, which is branched to directly.  A branch by the offset table takes
no offsets, but plays no role for a segment. -/
def Kept (scope : Scope) (o : Operand) (m : MemoryRef) (symbol : String) : Prop :=
  if m.tag = some "GOTPCREL" then m.segment = none
  else m.tagOffset = "" ∧
    (scope.isExternal symbol = true → m.hasOffset = false ∧ isDirect o m = true)

section Operands

variable {arch : Arch} {l : Layout} {scope : Scope} {symbol : String} {helpers : Helpers}
variable {o : Operand} {m : MemoryRef}

/-- The address that is spelled without offsets. -/
lemma spelled_of_hasOffset (hblank : l.value "" = 0) (h : m.hasOffset = false) :
    l.spelled m = m.symbol.elim 0 fun name =>
      if m.tag = some "GOTPCREL" then l.entry name else l.address name := by
  simp only [MemoryRef.hasOffset, Bool.or_eq_false_iff, Bool.not_eq_false',
    Option.isSome_eq_false_iff, Option.isNone_iff_eq_none, String.isEmpty_iff] at h
  simp [Layout.spelled, h.1.1, h.1.2, h.2, hblank]

/-- A branch to the name that takes the place of a symbol comes to where the branch goes. -/
lemma Linked.reaches_branchingTo (h : Linked arch l scope symbol helpers)
    (hkind : o.kind = .memory m) (hsymbol : m.symbol = some symbol)
    (htag : m.tag ≠ some "GOTPCREL") (hkept : Kept scope o m symbol)
    (hrequested : ∀ needed ∈ (scope.branchTarget symbol).2, helpers.Holds needed) :
    l.Arrives (o.withKind (.memory (branchingTo m (scope.branchTarget symbol).1))) o := by
  rw [Kept, if_neg htag] at hkept
  obtain ⟨htagOffset, hexternal⟩ := hkept
  rw [Layout.Arrives, Layout.target?, Layout.target?, hkind]
  refine ⟨_, _, rfl, rfl, ?_⟩
  have hdirect : isDirect (o.withKind (.memory (branchingTo m (scope.branchTarget symbol).1)))
      (branchingTo m (scope.branchTarget symbol).1) = isDirect o m := rfl
  have hreaches := h.reaches_branchTarget hrequested
  rw [hdirect]
  by_cases hout : scope.isExternal symbol = true
  · obtain ⟨hoffset, hplain⟩ := hexternal hout
    have hnone : (branchingTo m (scope.branchTarget symbol).1).hasOffset = false := by
      simp only [MemoryRef.hasOffset, Bool.or_eq_false_iff] at hoffset ⊢
      exact ⟨hoffset.1, rfl⟩
    rw [if_pos hplain, if_pos hplain, spelled_of_hasOffset h.blank hoffset,
      spelled_of_hasOffset h.blank hnone, hsymbol]
    simpa [branchingTo, htag] using hreaches
  · have haddress := h.address_branchTarget (Bool.eq_false_iff.mpr hout)
    have hspelled : l.spelled (branchingTo m (scope.branchTarget symbol).1) = l.spelled m := by
      simp [Layout.spelled, branchingTo, hsymbol, htag, haddress, htagOffset]
    rw [hspelled]
    exact .refl

/-- A branch to the name that takes the place of an entry in the offset table comes to where the
branch goes. -/
lemma Linked.reaches_entry (h : Linked arch l scope symbol helpers)
    (hkind : o.kind = .memory m) (hsymbol : m.symbol = some symbol)
    (htag : m.tag = some "GOTPCREL") (hindirect : o.indirect = true)
    (hoffset : m.hasOffset = false) (hrip : m.isRipRelative = true)
    (hkept : Kept scope o m symbol)
    (hrequested : ∀ needed ∈ (scope.branchTarget symbol).2, helpers.Holds needed) :
    l.Arrives (operandIn (.symbol (scope.branchTarget symbol).1)) o := by
  rw [Kept, if_pos htag] at hkept
  have hplace : isDirect o m = false := by
    rw [isDirect, hindirect]
    rfl
  have hentry : l.spelled m = l.entry symbol := by
    rw [spelled_of_hasOffset h.blank hoffset, hsymbol, htag]
    rfl
  have hbase : m.base.elim 0 l.registers = 0 := by
    rw [MemoryRef.isRipRelative] at hrip
    cases hb : m.base with
    | none => rfl
    | some b =>
        rw [hb] at hrip
        exact h.rip b hrip
  have haddress : l.spelled m + m.segment.elim 0 l.segment + m.base.elim 0 l.registers =
      l.entry symbol := by
    rw [hbase, hkept, hentry]
    exact (BitVec.add_zero _).trans (BitVec.add_zero _)
  refine ⟨_, _, target?_symbol h.blank _, ?_, h.reaches_branchTarget hrequested⟩
  rw [Layout.target?, hkind, ← h.entry, ← haddress]
  simp only [hplace, Bool.false_eq_true, if_false]

end Operands

/-! ### Instructions -/

/-- The instruction that is written has the words and the mnemonic of another, and some operands. -/
def IsWritten (s : Statement) (insn : Instruction) (e : Emission)
    (written : List Line.Operand) : Prop :=
  e = .copy s ∧ written = insn.operands.map .copied ∨
    e.lines = [.instruction insn.modifiers insn.mnemonic "\t" written]

/-- The branches of an architecture that are rewritten: on x86-64 jumps and calls by a linkage or
offset table, on AArch64 branches to a symbol. -/
def IsBranch (arch : Arch) (insn : Instruction) (m : MemoryRef) : Prop :=
  match arch with
  | .x86_64 => (X86.Family.of insn).isJump = true ∧ (m.tag = some "PLT" ∨ m.tag = some "GOTPCREL")
  | .aarch64 => Arm.isBranch insn.mnemonic.toLower = true ∧ m.tag = none

section Instructions

variable {l : Layout} {scope : Scope} {symbol : String} {helpers : Helpers}
variable {insn : Instruction} {o : Operand} {m : MemoryRef} {s : Statement} {e : Emission} {i : ℕ}

/-- The operand of a branch of x86-64, as it is sealed. -/
lemma arrives_sealOperand {change : X86.OperandChange}
    (hlinked : Linked .x86_64 l scope symbol helpers) (hbranch : IsBranch .x86_64 insn m)
    (hkind : o.kind = .memory m) (hsymbol : m.symbol = some symbol)
    (hkept : Kept scope o m symbol) (h : X86.sealOperand scope insn i o = .ok change) :
    change.frames = [] ∧ change.mnemonic = none ∧ change.changed = true ∧ change.last = false ∧
      ((∀ needed ∈ change.helpers, helpers.Holds needed) →
        l.Arrives (operandIn change.operand) o) := by
  obtain ⟨hjump, htag⟩ := hbranch
  rw [X86.sealOperand, hkind] at h
  dsimp only at h
  -- a branch through the linkage table, or one through the entry of its target
  rcases htag with htag | htag
  · rw [X86.sealMemory, htag] at h
    simp only [hjump, if_true, hsymbol, Option.map_some] at h
    cases h
    have hlinkage : m.tag ≠ some "GOTPCREL" := by
      rw [htag]
      decide
    exact ⟨rfl, rfl, rfl, rfl, hlinked.reaches_branchingTo hkind hsymbol hlinkage hkept⟩
  · rw [X86.sealMemory, htag] at h
    simp only [hjump, if_true, hsymbol, Option.getD_some] at h
    rw [if_neg (by decide)] at h
    split at h
    · cases h
    · next hform =>
        simp only [Bool.or_eq_true, not_or, Bool.not_eq_true', Bool.not_eq_true,
          Bool.not_eq_false] at hform
        obtain ⟨⟨hindirect, hoffset⟩, hrip⟩ := hform
        cases h
        exact ⟨rfl, rfl, rfl, rfl,
          hlinked.reaches_entry hkind hsymbol htag hindirect hoffset hrip hkept⟩

/-- A branch of x86-64, and the instruction in its place. -/
lemma arrives_x86 (hlinked : Linked .x86_64 l scope symbol helpers)
    (hbranch : IsBranch .x86_64 insn m) (ho : insn.operands[i]? = some o)
    (hkind : o.kind = .memory m) (hsymbol : m.symbol = some symbol)
    (hkept : Kept scope o m symbol) (h : X86.sealInstruction scope s insn = .ok e)
    (hrequested : ∀ needed ∈ e.helpers, helpers.Holds needed) :
    ∃ written w, IsWritten s insn e written ∧ written[i]? = some w ∧
      l.Arrives (operandIn w) o := by
  obtain ⟨hi, -⟩ := List.getElem?_eq_some_iff.mp ho
  -- a branch has one operand, so that its only change is that of the branch
  have hlength := X86.length_operands_of_isJump hbranch.1
  obtain ⟨a, hops⟩ := List.length_eq_one_iff.mp (show insn.operands.length = 1 by omega)
  obtain rfl : i = 0 := by omega
  obtain rfl : a = o := by
    rw [hops] at ho
    exact Option.some_inj.mp ho
  obtain ⟨changes, hchanges, h⟩ := Outcome.bind_eq_ok_iff.mp h
  rw [hops, X86.sealOperands] at hchanges
  obtain ⟨change, hchange, hchanges⟩ := Outcome.bind_eq_ok_iff.mp hchanges
  obtain ⟨hframes, hmnemonic, hchanged, hlast, harrives⟩ :=
    arrives_sealOperand hlinked hbranch hkind hsymbol hkept hchange
  rw [hlast, if_neg Bool.false_ne_true] at hchanges
  cases hchanges
  rw [List.any_cons, hchanged, Bool.true_or, if_pos rfl] at h
  cases h
  refine ⟨[change.operand], change.operand, .inr ?_, rfl, harrives fun needed hneeded =>
    hrequested needed (List.mem_flatMap.mpr ⟨change, List.mem_singleton_self _, hneeded⟩)⟩
  simp [X86.changedLines, hframes, hmnemonic]

/-- An operand of an instruction of AArch64 that is not replaced as a whole, as it is written. -/
lemma exists_written {written : List Line.Operand} {os : List Operand} {changed : Bool}
    {asked : List Helper} {lines : Option (List Line)}
    (h : Arm.OperandsSealed scope insn os written changed asked lines) (hlines : lines = none)
    (ho : os[i]? = some o) :
    ∃ w change more, written[i]? = some w ∧ Arm.OperandSealed scope insn o (.keep w change more) ∧
      more ⊆ asked := by
  induction h generalizing i with
  | nil => cases ho
  | whole => cases hlines
  | cons hsealed _ ih =>
      cases i with
      | zero =>
          cases ho
          exact ⟨_, _, _, rfl, hsealed, List.subset_append_left _ _⟩
      | succ i =>
          obtain ⟨w, change, more, hw, hsealed, hmore⟩ := ih hlines ho
          exact ⟨w, change, more, hw, hsealed, List.subset_append_of_subset_right _ hmore⟩

/-- A branch of AArch64, and the instruction in its place. -/
lemma arrives_arm (hlinked : Linked .aarch64 l scope symbol helpers)
    (hbranch : IsBranch .aarch64 insn m) (ho : insn.operands[i]? = some o)
    (hkind : o.kind = .memory m) (hsymbol : m.symbol = some symbol)
    (hkept : Kept scope o m symbol) (h : Arm.sealInstruction scope s insn = .ok e)
    (hrequested : ∀ needed ∈ e.helpers, helpers.Holds needed) :
    ∃ written w, IsWritten s insn e written ∧ written[i]? = some w ∧
      l.Arrives (operandIn w) o := by
  obtain ⟨hmnemonic, htag⟩ := hbranch
  have hcopied (he : e = .copy s) : ∃ written w, IsWritten s insn e written ∧
      written[i]? = some w ∧ l.Arrives (operandIn w) o := by
    refine ⟨_, .copied o, .inl ⟨he, rfl⟩, by rw [List.getElem?_map, ho]; rfl, ?_⟩
    rw [operandIn, Layout.Arrives, Layout.target?, hkind]
    exact ⟨_, _, rfl, rfl, .refl⟩
  -- a branch is no page address, and fills nothing, so that it is copied or replaced
  rcases Arm.sealInstruction_eq_ok h with ⟨-, he⟩ | ⟨hpage, -⟩ |
    ⟨-, written, changed, asked, lines, hsealed,
      ⟨-, -, he⟩ | ⟨hlines, -, rfl⟩ | ⟨instead, hlines, -⟩⟩
  · exact hcopied he
  · rw [hpage] at hmnemonic
    exact absurd hmnemonic (by decide)
  · exact hcopied he
  · obtain ⟨w, change, more, hw, hoperand, hmore⟩ := exists_written hsealed hlines ho
    refine ⟨written, w, .inr (Emission.lines_replace ..), hw, ?_⟩
    generalize hc : Arm.OperandChange.keep w change more = c at hoperand
    cases hoperand with
    | @memory m' hmemory =>
        obtain rfl : m = m' := by
          rw [hkind] at hmemory
          exact Operand.Kind.memory.inj hmemory
        have hlinkage : m.tag ≠ some "GOTPCREL" := by
          rw [htag]
          exact (Option.some_ne_none _).symm
        -- without a tag or an offset, only the target of the branch is exchanged
        have hbare : { m with symbol := some (scope.branchTarget symbol).1 } =
            branchingTo m (scope.branchTarget symbol).1 := by
          have htagOffset := hkept
          rw [Kept, if_neg hlinkage] at htagOffset
          rw [branchingTo, ← htag, ← htagOffset.1]
        rw [Arm.sealMemory, hsymbol] at hc
        simp only [hmnemonic, if_true, Option.map_some, Option.getD_some] at hc
        cases hc
        rw [operandIn, hbare]
        exact hlinked.reaches_branchingTo hkind hsymbol hlinkage hkept fun needed hneeded =>
          hrequested needed (hmore hneeded)
    | constant hother | base hother | zero hother =>
        rw [hkind] at hother
        cases hother
    | copied hother => exact absurd hkind (hother m)
    | whole => cases hc
  · rw [hsealed.isBranch_eq_false hlines] at hmnemonic
    cases hmnemonic

/-- By the instruction that is written for a branch, control comes to where the branch goes, for
either architecture: to the address of its symbol and all its offsets, if these are kept. -/
theorem sealInstruction_reaches {arch : Arch} (hlinked : Linked arch l scope symbol helpers)
    (hbranch : IsBranch arch insn m) (ho : insn.operands[i]? = some o) (hkind : o.kind = .memory m)
    (hsymbol : m.symbol = some symbol) (hkept : Kept scope o m symbol)
    (h : Statement.sealInstruction arch scope s insn = .ok e)
    (hrequested : ∀ needed ∈ e.helpers, helpers.Holds needed) :
    ∃ written w, IsWritten s insn e written ∧ written[i]? = some w ∧
      l.Arrives (operandIn w) o := by
  cases arch with
  | x86_64 => exact arrives_x86 hlinked hbranch ho hkind hsymbol hkept h hrequested
  | aarch64 => exact arrives_arm hlinked hbranch ho hkind hsymbol hkept h hrequested

end Instructions

/-! ### Two branches by a linkage table -/

namespace Linkage

/-- A module that defines one symbol. -/
def scope : Scope where
  symbols := ⟨NameSet.empty.insert "foo"⟩
  marker := Symbol.defaultMarker
  index := 0

/-- Where the symbol of the module with its alias, a symbol outside and its redirector lie. -/
def layout : Layout where
  address name :=
    if name = "ext" then 0x4000 else if name = Symbol.redirector "ext" then 0x2000 else 0x1000
  entry name := if name = "ext" then 0x6000 else 0x7000
  value text := (X86.displacement? text.toList).getD 0
  registers _ := 0
  segment _ := 0
  memory := (Memory.store (fun _ => 0) 0x7000 0x1000).store 0x6000 0x4000
  size _ := 5
  code a := if a = 0x2000 then some (.tabbed "jmp" [.symbol "ext"]) else none

/-- The helpers that are asked for. -/
def helpers : Helpers :=
  Helpers.request {} (.redirector "ext")

/-- The reference to a symbol by the linkage table, with an offset after the tag. -/
def reference (symbol offset : String) : MemoryRef :=
  { symbol := some symbol, tag := some "PLT", tagOffset := offset }

/-- The jump by a reference. -/
def instruction (symbol offset : String) : Instruction where
  mnemonic := "jmp"
  operands := [.ofKind (.memory (reference symbol offset))]

/-- The operand that is written for it. -/
def written (symbol offset : String) : Line.Operand :=
  .built ((Operand.ofKind (.memory (reference symbol offset))).withKind
    (.memory (branchingTo (reference symbol offset) (scope.branchTarget symbol).1)))

/-- What is written for it. -/
def emission (symbol offset : String) : Emission :=
  .replace ⟨.blank, "", {}⟩ [.tabbed "jmp" [written symbol offset]] (scope.branchTarget symbol).2

lemma linked {symbol : String} (h : symbol ∈ ["foo", "ext"]) :
    Linked .x86_64 layout scope symbol helpers where
  localAlias := by revert symbol; decide +kernel
  renamed := by revert symbol; decide +kernel
  entry := by revert symbol; decide +kernel
  rip _ _ := rfl
  blank := by decide
  helpers := ⟨0x2000, trivial, rfl, rfl, trivial⟩

end Linkage

/-- A jump to a symbol outside the module, by its redirector. -/
theorem sealInstruction_reaches_outside :
    ∃ written w, IsWritten ⟨.blank, "", {}⟩ (Linkage.instruction "ext" "")
        (Linkage.emission "ext" "") written ∧ written[0]? = some w ∧
      Linkage.layout.Arrives (operandIn w) (.ofKind (.memory (Linkage.reference "ext" ""))) :=
  have hsealed : Statement.sealInstruction .x86_64 Linkage.scope ⟨.blank, "", {}⟩
      (Linkage.instruction "ext" "") = .ok (Linkage.emission "ext" "") := by
    decide +kernel
  have hkept : Kept Linkage.scope (.ofKind (.memory (Linkage.reference "ext" "")))
      (Linkage.reference "ext" "") "ext" := by
    rw [Kept]
    decide +kernel
  have hrequested : ∀ needed ∈ (Linkage.emission "ext" "").helpers,
      Linkage.helpers.Holds needed := by
    intro needed hneeded
    obtain rfl := List.mem_singleton.mp hneeded
    exact Helpers.mem_redirectors_requestAll.mpr (.inr (List.mem_singleton_self _))
  sealInstruction_reaches (Linkage.linked (by decide)) ⟨by decide, .inl rfl⟩ rfl rfl rfl hkept
    hsealed hrequested

/-- A jump to a symbol of the module with an offset after the tag is accepted, but goes to the
symbol itself. -/
theorem exists_offset_lost :
    ∃ l scope helpers insn o m e,
      X86.operand "foo@PLT+4".toList = .ok o ∧ insn = { mnemonic := "jmp", operands := [o] } ∧
      o.kind = .memory m ∧ Linked .x86_64 l scope "foo" helpers ∧ IsBranch .x86_64 insn m ∧
      Statement.sealInstruction .x86_64 scope ⟨.blank, "", {}⟩ insn = .ok e ∧
      (∀ needed ∈ e.helpers, helpers.Holds needed) ∧
      ¬ ∃ written w, IsWritten ⟨.blank, "", {}⟩ insn e written ∧ written[0]? = some w ∧
        l.Arrives (operandIn w) o := by
  refine ⟨Linkage.layout, Linkage.scope, Linkage.helpers, Linkage.instruction "foo" "+4",
    .ofKind (.memory (Linkage.reference "foo" "+4")), Linkage.reference "foo" "+4",
    Linkage.emission "foo" "+4", by decide +kernel, rfl, rfl, Linkage.linked (by decide),
    ⟨by decide, .inl rfl⟩, by decide +kernel, List.forall_mem_nil _, ?_⟩
  rintro ⟨written, w, ⟨he, -⟩ | he, hw, a, b, ha, hb, hreaches⟩
  · exact absurd he (by decide +kernel)
  · rw [Linkage.emission, Emission.lines_replace] at he
    cases he
    cases hw
    obtain rfl : a = 0x1000 := (Option.some_inj.mp ha).symm
    obtain rfl : b = 0x1004 := (Option.some_inj.mp hb).symm
    -- nothing stands at the address of the symbol that control would go on by
    rcases hreaches.cases_head with hsame | ⟨c, hnext, -⟩
    · exact absurd hsame (by decide)
    · exact absurd hnext (by simp [Layout.next, Linkage.layout])

end Hermetic.Branch

/-
Pairs of instructions that form the address of a symbol of the module, for AArch64, on a machine.

The first instruction of a pair forms the address of a page, the second adds the rest or reads the
address from the offset table.  The first is written as one that forms the whole address, and the
second as what is then left to do.

* `Layout.place`, `Layout.address?`: the address that a symbol with an offset, or an operand in
  square brackets, stands for;
* `Layout.perform`: some lines one after the other, with `Layout.perform_cons`;
* `Placed`: the name that a symbol of the module is reached by lies where the symbol lies;
* `sealInstruction_formsPage`, `sealInstruction_addsRest`, `sealInstruction_accesses`,
  `sealInstruction_loadsEntry`: what is written for the instructions of a pair;
* `sealInstruction_pairs`: what is written for a pair does what the pair does.
-/
import Hermetic.Proofs.Machine.PageLoad

namespace Hermetic.Arm

open X86 (displacement? operandIn)

/-! ### Names of registers -/

/-- The names that call a register by its number. -/
def numbered (n : Fin 31) : List String :=
  ["x" ++ toString n.val, "X" ++ toString n.val]

lemma ofName?_of_numbered {n : Fin 31} {name : String} (h : name ∈ numbered n) :
    Register.ofName? name = some (.x n) := by
  have hall : ∀ n : Fin 31, ∀ name ∈ numbered n, Register.ofName? name = some (.x n) := by
    decide +kernel
  exact hall n name h

lemma xRegister_of_numbered {n : Fin 31} {name : String} (h : name ∈ numbered n)
    (role : RegisterRole) {o : Operand} (ho : o.kind = .register name) :
    xRegister role o = .ok name := by
  have hall : ∀ n : Fin 31, ∀ name ∈ numbered n,
      Text.startsWith "x" name || Text.startsWith "X" name := by
    decide +kernel
  rw [xRegister, Operand.register?, ho, Option.filter_some, if_pos (hall n name h)]

/-! ### Instructions that form addresses -/

namespace Layout

variable (l : Layout) (value : String → Word)

/-- The address of a symbol, as many bytes on as an offset says. -/
def place (symbol offset : String) : Word :=
  l.address symbol + value offset

/-- The address that a bare symbol stands for. -/
def symbol? (m : MemoryRef) : Option Word :=
  if m = { symbol := m.symbol, offset := m.offset } then m.symbol.map (l.place value · m.offset)
  else none

/-- The address that an operand in square brackets stands for. -/
def address? (s : Machine) : Operand.Kind → Option Word
  | .indexed ⟨base, rest, false⟩ =>
    (Register.ofName? base).bind fun r =>
      match rest with
      | none => some (s.get r)
      | some (.relocation ⟨_, "lo12", symbol, offset⟩) =>
        some (s.get r + low (l.place value symbol offset))
      | some (.relocation ⟨_, "got_lo12", symbol, ""⟩) => some (s.get r + low (l.entry symbol))
      | _ => none
  | _ => none

/-- The word that an instruction makes of its operands after the target. -/
def result? (s : Machine) (mnemonic : String) : List Operand.Kind → Option Word
  | [.memory m] =>
    if mnemonic = "adr" then l.symbol? value m
    else if mnemonic = "adrp" then (l.symbol? value m).map page
    else none
  | [.relocation ⟨_, "got", symbol, ""⟩] =>
    if mnemonic = "adrp" then some (page (l.entry symbol)) else none
  | [.indexed x] =>
    if mnemonic = "ldr" then (l.address? value s (.indexed x)).map s.memory.word else none
  | [.register name] =>
    if mnemonic = "mov" then (Register.ofName? name).map s.get else none
  | [.register name, .relocation ⟨_, "lo12", symbol, offset⟩] =>
    if mnemonic = "add" then
      (Register.ofName? name).map fun r => s.get r + low (l.place value symbol offset)
    else none
  | [.register name, .immediate _ number] =>
    if mnemonic = "add" then
      (Register.ofName? name).bind fun r =>
        (displacement? number.display.toList).map fun d => s.get r + d
    else none
  | _ => none

/-- One instruction, which brings a word to its target. -/
def bring? (s : Machine) (mnemonic : String) : List Operand.Kind → Option Machine
  | .register name :: sources =>
    (Register.ofName? name).bind fun r =>
      (l.result? value s mnemonic sources).map fun w => (s.set r w).next
  | _ => none

/-- The kind of an operand that stands in a line. -/
def kindIn (o : Line.Operand) : Operand.Kind :=
  (operandIn o).kind

/-- One line, in letters of either case. -/
def performLine? (s : Machine) : Line → Option Machine
  | .instruction [] mnemonic _ operands =>
    l.bring? value s mnemonic.toLower (operands.map kindIn)
  | _ => none

/-- Some lines one after the other. -/
def perform (s : Machine) (lines : List Line) : Option Machine :=
  lines.foldlM (l.performLine? value) s

variable {l : Layout} {value : String → Word} {s t : Machine}

@[simp] lemma perform_nil : l.perform value s [] = some s := rfl

lemma perform_cons {line : Line} (h : l.performLine? value s line = some t) (lines : List Line) :
    l.perform value s (line :: lines) = l.perform value t lines := by
  rw [perform, List.foldlM_cons, h]
  rfl

@[simp] lemma symbol?_bare (name offset : String) :
    l.symbol? value { symbol := some name, offset } = some (l.place value name offset) :=
  if_pos rfl

end Layout

namespace Machine

/-- The state in which a general register holds a word, before the next instruction. -/
def brought (s : Machine) (n : Fin 31) (w : Word) : Machine :=
  (s.set (.x n) w).next

variable (s : Machine) (n : Fin 31) (w : Word)

@[simp] lemma registers_brought :
    (s.brought n w).registers = Function.update s.registers n w := rfl

@[simp] lemma pc_brought : (s.brought n w).pc = s.pc.plus 4 := rfl

@[simp] lemma get_brought : (s.brought n w).get (.x n) = w :=
  Function.update_self ..

/-- The state some lines after a state, with an address in one register and then in another. -/
def formed (s : Machine) (k : ℕ) (a d : Fin 31) (p : Word) : Machine :=
  { s with
    pc := s.pc.plus (4 * k)
    registers := Function.update (Function.update s.registers a p) d p }

/-- An address that is formed in one register and brought to another. -/
lemma brought_brought (a d : Fin 31) (p : Word) :
    (s.brought a p).brought d p = s.formed 2 a d p := by
  simp only [brought, formed, set, next, Word.plus_plus]

/-- An address that is formed in a register and left there. -/
lemma brought_eq_formed (a : Fin 31) (p : Word) : s.brought a p = s.formed 1 a a p := by
  simp only [brought, formed, set, next, Function.update_idem, Nat.mul_one]

end Machine

/-! ### Instructions of the source -/

/-- The line that an instruction is. -/
def lineOf (insn : Instruction) : Line :=
  .instruction insn.modifiers insn.mnemonic "\t" (insn.operands.map .copied)

/-- An instruction without modifiers, its mnemonic in lower case and the kinds of its operands. -/
structure HasForm (insn : Instruction) (mnemonic : String) (kinds : List Operand.Kind) :
    Prop where
  modifiers : insn.modifiers = []
  mnemonic : insn.mnemonic.toLower = mnemonic
  kinds : insn.operands.map Operand.kind = kinds

/-- An instruction forms the address of the page of a symbol, some bytes on, in the register
`a`. -/
def FormsSymbolPage (insn : Instruction) (a : Fin 31) (symbol offset : String) : Prop :=
  ∃ target ∈ numbered a,
    HasForm insn "adrp" [.register target, .memory { symbol := some symbol, offset }]

/-- An instruction adds the rest of an address to the register `a`, into the register `d`. -/
def AddsRest (insn : Instruction) (d a : Fin 31) (symbol offset : String) : Prop :=
  ∃ target ∈ numbered d, ∃ source ∈ numbered a, ∃ hash, HasForm insn "add"
    [.register target, .register source, .relocation ⟨hash, "lo12", symbol, offset⟩]

/-- Operand `i` of a load, a store or a prefetch adds the rest of an address to the register `a`,
and no other operand is of this kind. -/
structure Accesses (insn : Instruction) (i : ℕ) (a : Fin 31) (symbol offset : String) : Prop where
  modifiers : insn.modifiers = []
  mnemonic : insn.mnemonic.toLower ∉ "adrp" :: symbolFree
  operand : ∃ base hash, Register.ofName? base = some (.x a) ∧
    insn.operands[i]?.map Operand.kind =
      some (.indexed { base, rest := some (.relocation ⟨hash, "lo12", symbol, offset⟩) })
  others : ∀ j o, j ≠ i → insn.operands[j]? = some o →
    (∀ x, o.kind ≠ .indexed x) ∧ ∀ r, o.kind ≠ .relocation r

/-- An instruction forms the address of the page of a symbol's entry in the offset table in the
register `a`. -/
def FormsEntryPage (insn : Instruction) (a : Fin 31) (symbol : String) : Prop :=
  ∃ target ∈ numbered a, ∃ hash,
    HasForm insn "adrp" [.register target, .relocation ⟨hash, "got", symbol, ""⟩]

/-- An instruction loads a symbol's entry in the offset table, whose page the register `a` holds,
into the register `d`. -/
def LoadsEntry (insn : Instruction) (d a : Fin 31) (symbol : String) : Prop :=
  ∃ target base hash, Register.ofName? target = some (.x d) ∧
    Register.ofName? base = some (.x a) ∧ HasForm insn "ldr" [.register target,
      .indexed { base, rest := some (.relocation ⟨hash, "got_lo12", symbol, ""⟩) }]

section Forms

variable {l : Layout} {value : String → Word} {s : Machine} {insn : Instruction}
variable {a d : Fin 31} {symbol offset : String}

lemma kindIn_copied : Layout.kindIn ∘ Line.Operand.copied = Operand.kind := rfl

lemma HasForm.performLine? {mnemonic : String} {kinds : List Operand.Kind}
    (h : HasForm insn mnemonic kinds) :
    l.performLine? value s (lineOf insn) = l.bring? value s mnemonic kinds := by
  rw [lineOf, h.modifiers, Layout.performLine?, List.map_map, kindIn_copied, h.mnemonic, h.kinds]

/-- An instruction that brings a word to a general register. -/
lemma bring?_eq {mnemonic target : String} {sources : List Operand.Kind} {w : Word}
    (ht : Register.ofName? target = some (.x d))
    (hw : l.result? value s mnemonic sources = some w) :
    l.bring? value s mnemonic (.register target :: sources) = some (s.brought d w) := by
  rw [Layout.bring?, ht, Option.bind_some, hw]
  rfl

lemma FormsSymbolPage.performLine? (h : FormsSymbolPage insn a symbol offset) :
    l.performLine? value s (lineOf insn) =
      some (s.brought a (page (l.place value symbol offset))) := by
  obtain ⟨target, ht, hform⟩ := h
  rw [hform.performLine?]
  refine bring?_eq (ofName?_of_numbered ht) ?_
  simp [Layout.result?]

lemma AddsRest.performLine? (h : AddsRest insn d a symbol offset) :
    l.performLine? value s (lineOf insn) =
      some (s.brought d (s.registers a + low (l.place value symbol offset))) := by
  obtain ⟨target, ht, source, hs, hash, hform⟩ := h
  rw [hform.performLine?]
  refine bring?_eq (ofName?_of_numbered ht) ?_
  simp [Layout.result?, ofName?_of_numbered hs, Machine.get]

lemma FormsEntryPage.performLine? (h : FormsEntryPage insn a symbol) :
    l.performLine? value s (lineOf insn) = some (s.brought a (page (l.entry symbol))) := by
  obtain ⟨target, ht, hash, hform⟩ := h
  rw [hform.performLine?]
  exact bring?_eq (ofName?_of_numbered ht) rfl

lemma LoadsEntry.performLine? (h : LoadsEntry insn d a symbol) :
    l.performLine? value s (lineOf insn) =
      some (s.brought d (s.memory.word (s.registers a + low (l.entry symbol)))) := by
  obtain ⟨target, base, hash, ht, hb, hform⟩ := h
  rw [hform.performLine?]
  refine bring?_eq ht ?_
  simp [Layout.result?, Layout.address?, hb, Machine.get]

/-! ### Lines that are written -/

lemma performLine?_adr {target name : String} (ht : Register.ofName? target = some (.x a)) :
    l.performLine? value s
        (.spaced "adr" [.register target, .memory { symbol := some name, offset }]) =
      some (s.brought a (l.place value name offset)) := by
  have hlower : "adr".toLower = "adr" := by decide +kernel
  rw [Line.spaced, Layout.performLine?, hlower]
  refine bring?_eq ht ?_
  change l.result? value s "adr" [.memory { symbol := some name, offset }] = _
  rw [Layout.result?, if_pos rfl, Layout.symbol?_bare]

lemma performLine?_mov {target source : String} (ht : Register.ofName? target = some (.x d))
    (hs : Register.ofName? source = some (.x a)) :
    l.performLine? value s (.spaced "mov" [.register target, .register source]) =
      some (s.brought d (s.registers a)) := by
  have hlower : "mov".toLower = "mov" := by decide +kernel
  rw [Line.spaced, Layout.performLine?, hlower]
  refine bring?_eq ht ?_
  change l.result? value s "mov" [.register source] = _
  rw [Layout.result?, if_pos rfl, hs]
  rfl

/-- Adding zero to a register copies it. -/
lemma bring?_add_zero {target source : String} (ht : Register.ofName? target = some (.x d))
    (hs : Register.ofName? source = some (.x a)) :
    l.bring? value s "add" [.register target, .register source,
        .immediate (some '#') ⟨[.other "0"]⟩] = some (s.brought d (s.registers a)) := by
  have hzero : displacement? (Expr.display ⟨[.other "0"]⟩).toList = some 0 := by decide +kernel
  refine bring?_eq ht ?_
  rw [Layout.result?, if_pos rfl, hs, Option.bind_some, hzero, Option.map_some]
  exact congrArg some (BitVec.add_zero _)

end Forms

/-! ### What is written for the instructions of a pair -/

section Sealed

variable {scope : Scope} (statement : Statement) {insn : Instruction} {a d : Fin 31}
variable {symbol offset : String}

/-- An instruction that forms the address of the page of a symbol of the module is written as one
that forms the address of the symbol. -/
lemma pageAddress_of_inside {target source : Operand} {name : String}
    (hops : insn.operands = [target, source]) (htarget : target.kind = .register name)
    (hname : name ∈ numbered a) (hsource : pageSymbol? source = some (symbol, offset))
    (hinside : scope.isExternal symbol = false) :
    pageAddress scope statement insn = .ok (.replace statement
      [.spaced "adr" [.register name,
        .memory { symbol := some (scope.inside symbol), offset }]]) := by
  unfold pageAddress
  rw [hops]
  dsimp only
  rw [xRegister_of_numbered hname _ htarget, hsource]
  dsimp only [bind, Except.bind]
  cases h : scope.inside? symbol with
  | none =>
      rw [Scope.inside?_eq_none_iff, hinside] at h
      cases h
  | some =>
      rw [Scope.inside, h]
      rfl

lemma exists_two {os : List Operand} {k k' : Operand.Kind} (h : os.map Operand.kind = [k, k']) :
    ∃ o o', os = [o, o'] ∧ o.kind = k ∧ o'.kind = k' := by
  obtain ⟨o, rest, rfl, ho, hrest⟩ := List.map_eq_cons_iff.mp h
  obtain ⟨o', none, rfl, ho', hnone⟩ := List.map_eq_cons_iff.mp hrest
  rw [List.map_eq_nil_iff.mp hnone]
  exact ⟨o, o', rfl, ho, ho'⟩

lemma sealInstruction_of_adrp (h : insn.mnemonic.toLower = "adrp") :
    sealInstruction scope statement insn = pageAddress scope statement insn := by
  unfold sealInstruction
  dsimp only
  rw [h, if_neg (by decide), if_pos rfl]

/-- The first instruction of a pair about a symbol of the module. -/
lemma sealInstruction_formsSymbolPage (h : FormsSymbolPage insn a symbol offset)
    (hinside : scope.isExternal symbol = false) :
    ∃ name ∈ numbered a, sealInstruction scope statement insn = .ok (.replace statement
      [.spaced "adr" [.register name,
        .memory { symbol := some (scope.inside symbol), offset }]]) := by
  obtain ⟨name, hname, hform⟩ := h
  obtain ⟨target, source, hops, htarget, hsource⟩ := exists_two hform.kinds
  refine ⟨name, hname, (sealInstruction_of_adrp statement hform.mnemonic).trans
    (pageAddress_of_inside statement hops htarget hname ?_ hinside)⟩
  rw [pageSymbol?, hsource]
  rfl

/-- The first instruction of a pair about the entry of a symbol of the module. -/
lemma sealInstruction_formsEntryPage (h : FormsEntryPage insn a symbol)
    (hinside : scope.isExternal symbol = false) :
    ∃ name ∈ numbered a, sealInstruction scope statement insn = .ok (.replace statement
      [.spaced "adr" [.register name, .memory { symbol := some (scope.inside symbol) }]]) := by
  obtain ⟨name, hname, hash, hform⟩ := h
  obtain ⟨target, source, hops, htarget, hsource⟩ := exists_two hform.kinds
  refine ⟨name, hname, (sealInstruction_of_adrp statement hform.mnemonic).trans
    (pageAddress_of_inside statement hops htarget hname ?_ hinside)⟩
  rw [pageSymbol?, hsource]
  rfl

/-- Lines that bring what the register `a` holds to the register `d`: one line that does, or none
if it is the same register. -/
def Moves (lines : List Line) (a d : Fin 31) : Prop :=
  lines = [] ∧ d = a ∨ ∃ line, lines = [line] ∧
    ∀ (l : Layout) value s, l.performLine? value s line = some (s.brought d (s.registers a))

/-- An address that is formed in the register `a` and brought to the register `d`. -/
lemma Moves.perform {l : Layout} {value : String → Word} {s : Machine} {line : Line}
    {lines : List Line} {p : Word} (h : Moves lines a d)
    (hline : l.performLine? value s line = some (s.brought a p)) :
    l.perform value s (line :: lines) = some (s.formed (line :: lines).length a d p) := by
  rw [Layout.perform_cons hline]
  rcases h with ⟨rfl, rfl⟩ | ⟨move, rfl, hmove⟩
  · rw [Layout.perform_nil, Machine.brought_eq_formed]
    rfl
  · rw [Layout.perform_cons (hmove l value _), Layout.perform_nil, Machine.registers_brought,
      Function.update_self, Machine.brought_brought]
    rfl

lemma sealInstruction_of_operands (hfree : insn.mnemonic.toLower ∉ "adrp" :: symbolFree) :
    sealInstruction scope statement insn =
      sealFrom scope statement insn [] false [] 0 insn.operands := by
  unfold sealInstruction
  dsimp only
  rw [if_neg (fun h => hfree (List.mem_cons_of_mem _ h)),
    if_neg (fun h => hfree (List.mem_cons.mpr (.inl h)))]

lemma sealFrom_keep {before : List Line.Operand} {b change : Bool} {earlier more : List Helper}
    {i : ℕ} {o : Operand} {written : Line.Operand}
    (h : sealOperand scope insn i o = .ok (.keep written change more)) (os : List Operand) :
    sealFrom scope statement insn before b earlier i (o :: os) =
      sealFrom scope statement insn (written :: before) (b || change) (earlier ++ more) (i + 1)
        os := by
  rw [sealFrom, h]
  rfl

lemma sealFrom_replace {before : List Line.Operand} {b : Bool} {earlier : List Helper}
    {i : ℕ} {o : Operand} {lines : List Line}
    (h : sealOperand scope insn i o = .ok (.replace lines)) (os : List Operand) :
    sealFrom scope statement insn before b earlier i (o :: os) =
      .ok (.replace statement lines earlier) := by
  rw [sealFrom, h]
  rfl

lemma sealOperand_register {i : ℕ} {o : Operand} {name : String} (h : o.kind = .register name) :
    sealOperand scope insn i o = .ok (.keep (.copied o) false []) := by
  rw [sealOperand, h]

/-- One name calls one register. -/
lemma eq_of_ofName? {name : String} (ha : Register.ofName? name = some (.x a))
    (hd : Register.ofName? name = some (.x d)) : d = a := by
  rw [ha] at hd
  cases hd
  rfl

/-- An instruction that adds the rest of an address is left out, or adds nothing. -/
lemma sealInstruction_addsRest (h : AddsRest insn d a symbol offset) :
    ∃ e, sealInstruction scope statement insn = .ok e ∧ Moves e.lines a d := by
  obtain ⟨target, ht, source, hs, hash, hform⟩ := h
  obtain ⟨o, os, hops, ho, hos⟩ := List.map_eq_cons_iff.mp hform.kinds
  obtain ⟨o', o'', rfl, ho', ho''⟩ := exists_two hos
  have hfree : insn.mnemonic.toLower ∉ "adrp" :: symbolFree := by
    rw [hform.mnemonic]
    decide
  -- the third operand is what decides: the rest of the address is in the page already
  have hrest : sealOperand scope insn 2 o'' = .ok (if target = source then .replace []
      else .keep (.ofKind (.immediate (some '#') ⟨[.other "0"]⟩)) true []) := by
    rw [sealOperand, ho'']
    dsimp only
    rw [sealRelocation.eq_1 _ _ _ _ _ _ _ hops, hform.mnemonic, if_pos ⟨rfl, rfl⟩,
      xRegister_of_numbered ht _ ho, xRegister_of_numbered hs _ ho']
    dsimp only [bind, Except.bind]
    split <;> rfl
  rw [sealInstruction_of_operands statement hfree, hops,
    sealFrom_keep statement (sealOperand_register ho),
    sealFrom_keep statement (sealOperand_register ho')]
  split at hrest
  · next heq =>
      subst heq
      exact ⟨_, sealFrom_replace statement hrest [], .inl ⟨Emission.lines_replace .., eq_of_ofName?
        (ofName?_of_numbered hs) (ofName?_of_numbered ht)⟩⟩
  · rw [sealFrom_keep statement hrest]
    refine ⟨_, rfl, .inr ⟨_, Emission.lines_replace .., fun l value s => ?_⟩⟩
    rw [hform.modifiers, Layout.performLine?, hform.mnemonic]
    change l.bring? value s "add" [o.kind, o'.kind, _] = _
    rw [ho, ho']
    exact bring?_add_zero (ofName?_of_numbered ht) (ofName?_of_numbered hs)

/-- An instruction that loads an entry of the offset table is left out, or copies a register. -/
lemma sealInstruction_loadsEntry (h : LoadsEntry insn d a symbol) :
    ∃ e, sealInstruction scope statement insn = .ok e ∧ Moves e.lines a d := by
  obtain ⟨target, base, hash, ht, hb, hform⟩ := h
  obtain ⟨o, o', hops, ho, ho'⟩ := exists_two hform.kinds
  have hfree : insn.mnemonic.toLower ∉ "adrp" :: symbolFree := by
    rw [hform.mnemonic]
    decide
  have hentry : sealOperand scope insn 1 o' = .ok (.replace (if target = base then []
      else [.spaced "mov" [.register target, .register base]])) := by
    rw [sealOperand, ho']
    dsimp only
    rw [sealIndexed, hform.mnemonic, hops]
    dsimp only
    rw [List.head?_cons, Option.bind_some, Operand.register?, ho]
    rfl
  rw [sealInstruction_of_operands statement hfree, hops,
    sealFrom_keep statement (sealOperand_register ho)]
  refine ⟨_, sealFrom_replace statement hentry [], ?_⟩
  rw [Emission.lines_replace]
  split
  · next heq =>
      subst heq
      exact .inl ⟨rfl, eq_of_ofName? hb ht⟩
  · exact .inr ⟨_, rfl, fun l value s => performLine?_mov ht hb⟩

/-- An operand is kept: how it is written, and whether this is a change. -/
def Keeps (scope : Scope) (insn : Instruction) (o : Operand) (p : Line.Operand × Bool) : Prop :=
  ∃ more, ∀ i, sealOperand scope insn i o = .ok (.keep p.1 p.2 more)

/-- An operand that is neither in square brackets nor a part of an address is kept. -/
lemma exists_keeps {o : Operand} (hindexed : ∀ x, o.kind ≠ .indexed x)
    (hrelocation : ∀ r, o.kind ≠ .relocation r) : ∃ p, Keeps scope insn o p := by
  unfold Keeps sealOperand
  cases h : o.kind with
  | indexed x => exact (hindexed x h).elim
  | relocation r => exact (hrelocation r h).elim
  | memory m => exact ⟨(_, _), _, fun _ => rfl⟩
  | immediate sigil value => exact ⟨(_, _), _, fun _ => rfl⟩
  | _ => exact ⟨(_, _), _, fun _ => rfl⟩

/-- The rest of an address is left out of an operand in square brackets. -/
lemma keeps_base {o : Operand} {base : String} {hash : Bool} (ho : o.kind =
      .indexed { base, rest := some (.relocation ⟨hash, "lo12", symbol, offset⟩) }) :
    Keeps scope insn o (.ofKind (.indexed { base }), true) := by
  refine ⟨[], fun i => ?_⟩
  rw [sealOperand, ho]
  rfl

lemma keeps_register {o : Operand} {name : String} (ho : o.kind = .register name) :
    Keeps scope insn o (.copied o, false) :=
  ⟨[], fun _ => sealOperand_register ho⟩

lemma Keeps.eq {o : Operand} {p q : Line.Operand × Bool} (hp : Keeps scope insn o p)
    (hq : Keeps scope insn o q) : p = q := by
  obtain ⟨more, hp⟩ := hp
  obtain ⟨more', hq⟩ := hq
  have h := (hp 0).symm.trans (hq 0)
  cases p
  cases q
  cases h
  rfl

/-- An instruction whose operands are kept is written with them, if one of them is a change. -/
lemma sealFrom_of_keeps {os : List Operand} (h : ∀ o ∈ os, ∃ p, Keeps scope insn o p)
    (before : List Line.Operand) (b : Bool) (earlier : List Helper) (i : ℕ) :
    ∃ ps helpers, List.Forall₂ (Keeps scope insn) os ps ∧
      sealFrom scope statement insn before b earlier i os =
        .ok (if b || ps.any Prod.snd then .replace statement
          [.instruction insn.modifiers insn.mnemonic "\t" (before.reverse ++ ps.map Prod.fst)]
            helpers
        else .copy statement) := by
  induction os generalizing before b earlier i with
  | nil =>
      refine ⟨[], earlier, .nil, ?_⟩
      rw [sealFrom, List.any_nil, Bool.or_false, List.map_nil, List.append_nil]
  | cons o os ih =>
      obtain ⟨p, hp⟩ := h o List.mem_cons_self
      obtain ⟨more, hkeep⟩ := id hp
      obtain ⟨ps, helpers, hall, heq⟩ := ih (fun o ho => h o (List.mem_cons_of_mem _ ho))
        (p.1 :: before) (b || p.2) (earlier ++ more) (i + 1)
      refine ⟨p :: ps, helpers, .cons hp hall, ?_⟩
      rw [sealFrom_keep statement (hkeep i), heq]
      simp only [List.any_cons, Bool.or_assoc, List.reverse_cons, List.append_assoc,
        List.map_cons, List.cons_append, List.nil_append]

/-- A load, a store or a prefetch is written with the base register in the place of the operand,
and its registers are the same. -/
lemma sealInstruction_accesses {i : ℕ} (h : Accesses insn i a symbol offset) :
    ∃ e written base, sealInstruction scope statement insn = .ok e ∧
      e.lines = [.instruction [] insn.mnemonic "\t" written] ∧
      written.length = insn.operands.length ∧ Register.ofName? base = some (.x a) ∧
      written[i]? = some (.ofKind (.indexed { base })) ∧
      ∀ (j : ℕ) o name, insn.operands[j]? = some o → o.kind = .register name →
        written[j]? = some (.copied o) := by
  obtain ⟨base, hash, hbase, hoperand⟩ := h.operand
  obtain ⟨o, ho, hkind⟩ := Option.map_eq_some_iff.mp hoperand
  -- the operand with the rest of the address becomes its base; the others are kept
  have hkeeps : ∀ o ∈ insn.operands, ∃ p, Keeps scope insn o p := by
    intro o' ho'
    obtain ⟨j, hj⟩ := List.mem_iff_getElem?.mp ho'
    by_cases hij : j = i
    · subst hij
      rw [ho] at hj
      cases hj
      exact ⟨_, keeps_base hkind⟩
    · exact exists_keeps (h.others j o' hij hj).1 (h.others j o' hij hj).2
  obtain ⟨ps, helpers, hall, heq⟩ := sealFrom_of_keeps statement hkeeps [] false [] 0
  -- operands keep their places
  have hwritten {j : ℕ} {o : Operand} {p : Line.Operand × Bool} (hj : insn.operands[j]? = some o)
      (hp : Keeps scope insn o p) : ps[j]? = some p := by
    obtain ⟨hlt, rfl⟩ := List.getElem?_eq_some_iff.mp hj
    have hlt' : j < ps.length := hall.length_eq ▸ hlt
    rw [List.getElem?_eq_getElem hlt']
    exact congrArg some (Keeps.eq (hall.get hlt hlt') hp)
  have hplace := hwritten ho (keeps_base hkind)
  have hchanged : ps.any Prod.snd = true :=
    List.any_eq_true.mpr ⟨_, List.mem_of_getElem? hplace, rfl⟩
  rw [Bool.false_or, hchanged, if_pos rfl] at heq
  refine ⟨_, ps.map Prod.fst, base, (sealInstruction_of_operands statement h.mnemonic).trans heq,
    ?_, ?_, hbase, ?_, fun j o name hj hname => ?_⟩
  · rw [Emission.lines_replace, h.modifiers]
    rfl
  · rw [List.length_map, hall.length_eq]
  · rw [List.getElem?_map, hplace]
    rfl
  · rw [List.getElem?_map, hwritten hj (keeps_register hname)]
    rfl

end Sealed

/-! ### The pairs -/

/-- The name that a symbol is reached by lies where the symbol lies, and no offset is no bytes. -/
structure Placed (l : Layout) (value : String → Word) (scope : Scope) (symbol : String) :
    Prop where
  inside : l.address (scope.inside symbol) = l.address symbol
  blank : value "" = 0

/-- What is written for two instructions, one after the other, leaves an address in the registers
`a` and `d`, and changes nothing else. -/
def FormsInstead (l : Layout) (value : String → Word) (scope : Scope)
    (first second : Instruction) (a d : Fin 31) (p : Word) : Prop :=
  ∀ b c : Statement, ∃ e f, sealInstruction scope b first = .ok e ∧
    sealInstruction scope c second = .ok f ∧
    ∀ s, l.perform value s (e.lines ++ f.lines) =
      some (s.formed (e.lines ++ f.lines).length a d p)

/-- What is written for two instructions, one after the other, refers to the address that operand
`i` of the second refers to, and else keeps the second with its registers. -/
def AccessesInstead (l : Layout) (value : String → Word) (scope : Scope)
    (first second : Instruction) (i : ℕ) (p : Word) : Prop :=
  ∀ b c : Statement, ∃ e f written, sealInstruction scope b first = .ok e ∧
    sealInstruction scope c second = .ok f ∧
    f.lines = [.instruction second.modifiers second.mnemonic "\t" written] ∧
    written.length = second.operands.length ∧
    (∀ (j : ℕ) o name, second.operands[j]? = some o → o.kind = .register name →
      written[j]? = some (.copied o)) ∧
    ∀ s, ∃ t u, l.perform value s [lineOf first] = some t ∧ l.perform value s e.lines = some u ∧
      (second.operands[i]?.map Operand.kind).bind (l.address? value t) = some p ∧
      (written[i]?.map Layout.kindIn).bind (l.address? value u) = some p

section Pairs

variable {l : Layout} {value : String → Word} {scope : Scope} {symbol offset : String}
variable {page rest entryPage load : Instruction} {a d : Fin 31} {i : ℕ}

lemma Placed.place_inside (h : Placed l value scope symbol) (offset : String) :
    l.place value (scope.inside symbol) offset = l.place value symbol offset := by
  rw [Layout.place, h.inside, Layout.place]

lemma Placed.place_blank (h : Placed l value scope symbol) :
    l.place value symbol "" = l.address symbol := by
  rw [Layout.place, h.blank]
  exact BitVec.add_zero _

/-- A pair that adds the rest of an address leaves the address in the target. -/
lemma perform_pair (hpage : FormsSymbolPage page a symbol offset)
    (hrest : AddsRest rest d a symbol offset) (s : Machine) :
    (l.perform value s [lineOf page, lineOf rest]).map (·.registers d) =
      some (l.place value symbol offset) := by
  rw [Layout.perform_cons hpage.performLine?, Layout.perform_cons hrest.performLine?,
    Layout.perform_nil, Option.map_some, Machine.registers_brought, Machine.registers_brought,
    Function.update_self, Function.update_self, page_add_low]

/-- A pair that loads from the offset table leaves what the entry holds in the target. -/
lemma perform_entryPair (hpage : FormsEntryPage entryPage a symbol)
    (hload : LoadsEntry load d a symbol) (s : Machine) :
    (l.perform value s [lineOf entryPage, lineOf load]).map (·.registers d) =
      some (s.memory.word (l.entry symbol)) := by
  rw [Layout.perform_cons hpage.performLine?, Layout.perform_cons hload.performLine?,
    Layout.perform_nil, Option.map_some, Machine.registers_brought, Function.update_self,
    Machine.registers_brought, Function.update_self, page_add_low]
  rfl

/-- A first line that forms an address, and lines that move it. -/
lemma formsInstead {first second : Instruction} {p : Word}
    (hfirst : ∀ b, ∃ name ∈ numbered a, ∃ reached offset, sealInstruction scope b first =
      .ok (.replace b [.spaced "adr" [.register name,
        .memory { symbol := some reached, offset }]]) ∧
      l.place value reached offset = p)
    (hsecond : ∀ c, ∃ e, sealInstruction scope c second = .ok e ∧ Moves e.lines a d) :
    FormsInstead l value scope first second a d p := by
  intro b c
  obtain ⟨name, hname, reached, offset, hb, rfl⟩ := hfirst b
  obtain ⟨f, hc, hmoves⟩ := hsecond c
  refine ⟨_, f, hb, hc, fun s => ?_⟩
  rw [Emission.lines_replace]
  exact hmoves.perform (performLine?_adr (ofName?_of_numbered hname))

lemma accessesInstead (hpage : FormsSymbolPage page a symbol offset)
    (haccess : Accesses load i a symbol offset) (hinside : scope.isExternal symbol = false)
    (hplaced : Placed l value scope symbol) :
    AccessesInstead l value scope page load i (l.place value symbol offset) := by
  intro b c
  obtain ⟨name, hname, hb⟩ := sealInstruction_formsSymbolPage b hpage hinside
  obtain ⟨f, written, base, hc, hlines, hlength, hbase, hplace, hregisters⟩ :=
    sealInstruction_accesses c haccess
  obtain ⟨base', hash, hbase', hoperand⟩ := haccess.operand
  rw [← haccess.modifiers] at hlines
  refine ⟨_, f, written, hb, hc, hlines, hlength, hregisters, fun s =>
    ⟨_, s.brought a (l.place value symbol offset), Layout.perform_cons hpage.performLine? [],
      ?_, ?_, ?_⟩⟩
  · rw [Emission.lines_replace, ← hplaced.place_inside]
    exact Layout.perform_cons (performLine?_adr (ofName?_of_numbered hname)) []
  · rw [hoperand, Option.bind_some]
    simp [Layout.address?, hbase']
  · rw [hplace, Option.map_some, Option.bind_some]
    change l.address? value _ (.indexed { base }) = _
    simp [Layout.address?, hbase]

end Pairs

/-! ### A symbol of a module -/

namespace PagePair

/-- A module with one symbol. -/
def scope : Scope where
  symbols := ⟨NameSet.empty.insert "data"⟩
  marker := Symbol.defaultMarker
  index := 0

/-- Where symbols lie. -/
def layout : Layout where
  address symbol := if symbol = "ext" then 0x4000 else 0x12345
  entry _ := 0x3000
  code _ := none

/-- What offsets come to. -/
def value (offset : String) : Word :=
  if offset = "+8" then 8 else 0

/-- An instruction with operands of some kinds. -/
def instruction (mnemonic : String) (kinds : List Operand.Kind) : Instruction where
  mnemonic
  operands := kinds.map .ofKind

lemma hasForm (mnemonic : String) (kinds : List Operand.Kind)
    (h : mnemonic.toLower = mnemonic) : HasForm (instruction mnemonic kinds) mnemonic kinds where
  modifiers := rfl
  mnemonic := h
  kinds := by
    rw [instruction, List.map_map]
    exact List.map_id kinds

/-- The instruction that forms the address of the page of the symbol, some bytes on. -/
def page : Instruction :=
  instruction "adrp" [.register "x1", .memory { symbol := some "data", offset := "+8" }]

/-- The instruction that adds the rest. -/
def add : Instruction :=
  instruction "add" [.register "x0", .register "x1", .relocation ⟨false, "lo12", "data", "+8"⟩]

/-- The instruction that reads where the symbol lies. -/
def read : Instruction :=
  instruction "ldr" [.register "w2",
    .indexed { base := "x1", rest := some (.relocation ⟨false, "lo12", "data", "+8"⟩) }]

/-- The instruction that forms the address of the page of the symbol's entry. -/
def entryPage : Instruction :=
  instruction "adrp" [.register "x1", .relocation ⟨false, "got", "data", ""⟩]

/-- The instruction that loads the entry. -/
def load : Instruction :=
  instruction "ldr" [.register "x0",
    .indexed { base := "x1", rest := some (.relocation ⟨false, "got_lo12", "data", ""⟩) }]

lemma accesses : Accesses read 1 1 "data" "+8" where
  modifiers := rfl
  mnemonic := by decide +kernel
  operand := ⟨"x1", false, by decide +kernel, rfl⟩
  others j o hj ho := by
    match j, ho with
    | 0, ho =>
        cases ho
        exact ⟨nofun, nofun⟩
    | 1, _ => exact absurd rfl hj

end PagePair

end Hermetic.Arm

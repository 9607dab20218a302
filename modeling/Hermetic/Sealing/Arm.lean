/-
Instructions of a sealed module, for AArch64.

The address of a symbol is formed by two instructions: the address of its page, and the rest.
For a symbol of the module the first is replaced by one that forms the whole address, so that
nothing is left for the second to add.  The address of any other symbol is loaded by a helper.

* `Arm.pageAddress`: what is written for the first instruction of such a pair;
* `Arm.sealOperand`: what becomes of an operand of any other instruction;
* `Arm.sealInstruction`: what is written for an instruction.
-/
import Hermetic.Emission
import Hermetic.Sealing.Scope

namespace Hermetic.Arm

/-! ### Mnemonics and registers -/

/-- The instructions whose operands are never symbols: conditions and the names of system
registers only look like them. -/
def symbolFree : List String :=
  ["ccmn", "ccmp", "cinc", "cinv", "cneg", "csel", "cset", "csetm", "csinc", "csinv", "csneg",
    "fcsel", "fccmp", "fccmpe", "mrs", "msr", "dmb", "dsb", "isb", "hint", "bti", "dc", "ic",
    "tlbi", "at", "sys", "sysl"]

/-- Whether an instruction, in lower case, is a branch to a symbol. -/
def isBranch (mnemonic : String) : Bool :=
  ["b", "bl", "cbz", "cbnz", "tbz", "tbnz"].contains mnemonic || Text.startsWith "b." mnemonic

/-- The register that an operand is, if its name starts like that of a 64-bit register. -/
def xRegister (role : RegisterRole) (o : Operand) : Except Unsupported String :=
  match o.register?.filter fun r => Text.startsWith "x" r || Text.startsWith "X" r with
  | some r => .ok r
  | none => .error (.notXRegister role o.text)

/-! ### Page addresses -/

/-- The symbol whose page is meant by an operand, and the offset that is added to it. -/
def pageSymbol? (o : Operand) : Option (String × String) :=
  match o.kind with
  | .memory m => if m.base.isNone && m.tag.isNone then m.symbol.map (·, m.offset) else none
  | .relocation r => if r.spec = "got" then some (r.symbol, r.offset) else none
  | _ => none

/-- The number of bytes below the end of the stack that are left alone. -/
def redZone : Line.Operand :=
  .ofKind (.immediate none ⟨[.other "128"]⟩)

/-- The stack register. -/
def sp : Line.Operand := .register "sp"

/-- Loads the address of a symbol outside the module into a register, and leaves all other
registers as they are. -/
def loadExternal (symbol target : String) : List Line :=
  let x0 := Line.Operand.register "x0"
  let lr := Line.Operand.register "lr"
  let push := Line.Operand.ofKind
    (.indexed { base := "sp", rest := some (.text "#-16"), writeback := true })
  let top := Line.Operand.ofKind (.indexed { base := "sp" })
  let size := Line.Operand.ofKind (.immediate (some '#') ⟨[.other "16"]⟩)
  [.spaced "sub" [sp, sp, redZone],
    .spaced "stp" [x0, lr, push],
    .spaced "bl" [.symbol (Symbol.gotHelper symbol)]] ++
  (if target = "x0" then [.spaced "ldp" [.register "xzr", lr, top, size]]
    else [.spaced "mov" [.register target, x0], .spaced "ldp" [x0, lr, top, size]]) ++
  [.spaced "add" [sp, sp, redZone]]

/-- What is written for an instruction that forms the address of a page. -/
def pageAddress (scope : Scope) (s : Statement) (insn : Instruction) :
    Except Unsupported Emission :=
  match insn.operands with
  | [target, source] => do
    let register ← xRegister .pageDestination target
    match pageSymbol? source with
    | none => throw (.pageOperand source.text)
    | some (symbol, offset) =>
      match scope.inside? symbol with
      | some name =>
        return .replace s
          [.spaced "adr" [.register register, .memory { symbol := some name, offset }]]
      | none =>
        if offset.isEmpty then
          return .replace s (loadExternal symbol register) [.gotEntry symbol]
        else throw (.externalOffset symbol offset)
  | operands => .error (.pageArity operands.length)

/-! ### Operands -/

/-- What becomes of an operand: it is written in some way, which may be a change and may need
helpers, or some lines take the place of the whole instruction. -/
inductive OperandChange
  | keep (operand : Line.Operand) (changed : Bool) (helpers : List Helper)
  | replace (lines : List Line)

/-- What becomes of a symbol: one of the module is reached inside it, and a branch that leaves
the module goes through a redirector. -/
def sealMemory (scope : Scope) (mnemonic : String) (o : Operand) (m : MemoryRef) :
    OperandChange :=
  let target := m.symbol.map fun name =>
    if isBranch mnemonic then scope.branchTarget name else (scope.inside name, [])
  let symbol := target.map Prod.fst
  .keep (.built (o.withKind (.memory { m with symbol }))) (symbol != m.symbol)
    ((target.map Prod.snd).getD [])

/-- What becomes of a memory reference that adds the rest of an address to a register: the
register holds the whole address already. -/
def sealIndexed (mnemonic : String) (operands : List Operand) (o : Operand) (x : Indexed) :
    Except Unsupported OperandChange :=
  match x.rest with
  | some (.relocation r) =>
    if r.spec = "got_lo12" then
      if mnemonic != "ldr" then .error .gotLowPartMnemonic
      else
        match operands.head?.bind Operand.register? with
        | none => .error .loadWithoutRegister
        | some target =>
          .ok (.replace (if target = x.base then []
            else [.spaced "mov" [.register target, .register x.base]]))
    else if r.spec = "lo12" then
      .ok (.keep (.ofKind (.indexed { base := x.base })) true [])
    else .error (.memoryRelocation r.spec)
  | _ => .ok (.keep (.copied o) false [])

/-- What becomes of the rest of an address that is added to a register: nothing is left to
add. -/
def sealRelocation (mnemonic : String) (insn : Instruction) (i : Nat) (o : Operand)
    (r : Relocation) : Except Unsupported OperandChange :=
  match insn.operands, i with
  | [target, source, _], 2 =>
    if r.spec = "lo12" ∧ mnemonic = "add" then do
      let target ← xRegister .lowPartDestination target
      let source ← xRegister .lowPartSource source
      if target = source then return .replace []
      return .keep (.ofKind (.immediate (some '#') ⟨[.other "0"]⟩)) true []
    else .error (.relocationIn o.text insn.mnemonic)
  | _, _ => .error (.relocationIn o.text insn.mnemonic)

/-- What becomes of operand `i`. -/
def sealOperand (scope : Scope) (insn : Instruction) (i : Nat) (o : Operand) :
    Except Unsupported OperandChange :=
  let mnemonic := insn.mnemonic.toLower
  match o.kind with
  | .memory m => .ok (sealMemory scope mnemonic o m)
  | .indexed x => sealIndexed mnemonic insn.operands o x
  | .relocation r => sealRelocation mnemonic insn i o r
  | .immediate sigil value =>
    let mapped := value.mapSymbols scope.localized
    .ok (.keep (.built (o.withKind (.immediate sigil mapped))) (mapped != value) [])
  | _ => .ok (.keep (.copied o) false [])

/-! ### Instructions -/

/-- What is written for an instruction, from its operand `i` on.  `written` are the operands
before it, backwards, `changed` tells whether one of them is a change, and `helpers` are those
that they need. -/
def sealFrom (scope : Scope) (s : Statement) (insn : Instruction)
    (written : List Line.Operand) (changed : Bool) (helpers : List Helper) :
    Nat → List Operand → Except Unsupported Emission
  | _, [] =>
    .ok (if changed then
      .replace s [.instruction insn.modifiers insn.mnemonic "\t" written.reverse] helpers
    else .copy s)
  | i, o :: os => do
    match ← sealOperand scope insn i o with
    | .replace lines => return .replace s lines helpers
    | .keep operand change more =>
      sealFrom scope s insn (operand :: written) (changed || change) (helpers ++ more)
        (i + 1) os

/-- What is written for an instruction. -/
def sealInstruction (scope : Scope) (s : Statement) (insn : Instruction) :
    Except Unsupported Emission :=
  let mnemonic := insn.mnemonic.toLower
  if mnemonic ∈ symbolFree then .ok (.copy s)
  else if mnemonic = "adrp" then pageAddress scope s insn
  else sealFrom scope s insn [] false [] 0 insn.operands

end Hermetic.Arm

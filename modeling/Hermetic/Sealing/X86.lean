/-
Instructions of a sealed module, for x86-64.

References to the module's own symbols go to their aliases, calls that leave the module go to
redirectors, and loads from the offset table become computations of addresses.

* `X86.Family`, `X86.Family.of`: what is done about a load from the table depends on the
  mnemonic and the number of operands; a family holds the operands that it has;
* `X86.gotLoad`: the frames for a load from the table;
* `X86.sealOperand`: what becomes of an operand;
* `X86.sealInstruction`: what is written for an instruction.
-/
import Hermetic.Emission
import Hermetic.Sealing.Frame
import Hermetic.Sealing.Scope

namespace Hermetic.X86

/-! ### Families -/

/-- The instructions that go somewhere else. -/
def jumps : List String :=
  ["call", "callq", "jmp", "jmpq", "jo", "jno", "js", "jns", "je", "jz", "jne", "jnz", "jb",
    "jnae", "jc", "jnb", "jae", "jnc", "jbe", "jna", "ja", "jnbe", "jl", "jnge", "jge", "jnl",
    "jle", "jng", "jg", "jnle", "jp", "jpe", "jnp", "jpo", "jrcxz", "jecxz"]

/-- The conditions of conditional moves, each with the condition under which nothing is moved. -/
def oppositeConditions : List (List String × String) :=
  [(["b", "c", "nae"], "ae"), (["be", "na"], "a"), (["a", "nbe"], "be"),
    (["ae", "nb", "nc"], "b"), (["e", "z"], "ne"), (["ne", "nz"], "e"), (["l", "nge"], "ge"),
    (["le", "ng"], "g"), (["g", "nle"], "le"), (["ge", "nl"], "l"), (["s"], "ns"), (["ns"], "s"),
    (["o"], "no"), (["no"], "o"), (["p", "pe"], "np"), (["np", "po"], "p")]

/-- The condition under which a conditional move of 64 bits moves nothing. -/
def skipCondition (mnemonic : String) : Option String :=
  match (Text.after? "cmov".toList mnemonic.toList).bind (Text.before? ['q']) with
  | some condition =>
    (oppositeConditions.find? fun p => p.1.contains (String.ofList condition)).map Prod.snd
  | none => none

/-- What an instruction does with its operands, as far as a load from the table goes. -/
inductive Family
  /-- Pushes a word. -/
  | push (source : Operand)
  /-- Copies a word. -/
  | move (source target : Operand)
  /-- Copies a word, save under a condition. -/
  | conditionalMove (skip : String) (source target : Operand)
  /-- Goes somewhere else. -/
  | jump (target : Operand)
  /-- Changes a word by another. -/
  | combine (source target : Operand)
  /-- Compares two words. -/
  | compare (first second : Operand)
  /-- Computes a word from two. -/
  | threeArg (first second target : Operand)
  /-- Fills a vector with a word. -/
  | transform (source target : Operand)
  /-- Changes a part of a vector by a word in memory. -/
  | combineVector (source target : Operand)
  /-- Anything else. -/
  | other
deriving DecidableEq, Repr

namespace Family

/-- The family of an instruction with one operand. -/
def ofOne (mnemonic : String) (a : Operand) : Family :=
  if mnemonic ∈ ["push", "pushq"] then push a
  else if mnemonic ∈ jumps then jump a
  else other

/-- The family of an instruction with two operands. -/
def ofTwo (mnemonic : String) (a b : Operand) : Family :=
  if mnemonic ∈ ["mov", "movq", "vmovq", "movsd", "vmovsd"] then move a b
  else if mnemonic ∈ ["orq", "andq", "xorq"] then combine a b
  else if mnemonic = "cmpq" then compare a b
  else if mnemonic = "vpbroadcastq" then transform a b
  else if mnemonic ∈ ["movlps", "movhps", "movlpd", "movhpd"] then combineVector a b
  else
    match skipCondition mnemonic with
    | some skip => conditionalMove skip a b
    | none => other

/-- The family of an instruction with three operands. -/
def ofThree (mnemonic : String) (a b c : Operand) : Family :=
  if mnemonic ∈ ["sarxq", "shlxq", "shrxq"] then threeArg a b c else other

/-- The family of an instruction. -/
def of (i : Instruction) : Family :=
  match i.operands with
  | [a] => ofOne i.mnemonic a
  | [a, b] => ofTwo i.mnemonic a b
  | [a, b, c] => ofThree i.mnemonic a b c
  | _ => other

/-- Whether a family goes somewhere else. -/
def isJump : Family → Bool
  | jump _ => true
  | _ => false

/-- Whether a family may load from the table by another operand than its first. -/
def loadsAnywhere : Family → Bool
  | threeArg .. | compare .. => true
  | _ => false

end Family

/-! ### Loads from the offset table -/

/-- Whether an address can be computed into a register: it can unless that is a vector. -/
def holdsAddress (register : String) : Bool :=
  !Text.startsWith "%xmm" register && !Text.startsWith "%ymm" register &&
    !Text.startsWith "%zmm" register

/-- The register that an operand is. -/
def registerIn (role : RegisterRole) (o : Operand) : Except Unsupported String :=
  match o.register? with
  | some r => .ok r
  | none => .error (.notRegister role o.text)

/-- What surrounds the computation of an address: the frames, the register that it goes to, and
whether the red zone is left alone by then. -/
structure LoadPlan where
  frames : List Frame
  target : String
  redZoneCleared : Bool := false

/-- Computes an address into a scratch register, and then goes on with a line. -/
def viaScratch (inUse : List String) (rest : String → Frame) : Except Unsupported LoadPlan :=
  (Frame.scratch inUse).map fun temp =>
    { frames := [.saveRegister temp, rest temp], target := temp, redZoneCleared := true }

/-- What surrounds the computation of an address in the place of operand `i`. -/
def loadPlan (mnemonic : String) (i : Nat) : Family → Except Unsupported LoadPlan
  | .push _ => .ok { frames := [.pushResult], target := "%rax" }
  | .move _ b =>
    (registerIn .gotDestination b).map fun target => { frames := [], target }
  | .conditionalMove skip _ b =>
    (registerIn .gotDestination b).map fun target => { frames := [.skipIf skip], target }
  | .compare a b =>
    let kept := if i = 0 then b else a
    viaScratch [kept.text] fun temp =>
      .afterwards (.spaced mnemonic
        (if i = 0 then [.register temp, .copied kept] else [.copied kept, .register temp]))
  | .transform _ b => do
    let target ← registerIn .transformDestination b
    if holdsAddress target then throw .transformTarget
    return {
      frames := [.afterwards (.spaced mnemonic [.register target, .register target])]
      target }
  | .combine _ b => do
    let target ← registerIn .combineDestination b
    if !holdsAddress target then throw .combineTarget
    viaScratch [target] fun temp =>
      .afterwards (.spaced mnemonic [.register temp, .register target])
  | .combineVector _ b => do
    let target ← registerIn .vectorCombineDestination b
    if holdsAddress target then throw .vectorCombineTarget
    viaScratch [] fun temp => .combineVector mnemonic target temp
  | .threeArg a b c =>
    if 1 < i then .error .gotLoadResult
    else
      let kept := if i = 0 then b else a
      viaScratch [c.text, kept.text] fun temp =>
        .afterwards (.spaced mnemonic
          ((if i = 0 then [.register temp, .copied kept] else [.copied kept, .register temp]) ++
            [.copied c]))
  | .jump _ | .other => .error (.gotLoadIn mnemonic)

/-- A plan whose address goes to a register that can hold one: a vector is filled from a scratch
register. -/
def viaGeneral (mnemonic : String) (plan : LoadPlan) : Except Unsupported LoadPlan :=
  if holdsAddress plan.target then .ok plan
  else
    (Frame.scratch []).map fun temp =>
      { frames := plan.frames ++
          [.saveRegister temp, .moveTo plan.target (Text.startsWith "v" mnemonic) temp]
        target := temp
        redZoneCleared := true }

/-- The computation of the address of a symbol into a register, and the helper that it needs. -/
def addressOf (scope : Scope) (symbol register : String) (redZoneCleared : Bool) :
    Frame × List Helper :=
  match scope.inside? symbol with
  | some name => (.loadAddress name register, [])
  | none => (.loadFromGot symbol register redZoneCleared, [.gotEntry symbol])

/-- The frames of an instruction whose operand `i` loads an address from the table, and the
helpers that they need. -/
def gotLoad (scope : Scope) (insn : Instruction) (i : Nat) (m : MemoryRef) :
    Except Unsupported (List Frame × List Helper) := do
  let family := Family.of insn
  if m.hasOffset then throw .gotLoadOffset
  if !m.isRipRelative then throw .gotLoadBase
  if !family.loadsAnywhere && i != 0 then throw .gotLoadPlace
  let plan ← loadPlan insn.mnemonic i family
  let plan ← viaGeneral insn.mnemonic plan
  let (load, helpers) := addressOf scope (m.symbol.getD "") plan.target plan.redZoneCleared
  return (plan.frames ++ [load], helpers)

/-! ### Operands -/

/-- What becomes of an operand: how it is written, whether that is a change, the mnemonic if it
is another one, the frames and helpers that are needed, and whether the later operands play no
role. -/
structure OperandChange where
  operand : Line.Operand
  changed : Bool := true
  mnemonic : Option String := none
  frames : List Frame := []
  helpers : List Helper := []
  last : Bool := false

/-- What becomes of a memory operand with the given tag. -/
def sealMemory (scope : Scope) (insn : Instruction) (i : Nat) (o : Operand) (m : MemoryRef) :
    Except Unsupported OperandChange :=
  let isJump := (Family.of insn).isJump
  match m.tag with
  | none =>
    let symbol := m.symbol.map scope.inside
    .ok {
      operand := .built (o.withKind (.memory { m with symbol }))
      changed := symbol != m.symbol }
  | some tag =>
    if tag = "PLT" then
      if isJump then
        let target := m.symbol.map scope.branchTarget
        let m := { m with symbol := target.map Prod.fst, tag := none, tagOffset := "" }
        .ok {
          operand := .built (o.withKind (.memory m))
          helpers := (target.map Prod.snd).getD [] }
      else .error (.linkageOutsideBranch insn.mnemonic)
    else if tag = "GOTPCREL" then
      if isJump then
        if !o.indirect || m.hasOffset || !m.isRipRelative then .error (.gotBranch o.text)
        else
          let (target, helpers) := scope.branchTarget (m.symbol.getD "")
          .ok { operand := .symbol target, helpers }
      else
        (gotLoad scope insn i m).map fun (frames, helpers) =>
          { operand := .copied o, frames, helpers, last := true }
    else .error (.unknownTag tag o.text)

/-- The target of an instruction with two operands, seen from its first. -/
def targetOfFirst (insn : Instruction) (i : Nat) : Option Operand :=
  match insn.operands, i with
  | [_, target], 0 => some target
  | _, _ => none

/-- What becomes of the distance from a local label to the offset table: it is the distance from
a word to the table, plus that from the label to the word. -/
def sealGotDistance (scope : Scope) (insn : Instruction) (i : Nat) (anchor : String) :
    Except Unsupported OperandChange :=
  if insn.mnemonic != "movabsq" then .error .gotDistanceMnemonic
  else
    match targetOfFirst insn i with
    | none => .error .gotDistanceForm
    | some target =>
      let distance : Expr :=
        ⟨[.symbol Symbol.gotDelta, .other "-", .symbol (scope.localized anchor)]⟩
      .ok {
        operand := .memory (.ripRelative Symbol.gotDelta)
        mnemonic := some "movq"
        frames := [.afterwards
          (.spaced "addq" [.ofKind (.immediate (some '$') distance), .copied target])]
        helpers := [.gotDelta] }

/-- What becomes of the address of the offset table: it is the address of a word, plus the
distance from there to the table. -/
def sealGotAddress (insn : Instruction) (i : Nat) : Except Unsupported OperandChange :=
  if insn.mnemonic != "leaq" then .error .gotAddressMnemonic
  else
    match targetOfFirst insn i with
    | none => .error .gotAddressForm
    | some target =>
      let delta := Line.Operand.memory (.ripRelative Symbol.gotDelta)
      .ok {
        operand := delta
        frames := [.afterwards (.spaced "addq" [delta, .copied target])]
        helpers := [.gotDelta] }

/-- What becomes of an offset in the table: it is loaded from a word. -/
def sealGotOffset (scope : Scope) (insn : Instruction) (i : Nat) (o : Operand)
    (symbol : String) (fromTable : Bool) : Except Unsupported OperandChange :=
  if insn.mnemonic != "movabsq" then .error .gotOffsetMnemonic
  else
    match targetOfFirst insn i with
    | none => .error .gotOffsetForm
    | some target =>
      let name := scope.localized symbol
      .ok {
        operand := .copied o
        frames := [.loadGotOffset (Symbol.gotOffsetSlot name fromTable) (.copied target)]
        helpers := [.gotOffset name fromTable] }

/-- What becomes of a constant: it mentions local names only. -/
def sealImmediate (scope : Scope) (o : Operand) (sigil : Option Char) (value : Expr) :
    Except Unsupported OperandChange :=
  match value.symbols.find? fun name => !Symbol.isDotLocal name with
  | some name => .error (.absoluteReference name o.text)
  | none =>
    let mapped := value.mapSymbols scope.localized
    .ok {
      operand := .built (o.withKind (.immediate sigil mapped))
      changed := mapped != value }

/-- What becomes of operand `i`. -/
def sealOperand (scope : Scope) (insn : Instruction) (i : Nat) (o : Operand) :
    Except Unsupported OperandChange :=
  match o.kind with
  | .memory m => sealMemory scope insn i o m
  | .gotDistance anchor => sealGotDistance scope insn i anchor
  | .gotAddress => sealGotAddress insn i
  | .gotOffset symbol fromTable => sealGotOffset scope insn i o symbol fromTable
  | .immediate sigil value => sealImmediate scope o sigil value
  | _ => .ok { operand := .copied o, changed := false }

/-- What becomes of the operands from number `i` on, up to the last that plays a role. -/
def sealOperands (scope : Scope) (insn : Instruction) :
    Nat → List Operand → Except Unsupported (List OperandChange)
  | _, [] => .ok []
  | i, o :: os => do
    let change ← sealOperand scope insn i o
    if change.last then return [change]
    return change :: (← sealOperands scope insn (i + 1) os)

/-! ### Instructions -/

/-- The lines in the place of an instruction whose operands change. -/
def changedLines (insn : Instruction) (changes : List OperandChange) : List Line :=
  let mnemonic := (changes.filterMap (·.mnemonic)).getLast?.getD insn.mnemonic
  Frame.wrap (changes.flatMap (·.frames))
    [.instruction insn.modifiers mnemonic "\t" (changes.map (·.operand))]

/-- What is written for an instruction. -/
def sealInstruction (scope : Scope) (s : Statement) (insn : Instruction) :
    Except Unsupported Emission := do
  let changes ← sealOperands scope insn 0 insn.operands
  if changes.any (·.changed) then
    return .replace s (changedLines insn changes) (changes.flatMap (·.helpers))
  else return .copy s

end Hermetic.X86

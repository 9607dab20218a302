/-
Operands of AArch64.

* `Arm.isRegister`, `Arm.isModifier`: the spelling of registers, and of shifts and extensions;
* `Arm.relocation`, `Arm.indexed`, `Arm.symbolRef?`: the operands that hold addresses;
* `Arm.operand`: any operand.
-/
import Hermetic.Error
import Hermetic.Operand
import Hermetic.Operand.Offset
import Hermetic.Operand.Piece

namespace Hermetic.Arm

/-! ### Registers and modifiers -/

/-- The registers that have a name instead of a number. -/
def namedRegisters : List String :=
  ["sp", "wsp", "xzr", "wzr", "lr", "fp"]

/-- The letters of numbered registers. -/
def registerLetters : List Char :=
  ['x', 'w', 'q', 'd', 's', 'h', 'b', 'v', 'z', 'p']

/-- What follows an arrangement of vector elements, or nothing if there should be one and is
none. -/
def pastArrangement : List Char → Option (List Char)
  | '.' :: l =>
    match l.dropWhile Char.isDigit with
    | c :: rest => if c ∈ ['b', 'h', 's', 'd', 'q'] then some rest else none
    | [] => none
  | l => some l

/-- What follows an element number in brackets, or nothing if there should be one and is
none. -/
def pastElement : List Char → Option (List Char)
  | '[' :: l =>
    match l.takeWhile Char.isDigit, l.dropWhile Char.isDigit with
    | _ :: _, ']' :: rest => some rest
    | _, _ => none
  | l => some l

/-- What follows a mark for zeroing or merging. -/
def pastPredication : List Char → List Char
  | '/' :: 'z' :: l | '/' :: 'm' :: l => l
  | l => l

/-- Whether a text in lower case is a numbered register, with its arrangement, element and
predication. -/
def isNumberedRegister : List Char → Bool
  | [] => false
  | c :: l =>
    let digits := l.takeWhile Char.isDigit
    registerLetters.contains c && (digits.length == 1 || digits.length == 2) &&
      match (pastArrangement (l.dropWhile Char.isDigit)).bind pastElement with
      | some rest => (pastPredication rest).isEmpty
      | none => false

/-- Whether a text names a register, in any case. -/
def isRegister (l : List Char) : Bool :=
  let lower := l.map Char.toLower
  namedRegisters.contains (String.ofList lower) || isNumberedRegister lower

/-- The shifts and extensions. -/
def modifiers : List String :=
  ["lsl", "lsr", "asr", "ror", "msl", "uxtb", "uxth", "uxtw", "uxtx", "sxtb", "sxth", "sxtw",
    "sxtx"]

/-- Whether a text is a shift or an extension, in any case, perhaps with an amount. -/
def isModifier (l : List Char) : Bool :=
  match Text.words l with
  | [name] => modifiers.contains (String.ofList (name.map Char.toLower))
  | [name, amount] =>
    modifiers.contains (String.ofList (name.map Char.toLower)) && amount.head? == some '#'
  | _ => false

/-! ### Addresses -/

/-- The relocation that a text is, from its first colon on. -/
def relocation (l : List Char) (hash : Bool) : Except SyntaxFault Relocation :=
  let text := String.ofList l
  let spec := (l.drop 1).takeWhile (· != ':')
  match (l.drop 1).dropWhile (· != ':') with
  | [] => .error (.malformed .relocationSpecifier text)
  | _ :: rest =>
    let symbol := rest.takeWhile isSymbolChar
    if spec.isEmpty || !isSymbolName symbol then
      .error (.malformed .relocationSpecifier text)
    else
      let (offset, tail) := Offset.take (rest.dropWhile isSymbolChar)
      if tail.all Text.isBlank then
        .ok {
          hash
          spec := String.ofList spec
          symbol := String.ofList symbol
          offset := String.ofList offset }
      else .error (.malformed .relocationOffset text)

/-- The text between the brackets of an indexed reference, and whether its base register is
updated. -/
def unbracketed (l : List Char) : Option (List Char × Bool) :=
  match Text.before? [']', '!'] l, Text.before? [']'] l with
  | some inner, _ => some (inner.drop 1, true)
  | none, some inner => some (inner.drop 1, false)
  | none, none => none

/-- What follows the base register of an indexed reference. -/
def indexedRest (l : List Char) : Except SyntaxFault Indexed.Rest :=
  match l with
  | '#' :: ':' :: _ => (relocation (l.drop 1) true).map .relocation
  | ':' :: _ => (relocation l false).map .relocation
  | _ => .ok (.text (String.ofList l))

/-- The indexed reference that a text is. -/
def indexed (l : List Char) : Except SyntaxFault Indexed :=
  let fault := SyntaxFault.malformed .memoryOperand (String.ofList l)
  match unbracketed l with
  | none => .error fault
  | some (inner, writeback) =>
    match Piece.split inner with
    | [] => .error fault
    | base :: pieces =>
      if base.text.isEmpty then .error fault
      else
        let base := String.ofList base.text
        match pieces with
        | [] => .ok { base, writeback }
        | rest :: _ => do
          let rest ← indexedRest (Text.trim (Text.dropBytes rest.offset inner))
          return { base, rest := some rest, writeback }

/-- The symbol with offsets that a text is. -/
def symbolRef? (l : List Char) : Option MemoryRef :=
  if l.head?.any isSymbolStart then
    match Offset.take (l.dropWhile isSymbolChar) with
    | (offset, []) =>
      some {
        symbol := some (String.ofList (l.takeWhile isSymbolChar))
        offset := String.ofList offset }
    | _ => none
  else none

/-! ### Operands -/

/-- The kind of an operand. -/
def kind (l : List Char) : Except SyntaxFault Operand.Kind :=
  let text := String.ofList l
  match l with
  | '[' :: _ => (indexed l).map .indexed
  | '{' :: _ => .ok (.registerList text)
  | '#' :: ':' :: _ => (relocation (l.drop 1) true).map .relocation
  | '#' :: value => .ok (.immediate (some '#') (Expr.parse value))
  | ':' :: _ => (relocation l false).map .relocation
  | _ =>
    if isModifier l then .ok (.modifier text)
    else if isRegister l then .ok (.register text)
    else if isNumericReference l then .ok (.localLabel text)
    else if l.head?.any fun c => c.isDigit || c == '-' then
      .ok (.immediate none (Expr.parse l))
    else
      match symbolRef? l with
      | some m => .ok (.memory m)
      | none => .ok (.raw text)

/-- The operand that a text is. -/
def operand (l : List Char) : Except SyntaxFault Operand := do
  return { text := String.ofList l, kind := ← kind l }

end Hermetic.Arm

/-
Operands of x86-64, in AT&T syntax.

* `X86.isRegister`, `X86.hasSegment`: the spelling of registers and segment overrides;
* `X86.immediate`: constants, and the two forms that refer to the offset table;
* `X86.memoryRef`: memory references, part by part;
* `X86.peel`: the decorations after an operand;
* `X86.operand`: any operand.
-/
import Hermetic.Error
import Hermetic.Operand
import Hermetic.Operand.Offset

namespace Hermetic.X86

/-! ### Registers -/

/-- Whether a text names a register: `%` and letters or digits, perhaps with a number in
parentheses. -/
def isRegister : List Char → Bool
  | '%' :: name =>
    let stem := name.takeWhile (· != '(')
    !stem.isEmpty && stem.all Char.isAlphanum &&
      match name.dropWhile (· != '(') with
      | [] => true
      | _ :: index =>
        match index.reverse with
        | ')' :: digits => !digits.isEmpty && digits.all Char.isDigit
        | _ => false
  | _ => false

/-- Whether a text starts with a segment override: `%`, letters and a colon. -/
def hasSegment : List Char → Bool
  | '%' :: l =>
    !(l.takeWhile Char.isAlpha).isEmpty && (l.dropWhile Char.isAlpha).head? == some ':'
  | _ => false

/-! ### Constants -/

/-- The constant after a `$`. -/
def immediate (l : List Char) : Operand.Kind :=
  match Text.after? (gotName ++ "-").toList l with
  | some anchor =>
    if Symbol.isDotLocal (String.ofList anchor) && isSymbolName anchor then
      .gotDistance (String.ofList anchor)
    else .immediate (some '$') (Expr.parse l)
  | none =>
    match (Text.before? "@GOTOFF".toList l).filter isSymbolName with
    | some symbol => .gotOffset (String.ofList symbol) true
    | none =>
      match (Text.before? "@GOT".toList l).filter isSymbolName with
      | some symbol => .gotOffset (String.ofList symbol) false
      | none => .immediate (some '$') (Expr.parse l)

/-! ### Memory references -/

/-- Whether a symbol's name starts here. -/
def startsSymbol (l : List Char) : Bool :=
  l.head?.any isSymbolStart

/-- The bracketed part of a memory reference, from the text between the brackets. -/
def baseIndex? (inner : List Char) : Option BaseIndex :=
  let parts := (inner.splitOn ',').map Text.trim
  let part (i : Nat) : Option (List Char) := parts[i]?.filter (!·.isEmpty)
  if parts.length ≤ 3 && (part 0).all isRegister && (part 1).all isRegister &&
      (part 2).all (·.all Char.isDigit) then
    some {
      text := "(" ++ String.ofList inner ++ ")"
      base := (part 0).map String.ofList
      index := (part 1).map String.ofList
      scale := (part 2).map String.ofList }
  else none

/-- The segment override at the front of a reference, and what follows it.  A reference that
starts like a register has one. -/
def takeSegment (l : List Char) : Except OperandPart (Option String × List Char) :=
  match l with
  | '%' :: _ =>
    match l.dropWhile (· != ':') with
    | [] => .error .segmentOverride
    | _ :: rest => .ok (some (String.ofList (l.takeWhile (· != ':'))), rest)
  | _ => .ok (none, l)

/-- The symbol at the front of a reference with its offsets and its relocation tag, and what
follows them. -/
def takeSymbol (m : MemoryRef) (l : List Char) : Except OperandPart (MemoryRef × List Char) :=
  let name := l.takeWhile isSymbolChar
  let (offset, rest) := Offset.take (l.dropWhile isSymbolChar)
  let m := { m with symbol := some (String.ofList name), offset := String.ofList offset }
  match rest with
  | '@' :: rest =>
    let tag := rest.takeWhile fun c => c.isAlphanum || c == '_'
    if tag.isEmpty then .error .relocationTag
    else
      let (offset, rest) := Offset.take (rest.drop tag.length)
      .ok ({ m with tag := some (String.ofList tag), tagOffset := String.ofList offset }, rest)
  | _ => .ok (m, rest)

/-- The offsets and the symbol at the front of a reference, and what follows them.  Offsets that
a plus joins to a symbol stand before it; others stand alone. -/
def takeDisplacement (m : MemoryRef) (l : List Char) :
    Except OperandPart (MemoryRef × List Char) :=
  match Offset.take l with
  | ([], rest) => if startsSymbol rest then takeSymbol m rest else .ok (m, rest)
  | (offset, rest) =>
    match rest with
    | '+' :: after =>
      if startsSymbol after then takeSymbol { m with lead := some (String.ofList offset) } after
      else .ok ({ m with offset := String.ofList offset }, rest)
    | _ => .ok ({ m with offset := String.ofList offset }, rest)

/-- The bracketed part at the front of a text, and what follows it. -/
def takeBase (m : MemoryRef) (l : List Char) : Except OperandPart (MemoryRef × List Char) :=
  match l with
  | '(' :: inner =>
    match inner.dropWhile (· != ')') with
    | [] => .error .memoryOperand
    | _ :: rest =>
      match baseIndex? (inner.takeWhile (· != ')')) with
      | some base => .ok ({ m with base := some base }, rest)
      | none => .error .memoryOperand
  | _ => .ok (m, l)

/-- The parts of a memory reference, and what follows them. -/
def takeMemory (l : List Char) : Except OperandPart (MemoryRef × List Char) := do
  let (segment, l) ← takeSegment l
  let (m, l) ← takeDisplacement { segment } l
  takeBase m l

/-- The memory reference that a text is. -/
def memoryRef (l : List Char) : Except SyntaxFault MemoryRef :=
  let text := String.ofList l
  match takeMemory l with
  | .error part => .error (.malformed part text)
  | .ok (m, rest) =>
    if !rest.all Text.isBlank then
      .error (.strayInOperand (String.ofList (Text.trim rest)) text)
    else if m.symbol.isNone && m.base.isNone && m.offset.isEmpty then
      .error (.malformed .operand text)
    else .ok m

/-! ### Operands -/

/-- A text, backwards, without the groups in braces that end it, and these groups, in front of
others. -/
def peel (decorators : List Char) : List Char → List Char × List Char
  | '}' :: l =>
    match _h : l.dropWhile (· != '{') with
    | [] => ('}' :: l, decorators)
    | _ :: rest =>
      peel ('{' :: ((l.takeWhile (· != '{')).reverse ++ '}' :: decorators))
        (rest.dropWhile Text.isBlank)
  | l => (l, decorators)
termination_by l => l.length
decreasing_by
  have h₁ := (List.dropWhile_suffix (l := rest) Text.isBlank).length_le
  have h₂ := (List.dropWhile_suffix (l := l) (· != '{')).length_le
  rw [_h] at h₂
  simp only [List.length_cons] at h₂ ⊢
  omega

/-- An operand without the decorations after it, and these.  An operand in braces has none. -/
def undecorated (l : List Char) : List Char × List Char :=
  match l with
  | '{' :: _ => (l, [])
  | _ =>
    let (body, decorators) := peel [] l.reverse
    (body.reverse, decorators)

/-- The kind of an operand without indirection and decorations. -/
def kind (l : List Char) : Except SyntaxFault Operand.Kind :=
  match l with
  | '{' :: _ => .ok (.raw (String.ofList l))
  | '$' :: value => .ok (immediate value)
  | _ =>
    if l = (gotName ++ "(%rip)").toList then .ok .gotAddress
    else if isNumericReference l then .ok (.localLabel (String.ofList l))
    else if l.head? = some '%' ∧ hasSegment l = false then
      if isRegister l then .ok (.register (String.ofList l))
      else .error (.malformed .register (String.ofList l))
    else (memoryRef l).map .memory

/-- The operand that a text is. -/
def operand (l : List Char) : Except SyntaxFault Operand := do
  let (indirect, body) := match l with
    | '*' :: rest => (true, Text.trimStart rest)
    | _ => (false, l)
  let (body, decorators) := undecorated body
  return {
    text := String.ofList l
    indirect
    kind := ← kind body
    decorators := String.ofList decorators }

end Hermetic.X86

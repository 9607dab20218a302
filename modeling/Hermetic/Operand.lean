/-
The operands of instructions, and how they are written.

* `BaseIndex`, `MemoryRef`: a memory reference of x86-64, which is also the form of a bare symbol;
* `Relocation`, `Indexed`: the operands of AArch64 that form addresses;
* `Operand.Kind`, `Operand`: an operand of either architecture, with the text it was read from;
* `Operand.display`: an operand written from its parts.
-/
import Hermetic.Expr

namespace Hermetic

/-! ### Memory references of x86-64 -/

/-- The bracketed part of a memory reference: its text with the brackets, and its registers and
scale as far as they are given. -/
structure BaseIndex where
  text : String := ""
  base : Option String := none
  index : Option String := none
  scale : Option String := none
deriving DecidableEq, Repr, Inhabited

namespace BaseIndex

/-- Whether the address is taken relative to the instruction pointer. -/
def isRipRelative (b : BaseIndex) : Bool :=
  b.base == some "%rip" && b.index.isNone

/-- The bracketed part that takes an address relative to the instruction pointer. -/
def rip : BaseIndex := { text := "(%rip)", base := some "%rip" }

/-- The bracketed part that holds one register. -/
def ofRegister (register : String) : BaseIndex :=
  { text := "(" ++ register ++ ")", base := some register }

@[simp] theorem isRipRelative_rip : rip.isRipRelative = true := rfl

end BaseIndex

/-- A memory reference: segment, offsets before a symbol, the symbol, offsets after it, its
relocation tag, offsets after the tag, and the bracketed part, as far as they are given. -/
structure MemoryRef where
  segment : Option String := none
  lead : Option String := none
  symbol : Option String := none
  offset : String := ""
  tag : Option String := none
  tagOffset : String := ""
  base : Option BaseIndex := none
deriving DecidableEq, Repr, Inhabited

namespace MemoryRef

/-- Whether the address is taken relative to the instruction pointer. -/
def isRipRelative (m : MemoryRef) : Bool :=
  m.base.any BaseIndex.isRipRelative

/-- Whether an offset is given anywhere. -/
def hasOffset (m : MemoryRef) : Bool :=
  m.lead.isSome || !m.offset.isEmpty || !m.tagOffset.isEmpty

/-- A memory reference is written as its parts in order. -/
def display (m : MemoryRef) : String :=
  (match m.segment with | some s => s ++ ":" | none => "") ++
  (match m.lead with | some s => s ++ "+" | none => "") ++
  m.symbol.getD "" ++
  m.offset ++
  (match m.tag with | some t => "@" ++ t ++ m.tagOffset | none => "") ++
  (match m.base with | some b => b.text | none => "")

/-- The reference that is a bare symbol. -/
def ofSymbol (name : String) : MemoryRef := { symbol := some name }

/-- The reference to a symbol relative to the instruction pointer. -/
def ripRelative (name : String) : MemoryRef :=
  { symbol := some name, base := some .rip }

/-- The reference to what a register points at, some bytes on. -/
def ofRegister (register : String) (offset : String := "") : MemoryRef :=
  { offset, base := some (.ofRegister register) }

end MemoryRef

/-! ### Address operands of AArch64 -/

/-- A symbol with a specifier that names a part of its address. -/
structure Relocation where
  hash : Bool := false
  spec : String
  symbol : String
  offset : String := ""
deriving DecidableEq, Repr, Inhabited

/-- A relocation is written with its specifier between colons. -/
def Relocation.display (r : Relocation) : String :=
  (if r.hash then "#" else "") ++ ":" ++ r.spec ++ ":" ++ r.symbol ++ r.offset

/-- What follows the base register of an indexed reference. -/
inductive Indexed.Rest
  | text (text : String)
  | relocation (relocation : Relocation)
deriving DecidableEq, Repr

/-- What follows a base register, as it is written. -/
def Indexed.Rest.display : Indexed.Rest → String
  | text t => t
  | relocation r => r.display

/-- A reference in square brackets, and whether the base register is updated. -/
structure Indexed where
  base : String
  rest : Option Indexed.Rest := none
  writeback : Bool := false
deriving DecidableEq, Repr, Inhabited

/-- An indexed reference is written in square brackets. -/
def Indexed.display (x : Indexed) : String :=
  "[" ++ x.base ++
  (match x.rest with | some r => ", " ++ r.display | none => "") ++
  "]" ++ (if x.writeback then "!" else "")

/-! ### Operands -/

/-- The kinds of operand of both architectures. -/
inductive Operand.Kind
  /-- A register. -/
  | register (name : String)
  /-- A constant, after the sign that marks it in its dialect. -/
  | immediate (sigil : Option Char) (value : Expr)
  /-- The nearest numeric label before or after. -/
  | localLabel (text : String)
  /-- A memory reference or a bare symbol. -/
  | memory (reference : MemoryRef)
  /-- The distance from a local label to the offset table (x86-64). -/
  | gotDistance (anchor : String)
  /-- The place of a symbol in the offset table, or its distance to the table (x86-64). -/
  | gotOffset (symbol : String) (fromTable : Bool)
  /-- The address of the offset table (x86-64). -/
  | gotAddress
  /-- Registers in braces (AArch64). -/
  | registerList (text : String)
  /-- A shift or an extension (AArch64). -/
  | modifier (text : String)
  /-- A part of the address of a symbol (AArch64). -/
  | relocation (relocation : Relocation)
  /-- A reference in square brackets (AArch64). -/
  | indexed (reference : Indexed)
  /-- Anything else. -/
  | raw (text : String)
deriving DecidableEq, Repr

/-- The name of the offset table. -/
def gotName : String := "_GLOBAL_OFFSET_TABLE_"

namespace Operand

/-- How a kind is written. -/
def Kind.display : Kind → String
  | register s | localLabel s | registerList s | modifier s | raw s => s
  | immediate sigil value =>
      (match sigil with | some c => c.toString | none => "") ++ value.display
  | memory m => m.display
  | gotDistance anchor => "$" ++ gotName ++ "-" ++ anchor
  | gotOffset symbol fromTable => "$" ++ symbol ++ "@" ++ (if fromTable then "GOTOFF" else "GOT")
  | gotAddress => gotName ++ "(%rip)"
  | relocation r => r.display
  | indexed x => x.display

end Operand

/-- An operand: the text it was read from, whether a `*` marks it as indirect, its kind, and the
decorations in braces that follow it. -/
structure Operand where
  text : String
  indirect : Bool := false
  kind : Operand.Kind
  decorators : String := ""
deriving DecidableEq, Repr

namespace Operand

/-- An operand is written from its parts; its text plays no role. -/
def display (o : Operand) : String :=
  (if o.indirect then "*" else "") ++ o.kind.display ++ o.decorators

/-- The operand of a kind, with the text that it is written as. -/
def ofKind (kind : Kind) : Operand :=
  { text := kind.display, kind }

/-- The operand with another kind, and else as it was. -/
def withKind (o : Operand) (kind : Kind) : Operand :=
  { o with kind }

/-- The name of the register that an operand is. -/
def register? (o : Operand) : Option String :=
  match o.kind with
  | .register name => some name
  | _ => none

/-- The memory reference that an operand is. -/
def memory? (o : Operand) : Option MemoryRef :=
  match o.kind with
  | .memory m => some m
  | _ => none

@[simp] theorem display_ofKind (kind : Kind) : (ofKind kind).display = kind.display := by
  simp [ofKind, display]

end Operand

end Hermetic

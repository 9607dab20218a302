/-
Lines of assembly that are written, not copied.

* `Line.Operand`: an operand of a written instruction, copied from the source or built;
* `Line`: a label, a directive or an instruction on a line of its own;
* `Line.text`, `Line.textAll`: the text of lines;
* `Line.labels`: the names that lines define.
-/
import Hermetic.Statement

namespace Hermetic

/-- An operand of a written instruction. -/
inductive Line.Operand
  /-- An operand of the source, as it is spelled there. -/
  | copied (operand : Hermetic.Operand)
  /-- An operand put together from parts. -/
  | built (operand : Hermetic.Operand)
deriving DecidableEq, Repr

namespace Line.Operand

/-- How an operand is written. -/
def text : Line.Operand → String
  | copied o => o.text
  | built o => o.display

/-- The operand of a kind. -/
def ofKind (kind : Hermetic.Operand.Kind) : Line.Operand :=
  built (.ofKind kind)

/-- The operand that is a register. -/
def register (name : String) : Line.Operand :=
  ofKind (.register name)

/-- The operand that is a memory reference. -/
def memory (m : MemoryRef) : Line.Operand :=
  ofKind (.memory m)

/-- The operand that is a bare symbol. -/
def symbol (name : String) : Line.Operand :=
  memory (.ofSymbol name)

@[simp] theorem text_ofKind (kind : Hermetic.Operand.Kind) : (ofKind kind).text = kind.display :=
  Hermetic.Operand.display_ofKind kind

end Line.Operand

/-- A line of assembly. -/
inductive Line
  /-- A label. -/
  | label (name : String)
  /-- A directive, perhaps after a tab, with blank before its arguments. -/
  | directive (indented : Bool) (name gap : String) (arguments : List String)
  /-- An instruction, with the words that change it, and with blank before its operands. -/
  | instruction (modifiers : List String) (mnemonic gap : String) (operands : List Line.Operand)
  /-- The instruction where indirect branches may land (AArch64). -/
  | landingPad
deriving DecidableEq, Repr

namespace Line

/-- The text of a line. -/
def text : Line → String
  | label name => name ++ ":\n"
  | directive indented name gap arguments =>
      (if indented then "\t" else "") ++ name ++
        (if arguments.isEmpty then "" else gap ++ ", ".intercalate arguments) ++ "\n"
  | instruction modifiers mnemonic gap operands =>
      Instruction.line modifiers mnemonic gap (operands.map Operand.text)
  | landingPad => "\thint #34 // bti c\n"

/-- The text of some lines. -/
def textAll (lines : List Line) : String :=
  String.join (lines.map text)

/-- The names that some lines define as labels. -/
def labels (lines : List Line) : List String :=
  lines.filterMap fun
    | label name => some name
    | _ => none

/-- An instruction with a space before its operands. -/
def spaced (mnemonic : String) (operands : List Line.Operand) : Line :=
  instruction [] mnemonic " " operands

/-- An instruction with a tab before its operands. -/
def tabbed (mnemonic : String) (operands : List Line.Operand) : Line :=
  instruction [] mnemonic "\t" operands

/-- A directive at the start of a line, with a space before its arguments. -/
def plain (name : String) (arguments : List String) : Line :=
  directive false name " " arguments

/-- A directive after a tab, with a space before its arguments. -/
def data (name : String) (arguments : List String) : Line :=
  directive true name " " arguments

/-- A directive after a tab, with a tab before its arguments. -/
def column (name : String) (arguments : List String) : Line :=
  directive true name "\t" arguments

end Line

end Hermetic

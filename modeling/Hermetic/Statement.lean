/-
Statements.

A statement keeps the text that it was read from, so that the statements of a file make up the
file, and a statement that needs no change is copied.

* `Label`, `Instruction`, `Statement.Kind`, `Statement`: what a text consists of;
* `SourceFile`: a text with its name and its position among the inputs;
* `Statement.oneLine`: a statement as it is quoted in a comment;
* `Instruction.render`: an instruction written anew.
-/
import Hermetic.Operand
import Hermetic.Source.Span

namespace Hermetic

/-! ### Labels and instructions -/

/-- A label. -/
inductive Label
  /-- A name that the linker sees. -/
  | symbol (name : String)
  /-- A name that is local to its file. -/
  | dotLocal (name : String)
  /-- A number, which may be used again. -/
  | numeric (name : String)
deriving DecidableEq, Repr

/-- The name of a label. -/
def Label.name : Label → String
  | symbol n | dotLocal n | numeric n => n

/-- An instruction: the words before its mnemonic that change it, its mnemonic, and its
operands. -/
structure Instruction where
  modifiers : List String := []
  mnemonic : String
  operands : List Operand := []
deriving DecidableEq, Repr

/-- A line that holds an instruction: a tab, the words before the mnemonic, the mnemonic, and
after some blank the operands. -/
def Instruction.line (modifiers : List String) (mnemonic gap : String) (operands : List String) :
    String :=
  "\t" ++ String.join (modifiers.map (· ++ " ")) ++ mnemonic ++
    (if operands.isEmpty then "" else gap ++ ", ".intercalate operands) ++ "\n"

/-- The line that holds an instruction with another mnemonic and other operands. -/
def Instruction.render (i : Instruction) (mnemonic : String) (operands : List String) : String :=
  Instruction.line i.modifiers mnemonic "\t" operands

/-! ### Statements -/

/-- The kinds of statement. -/
inductive Statement.Kind
  /-- Blanks, perhaps with a terminator. -/
  | blank
  /-- A comment on a line of its own. -/
  | comment
  /-- A directive that makes symbols visible. -/
  | visibility (arguments : String)
  /-- A directive that tells a source file or a line of it. -/
  | lineInfo (directive arguments : String)
  /-- A directive whose arguments may mention symbols. -/
  | symbolic (directive : String) (arguments : List Expr)
  /-- A directive that binds a symbol to a value. -/
  | binding (directive name : String) (value : Expr)
  /-- Any other directive. -/
  | directive (name arguments : String)
  /-- A label. -/
  | label (label : Label)
  /-- An instruction. -/
  | instruction (instruction : Instruction)
deriving DecidableEq, Repr

/-- A statement: its kind, its text from the end of the one before, and where it begins after
blanks and comments. -/
structure Statement where
  kind : Statement.Kind
  text : String
  span : Span
deriving DecidableEq, Repr

/-- A statement on one line: its lines without the blanks around them, with spaces between. -/
def Statement.oneLine (s : Statement) : String :=
  let text := Text.trim s.text.toList
  let lines := ((Text.lines text).map Text.trim).filter (!·.isEmpty)
  " ".intercalate (lines.map String.ofList)

/-! ### Files -/

/-- The statements of an input, with its name and its position among the inputs. -/
structure SourceFile where
  path : String
  index : Nat
  statements : List Statement
deriving DecidableEq, Repr

/-- The text of a file, put together from its statements. -/
def SourceFile.text (f : SourceFile) : String :=
  String.join (f.statements.map Statement.text)

end Hermetic

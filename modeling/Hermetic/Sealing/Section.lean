/-
Sections of a module.

A module is one text: read-only data moves into it, writable data is refused, and storage that is
zero at the start is kept apart.

* `Section.name`, `Section.type`: the section that a directive names, and its type;
* `Section.entersBss`, `Section.leavesBss`: the directives after which statements lie in
  zero-initialised storage, and those that end it.
-/
import Hermetic.Operand.Piece
import Hermetic.Statement

namespace Hermetic.Section

/-- A text without the quotes at its ends. -/
def unquoted (l : List Char) : List Char :=
  ((l.dropWhile (· == '"')).reverse.dropWhile (· == '"')).reverse

/-- The section that the arguments of a directive name. -/
def name (arguments : String) : List Char :=
  match Piece.split arguments.toList with
  | [] => []
  | p :: _ => unquoted p.text

/-- The type of a section: its name up to the second point.  All debug sections have one type. -/
def type (name : List Char) : Option String :=
  match name with
  | '.' :: tail =>
    let type := String.ofList ('.' :: tail.takeWhile (· != '.'))
    some (if Text.startsWith ".debug_" type then ".debug" else type)
  | _ => none

/-- Whether statements after this one lie in zero-initialised storage. -/
def entersBss : Statement.Kind → Bool
  | .directive directive arguments =>
    let lower := directive.toLower
    lower == ".bss" || (lower == ".section" && type (name arguments) == some ".bss")
  | _ => false

/-- Whether statements from this one on no longer lie in zero-initialised storage. -/
def leavesBss : Statement.Kind → Bool
  | .directive directive _ => [".text", ".section", ".data"].contains directive.toLower
  | _ => false

end Hermetic.Section

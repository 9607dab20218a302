/-
What is written for a statement.

* `Chunk`: a piece of the output, copied from the source or made;
* `Emission`: the pieces written for a statement, and the helpers that they need;
* `Output`: the text written so far, which knows whether it stands at the start of a line;
* `Output.text_put`, `Output.put_append`: what a text adds to it, at once or in two parts.
-/
import Hermetic.Arch
import Hermetic.Helper
import Hermetic.Line

namespace Hermetic

/-! ### Pieces -/

/-- A piece of the output. -/
inductive Chunk
  /-- Text that stands in the source, or is spelled like it. -/
  | copied (text : String)
  /-- A comment that quotes the statement which is replaced. -/
  | quoted (statement : Statement)
  /-- A line. -/
  | line (line : Line)
  /-- A label on a new line, which is left open. -/
  | openLabel (name : String)
deriving DecidableEq, Repr

/-- The pieces written for a statement, and the helpers that they need. -/
structure Emission where
  chunks : List Chunk := []
  helpers : List Helper := []
deriving DecidableEq, Repr, Inhabited

namespace Emission

/-- The statement as it is. -/
def copy (s : Statement) : Emission where
  chunks := [.copied s.text]

/-- Lines in the place of a statement, which is quoted in front of them. -/
def replace (s : Statement) (lines : List Line) (helpers : List Helper := []) : Emission where
  chunks := .quoted s :: lines.map .line
  helpers := helpers

end Emission

/-! ### Output -/

/-- The text written so far, and whether the next character starts a line. -/
structure Output where
  text : String := ""
  atLineStart : Bool := true
deriving DecidableEq, Repr, Inhabited

namespace Output

/-- Whether a text that follows another leaves the start of a line. -/
def leavesLineStart (before : Bool) (text : String) : Bool :=
  match text.toList.getLast? with
  | none => before
  | some c => c == '\n'

/-- The output with more text. -/
def put (o : Output) (text : String) : Output where
  text := o.text ++ text
  atLineStart := leavesLineStart o.atLineStart text

/-- The output that starts with a text. -/
def ofString (text : String) : Output :=
  ({} : Output).put text

/-- The output at the start of a line, with a line feed if it was not there. -/
def freshLine (o : Output) : Output :=
  if o.atLineStart then o else o.put "\n"

/-- The output with a piece.  A comment starts on a line of its own. -/
def add (arch : Arch) (o : Output) : Chunk → Output
  | .copied text => o.put text
  | .quoted s => o.freshLine.put (arch.leader ++ " WAS " ++ s.oneLine ++ "\n")
  | .line l => o.put l.text
  | .openLabel name => o.put ("\n" ++ name ++ ":")

/-- The output with some pieces. -/
def addAll (arch : Arch) (o : Output) (chunks : List Chunk) : Output :=
  chunks.foldl (add arch) o

@[simp] theorem text_put (o : Output) (text : String) : (o.put text).text = o.text ++ text := rfl

theorem leavesLineStart_append (before : Bool) (s t : String) :
    leavesLineStart before (s ++ t) = leavesLineStart (leavesLineStart before s) t := by
  unfold leavesLineStart
  rw [String.toList_append, List.getLast?_append]
  cases t.toList.getLast? <;> simp

/-- What is put in two parts might as well be put at once. -/
theorem put_append (o : Output) (s t : String) : o.put (s ++ t) = (o.put s).put t := by
  simp [put, leavesLineStart_append, String.append_assoc]

end Output

end Hermetic

/-
Places in source text.

* `Span`: a stretch of one text, with the line and column where it begins;
* `Location`: a span together with the file that it lies in, and how both are written.
-/

namespace Hermetic

/-- A stretch of a text: the line and the column of its first byte, both counted from one, the
number of bytes before it and the number of bytes in it.  Line zero marks no place. -/
structure Span where
  line : Nat := 0
  col : Nat := 0
  offset : Nat := 0
  len : Nat := 0
deriving DecidableEq, Repr, Inhabited

namespace Span

/-- The span that marks no place. -/
def nowhere : Span := {}

/-- Whether a span marks no place. -/
def isNowhere (s : Span) : Bool :=
  s.line == 0

/-- A span is written as its line and column. -/
def display (s : Span) : String :=
  toString s.line ++ ":" ++ toString s.col

@[simp] theorem isNowhere_nowhere : nowhere.isNowhere = true := rfl

end Span

/-- A span of a named file.  The empty name marks no file. -/
structure Location where
  file : String := ""
  span : Span := {}
deriving DecidableEq, Repr, Inhabited

namespace Location

/-- A location is written as the parts of it that are known. -/
def display (l : Location) : String :=
  match l.file.isEmpty, l.span.isNowhere with
  | true, true => "<unknown>"
  | true, false => l.span.display
  | false, true => l.file
  | false, false => l.file ++ ":" ++ l.span.display

/-- A location with the parts that are not known taken from elsewhere. -/
def orElse (l : Location) (file : String) (span : Span) : Location where
  file := if l.file.isEmpty then file else l.file
  span := if l.span.isNowhere then span else l.span

end Location

end Hermetic

/-
A text read by bytes, one request at a time.

A session holds a text, a cursor in it, and the places that were marked.  It answers requests,
and a request that fails leaves the cursor where the failure was found.

* `Session.Request`, `Session.Answer`: what may be asked, and what is answered;
* `Session.step`: one request answered;
* `Session.run`: the requests of a list answered in turn, each with the cursor after it.
-/
import Hermetic.Source.Cursor

namespace Hermetic

/-- A text, a cursor in it, and the cursors that were marked, in order. -/
structure Session where
  source : List UInt8
  cursor : Cursor UInt8
  marks : List (Cursor UInt8) := []

namespace Session

/-- What may be asked of a session. -/
inductive Request
  | bump
  | peek
  | peekAt (n : Nat)
  | atEnd
  | eat (text : String)
  | rest
  | slice (start stop : Nat)
  | here
  | mark
  | reset (mark : Nat)
  | spanSince (mark : Nat)
  | takeSymbol
  | takeDigits
  | takeUntil (stops : String)
  | skipSpace
  | skipBlockComment
  | takeLine
  | takeQuoted
  | describeNext
deriving DecidableEq, Repr

/-- What a session answers. -/
inductive Answer
  | nothing
  | byte (byte : UInt8)
  | flag (flag : Bool)
  | text (text : String)
  | span (span : Span)
  | index (index : Nat)
deriving DecidableEq, Repr

/-- A byte, if there is one, as an answer. -/
def Answer.ofByte? : Option UInt8 → Answer
  | some b => byte b
  | none => nothing

/-- The session at the start of a text. -/
def ofString (text : String) : Session where
  source := Text.Utf8.encode text
  cursor := Cursor.ofString text

/-- The text from one byte to another, or the empty one if it does not lie there. -/
def slice (s : Session) (start stop : Nat) : String :=
  if start ≤ stop ∧ stop ≤ s.source.length then
    SourceUnit.text ((s.source.take stop).drop start)
  else ""

/-- An answer with a cursor to go on from. -/
def moved (s : Session) (answer : Answer × Cursor UInt8) : Except Error Answer × Session :=
  (.ok answer.1, { s with cursor := answer.2 })

/-- An answer that leaves the cursor where it is. -/
def stay (s : Session) (answer : Answer) : Except Error Answer × Session :=
  (.ok answer, s)

/-- An attempt with the answer that it gives if it succeeds. -/
def tried {β : Type} (s : Session) (answer : β → Answer)
    (outcome : Except Error β × Cursor UInt8) : Except Error Answer × Session :=
  (outcome.1.map answer, { s with cursor := outcome.2 })

/-- One request answered.  A mark that was not made stands for the cursor itself. -/
def step (s : Session) : Request → Except Error Answer × Session
  | .bump => s.moved (.ofByte? s.cursor.peek, s.cursor.bump)
  | .peek => s.stay (.ofByte? s.cursor.peek)
  | .peekAt n => s.stay (.ofByte? (s.cursor.peekAt n))
  | .atEnd => s.stay (.flag s.cursor.atEnd)
  | .eat text => s.moved ((s.cursor.eat text).map .flag id)
  | .rest => s.stay (.text (SourceUnit.text s.cursor.rest))
  | .slice start stop => s.stay (.text (s.slice start stop))
  | .here => s.stay (.span s.cursor.here)
  | .mark => (.ok (.index s.marks.length), { s with marks := s.marks ++ [s.cursor] })
  | .reset mark => s.moved (.nothing, (s.marks[mark]?).getD s.cursor)
  | .spanSince mark => s.stay (.span (((s.marks[mark]?).getD s.cursor).spanTo s.cursor))
  | .takeSymbol => s.moved ((s.cursor.takeWhile isSymbolChar).map .text id)
  | .takeDigits => s.moved ((s.cursor.takeWhile Char.isDigit).map .text id)
  | .takeUntil stops =>
      let bytes := (Text.Utf8.encode stops).map SourceUnit.char
      s.moved ((s.cursor.takeWhile fun c => !bytes.contains c).map .text id)
  | .skipSpace => s.tried (fun _ => .nothing) s.cursor.skipSpace
  | .skipBlockComment => s.tried (fun _ => .nothing) s.cursor.skipBlockComment
  | .takeLine => s.moved (s.cursor.takeLine.map .text id)
  | .takeQuoted => s.tried .text s.cursor.takeQuoted
  | .describeNext => s.stay (.text s.cursor.describeNext)

/-- The answers to the requests of a list, each with the cursor after it. -/
def run (s : Session) : List Request → List (Except Error Answer × Cursor UInt8)
  | [] => []
  | request :: requests =>
    let (answer, next) := s.step request
    (answer, next.cursor) :: next.run requests

end Session

end Hermetic

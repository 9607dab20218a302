/-
The programs that may preprocess a source.

No other program is run from here, and what each of these prints depends on its words only.

* `Escape.Rules`, `Escape.expand`: a text with its backslash escapes read;
* `Tool`, `Tool.named?`: the programs;
* `Tool.run`: what a program prints, and how it ends.
-/
import Hermetic.Text.Blank
import Hermetic.Text.Utf8

namespace Hermetic.CommandLine

/-! ### Escapes -/

namespace Escape

/-- Where programs differ in the escapes that they read. -/
structure Rules where
  /-- Whether a zero may stand before the octal digits. -/
  leadingZero : Bool := false
  /-- Whether a quotation mark may be escaped. -/
  quotationMark : Bool := false
  /-- Whether hexadecimal digits have to follow the letter that announces them. -/
  needsDigits : Bool := false
  /-- Whether a percent sign starts a directive. -/
  directives : Bool := false
deriving DecidableEq, Repr

/-- Why no more of a text is read. -/
inductive Finish
  /-- It is at its end. -/
  | complete
  /-- An escape asks for it. -/
  | stopped
  /-- Something in it has no meaning. -/
  | malformed (complaint : List UInt8)
deriving DecidableEq, Repr

/-- The bytes that a text stands for, and why they end. -/
structure Expansion where
  bytes : List UInt8 := []
  finish : Finish := .complete
deriving DecidableEq, Repr

/-- An expansion with bytes before it. -/
def Expansion.after (bytes : List UInt8) (e : Expansion) : Expansion :=
  { e with bytes := bytes ++ e.bytes }

/-- The byte of an escape of one letter. -/
def ofLetter? : Char → Option UInt8
  | 'a' => some 7
  | 'b' => some 8
  | 'e' => some 27
  | 'f' => some 12
  | 'n' => some 10
  | 'r' => some 13
  | 't' => some 9
  | 'v' => some 11
  | '\\' => some 92
  | _ => none

/-- The value of an octal digit. -/
def octalDigit? (c : Char) : Option Nat :=
  if '0' ≤ c && c ≤ '7' then some (c.toNat - '0'.toNat) else none

/-- The value of a hexadecimal digit. -/
def hexDigit? (c : Char) : Option Nat :=
  if '0' ≤ c && c ≤ '9' then some (c.toNat - '0'.toNat)
  else if 'a' ≤ c && c ≤ 'f' then some (c.toNat - 'a'.toNat + 10)
  else if 'A' ≤ c && c ≤ 'F' then some (c.toNat - 'A'.toNat + 10)
  else none

/-- The digits at the start of a text, but no more than some number of them. -/
def leadingDigits (value? : Char → Option Nat) : Nat → List Char → List Nat
  | n + 1, c :: l =>
    match value? c with
    | some d => d :: leadingDigits value? n l
    | none => []
  | _, _ => []

/-- The byte that some digits are, of which what does not fit is left out. -/
def byte (base : Nat) (digits : List Nat) : UInt8 :=
  (digits.foldl (fun n d => n * base + d) 0).toUInt8

/-- The complaint about a percent sign and what follows it, up to the letter that would say how
a word is printed. -/
def directiveComplaint (l : List Char) : List UInt8 :=
  let isModifier (c : Char) : Bool := "'-+ #I0123456789.*lLhjtz".toList.contains c
  let letter := Text.Utf8.encode (String.ofList ((l.dropWhile isModifier).take 1))
  37 :: Text.Utf8.encode (String.ofList (l.takeWhile isModifier)) ++ letter.take 1 ++
    Text.Utf8.encode ": invalid conversion specification"

/-- The bytes of a text in which a backslash and what follows it may stand for one byte.  Where a
percent sign starts a directive, two stand for one of them, and there are no other directives:
no word is given to print. -/
def expand (r : Rules) : List Char → Expansion
  | [] => {}
  | ['\\'] => { bytes := [92] }
  | '\\' :: c :: l =>
    if c = 'c' then { finish := .stopped }
    else if c = 'x' then
      let digits := leadingDigits hexDigit? 2 l
      if digits = [] then
        if r.needsDigits then
          { finish := .malformed (Text.Utf8.encode "missing hexadecimal number in escape") }
        else (expand r l).after (Text.Utf8.encode "\\x")
      else (expand r (l.drop digits.length)).after [byte 16 digits]
    else if (octalDigit? c).isSome then
      let l := if r.leadingZero && c = '0' then l else c :: l
      let digits := leadingDigits octalDigit? 3 l
      (expand r (l.drop digits.length)).after [byte 8 digits]
    else if c = '"' && r.quotationMark then (expand r l).after [34]
    else
      match ofLetter? c with
      | some b => (expand r l).after [b]
      | none => (expand r l).after (92 :: Text.Utf8.encode c.toString)
  | '%' :: l =>
    if r.directives then
      match l with
      | '%' :: l => (expand r l).after [37]
      | l => { finish := .malformed (directiveComplaint l) }
    else (expand r l).after [37]
  | c :: l => (expand r l).after (Text.Utf8.encode c.toString)
termination_by l => l.length
decreasing_by all_goals grind

end Escape

/-! ### Programs -/

/-- A program. -/
inductive Tool
  /-- Prints its words. -/
  | echo
  /-- Prints its first word, which is a format. -/
  | printf
  /-- Prints nothing. -/
  | succeed
  /-- Prints nothing, and fails. -/
  | fail
deriving DecidableEq, Repr

/-- How a program ends, and what it prints. -/
structure Ending where
  status : Nat := 0
  output : List UInt8 := []
  complaints : List UInt8 := []
deriving DecidableEq, Repr

namespace Tool

/-- The program with a name. -/
def named? : String → Option Tool
  | "echo" => some echo
  | "printf" => some printf
  | "true" => some succeed
  | "false" => some fail
  | _ => none

/-- Whether a word changes how the words after it are printed: a hyphen and letters of which
each is an option. -/
def isEchoOption (word : String) : Bool :=
  match word.toList with
  | '-' :: letters => !letters.isEmpty && letters.all fun c => c == 'n' || c == 'e' || c == 'E'
  | _ => false

/-- The words with spaces between them, and a line feed unless an option drops it.  Escapes are
read if the last option about them asks for it. -/
def echoed (words : List String) : List UInt8 :=
  let letters := (words.takeWhile isEchoOption).flatMap fun o => o.toList.drop 1
  let text := " ".intercalate (words.dropWhile isEchoOption)
  let ending : List UInt8 := if letters.contains 'n' then [] else [10]
  if (letters.filter (· != 'n')).getLast? = some 'e' then
    let e := Escape.expand { leadingZero := true } text.toList
    if e.finish = .stopped then e.bytes else e.bytes ++ ending
  else Text.Utf8.encode text ++ ending

/-- What may stand in a format. -/
def formatRules : Escape.Rules where
  quotationMark := true
  needsDigits := true
  directives := true

/-- The first word, after a pair of hyphens if they are there, with its escapes read. -/
def formatted (words : List String) : Ending :=
  let format := ((if words.head? = some "--" then words.drop 1 else words).headD "").toList
  let e := Escape.expand formatRules format
  match e.finish with
  | .malformed complaint =>
    { status := 1
      output := e.bytes
      complaints := Text.Utf8.encode "printf: " ++ complaint ++ [10] }
  | _ => { output := e.bytes }

/-- How a program ends when it is given some words. -/
def run (t : Tool) (words : List String) : Ending :=
  match t with
  | echo => { output := echoed words }
  | printf => formatted words
  | succeed => {}
  | fail => { status := 1 }

end Tool

end Hermetic.CommandLine

/-
Expressions as far as names go.

An expression is a list of terms: the symbols it mentions, and the text between them, which is
copied.  No name is a symbol that directly follows `@` or `%`, that is a lone `.`, or that stands
in a string or after a leading digit.

* `Expr.parse`, `Expr.display`: from text and back;
* `Expr.symbols`, `Expr.mapSymbols`: the symbols of an expression, and the same expression with
  every symbol exchanged.
-/
import Hermetic.Symbol.Name

namespace Hermetic

/-- A part of an expression. -/
inductive Term
  /-- The name of a symbol. -/
  | symbol (name : String)
  /-- Operators, numbers, blanks, specifiers and strings. -/
  | other (text : String)
deriving DecidableEq, Repr

/-- The text of a term. -/
def Term.text : Term → String
  | symbol name => name
  | other text => text

/-- An expression: its terms in order, whose texts make up its text. -/
structure Expr where
  terms : List Term := []
deriving DecidableEq, Repr, Inhabited

namespace Expr

/-- An expression is written as the texts of its terms. -/
def display (e : Expr) : String :=
  String.join (e.terms.map Term.text)

/-- The symbols of an expression, in order. -/
def symbols (e : Expr) : List String :=
  e.terms.filterMap fun
    | .symbol name => some name
    | .other _ => none

/-- The expression with every symbol exchanged. -/
def mapSymbols (f : String → String) (e : Expr) : Expr where
  terms := e.terms.map fun
    | .symbol name => .symbol (f name)
    | .other text => .other text

@[simp] theorem symbols_mapSymbols (f : String → String) (e : Expr) :
    (e.mapSymbols f).symbols = e.symbols.map f := by
  unfold mapSymbols symbols
  induction e.terms with
  | nil => rfl
  | cons t ts ih => cases t <;> simp [ih]

/-! ### Reading -/

/-- The length of the string whose opening quote has been read, up to and with the closing
quote.  A backslash takes the next character with it. -/
def stringLength : List Char → Nat
  | [] => 0
  | '"' :: _ => 1
  | '\\' :: _ :: l => 2 + stringLength l
  | _ :: l => 1 + stringLength l

/-- The text that was read since the last symbol, backwards, in front of later terms. -/
def flush (pending : List Char) (terms : List Term) : List Term :=
  if pending.isEmpty then terms else .other (String.ofList pending.reverse) :: terms

/-- The terms of a text.  `pending` is the text since the last symbol, backwards, and `tagged`
tells whether it ends in a character after which no symbol follows. -/
def termsFrom (pending : List Char) (tagged : Bool) : List Char → List Term
  | [] => flush pending []
  | c :: l =>
    if c = '"' then
      let n := stringLength l
      termsFrom ((l.take n).reverse ++ '"' :: pending) false (l.drop n)
    else if c.isDigit then
      termsFrom ((l.takeWhile isSymbolChar).reverse ++ c :: pending) false
        (l.dropWhile isSymbolChar)
    else if isSymbolStart c then
      let tail := l.takeWhile isSymbolChar
      if tagged || (c == '.' && tail.isEmpty) then
        termsFrom (tail.reverse ++ c :: pending) false (l.dropWhile isSymbolChar)
      else
        flush pending
          (.symbol (String.ofList (c :: tail)) :: termsFrom [] false (l.dropWhile isSymbolChar))
    else
      termsFrom (c :: pending) (c == '@' || c == '%') l
termination_by l => l.length
decreasing_by
  all_goals
    have h := (List.dropWhile_suffix (l := l) isSymbolChar).length_le
    simp only [List.length_cons, List.length_drop]
    omega

/-- The expression that a text is. -/
def parse (text : List Char) : Expr :=
  ⟨termsFrom [] false text⟩

end Expr

end Hermetic

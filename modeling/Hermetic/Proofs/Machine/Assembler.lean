/-
What an assembler makes of statements, as far as names go.

* `Assembler`, `Assembler.State`: how values are computed, what names stand for, and the place that
  the next statement gets;
* `Assembler.step`, `Assembler.run`: one statement, and statements one after the other;
* `Assembler.values_run`: a name that no statement defines keeps its value;
* `Assembler.adding`: values that are sums of names and numbers;
* `AliasesAgree`, `KeepsAliases`: names that stand for what their aliases stand for, and statements
  that leave it so.
-/
import Hermetic.Proofs.Sealing.Statements
import Mathlib.Logic.Function.Basic

namespace Hermetic

open Statement (Kind)

/-- How an assembler computes values, and where it puts statements. -/
structure Assembler (Value : Type) where
  /-- The value of an expression at a place, if there is one. -/
  eval : Value → (String → Option Value) → Expr → Option Value
  /-- It depends on the names that the expression mentions. -/
  eval_congr (place : Value) (e : Expr) (f g : String → Option Value) :
    (∀ name ∈ e.symbols, f name = g name) → eval place f e = eval place g e
  /-- The place after a statement. -/
  after : Kind → Value → Value

namespace Assembler

variable {Value : Type}

/-- What names stand for, and the place that the next statement gets. -/
structure State (Value : Type) where
  values : String → Option Value
  place : Value

/-- A name with a new value. -/
def State.define (st : State Value) (name : String) (value : Option Value) : State Value :=
  { st with values := Function.update st.values name value }

/-- A label stands for its place, a directive that binds a name gives it the value that its
expression has by then, and any other statement moves the place of the next. -/
def step (a : Assembler Value) (st : State Value) : Kind → State Value
  | .label (.symbol name) | .label (.dotLocal name) => st.define name (some st.place)
  | .label (.numeric _) => st
  | .binding _ name value => st.define name (a.eval st.place st.values value)
  | kind => { st with place := a.after kind st.place }

/-- Statements one after the other. -/
def run (a : Assembler Value) (st : State Value) (kinds : List Kind) : State Value :=
  kinds.foldl a.step st

variable {a : Assembler Value} {st : State Value} {name : String}

lemma values_step {kind : Kind} (h : kind.definedName? ≠ some name) :
    (a.step st kind).values name = st.values name := by
  have hdefine {own : String} {value : Option Value} (hown : some own ≠ some name) :
      (st.define own value).values name = st.values name :=
    Function.update_of_ne (fun heq => hown (congrArg some heq.symm)) _ _
  cases kind with
  | label label =>
      cases label with
      | symbol | dotLocal => exact hdefine h
      | numeric => rfl
  | binding => exact hdefine h
  | _ => rfl

/-- A name that no statement defines keeps its value. -/
lemma values_run {kinds : List Kind} (h : ∀ kind ∈ kinds, kind.definedName? ≠ some name) :
    (a.run st kinds).values name = st.values name := by
  induction kinds generalizing st with
  | nil => rfl
  | cons kind kinds ih =>
      obtain ⟨hfirst, hrest⟩ := List.forall_mem_cons.mp h
      exact (ih hrest).trans (values_step hfirst)

lemma run_append (kinds more : List Kind) :
    a.run st (kinds ++ more) = a.run (a.run st kinds) more :=
  List.foldl_append

/-! ### Sums -/

/-- The number that the digits of a text spell. -/
def number (text : String) : ℕ :=
  (text.toList.filter Char.isDigit).foldl (fun n ch => 10 * n + (ch.toNat - '0'.toNat)) 0

/-- The sum of the names and the numbers of an expression. -/
def sum (values : String → Option ℕ) : List Term → Option ℕ
  | [] => some 0
  | .symbol name :: terms => (values name).bind fun n => (sum values terms).map (n + ·)
  | .other text :: terms => (sum values terms).map (number text + ·)

lemma sum_congr {terms : List Term} {f g : String → Option ℕ}
    (h : ∀ name ∈ (Expr.mk terms).symbols, f name = g name) : sum f terms = sum g terms := by
  induction terms with
  | nil => rfl
  | cons t terms ih =>
      cases t with
      | symbol name =>
          obtain ⟨hname, hrest⟩ := List.forall_mem_cons.mp h
          rw [sum, sum, hname, ih hrest]
      | other text => rw [sum, sum, ih h]

/-- An assembler that adds names and numbers. -/
def adding : Assembler ℕ where
  eval _ values e := sum values e.terms
  eval_congr _ _ _ _ h := sum_congr h
  after _ place := place + 1

end Assembler

/-! ### Aliases -/

/-- The names of a table stand for what their aliases stand for. -/
def AliasesAgree {Value : Type} (symbols : SymbolTable) (values : String → Option Value) : Prop :=
  ∀ name, symbols.contains name = true → values (Symbol.localAlias name) = values name

/-- Statements that leave it so, wherever they are put. -/
def KeepsAliases (symbols : SymbolTable) (kinds : List Kind) : Prop :=
  ∀ (Value : Type) (a : Assembler Value) (st : Assembler.State Value),
    AliasesAgree symbols st.values → AliasesAgree symbols (a.run st kinds).values

variable {symbols : SymbolTable} {Value : Type}

/-- A public name and its alias get a value together. -/
lemma AliasesAgree.update_both {values : String → Option Value} (h : AliasesAgree symbols values)
    (hpublic : symbols.IsPublic) {name : String} (hname : Symbol.isDotLocal name = false)
    (value : Option Value) :
    AliasesAgree symbols
      (Function.update (Function.update values name value) (Symbol.localAlias name) value) := by
  intro symbol hsymbol
  rw [Function.update_of_ne (Symbol.ne_localAlias (hpublic symbol hsymbol) name)]
  by_cases hsame : symbol = name
  · rw [hsame, Function.update_self, Function.update_self]
  · rw [Function.update_of_ne hsame,
      Function.update_of_ne (Symbol.localAlias_injective.ne hsame),
      Function.update_of_ne (Symbol.ne_localAlias hname symbol).symm]
    exact h symbol hsymbol

end Hermetic

/-
Where a symbol lies, seen from a statement of a module.

* `Scope`: what the sealing of a statement depends on besides the statement;
* `Scope.inside?`: the name under which a symbol is reached without leaving the module, with
  `Scope.inside?_eq_none_iff`: a symbol has none exactly if it is external;
* `Scope.inside`: this name, or the symbol's own.
-/
import Hermetic.Helper
import Hermetic.Symbol.Table

namespace Hermetic

/-- The symbols that the module defines, the marker that its labels are named after, and the
position of the file that a statement belongs to. -/
structure Scope where
  symbols : SymbolTable
  marker : String
  index : Nat

namespace Scope

/-- Whether a symbol is one that the module defines. -/
def defines (s : Scope) (name : String) : Bool :=
  s.symbols.contains name

/-- Whether a symbol lies outside the module: it is neither defined there, nor local to a file,
nor one of those that are written around the module. -/
def isExternal (s : Scope) (name : String) : Bool :=
  !s.defines name && !Symbol.isDotLocal name && !Symbol.isSynthesized s.marker name

/-- The name under which a symbol is reached without leaving the module: the alias of what the
module defines, a local name as it is written for its file, or a name written around the
module. -/
def inside? (s : Scope) (name : String) : Option String :=
  if s.defines name then some (Symbol.localAlias name)
  else if Symbol.isDotLocal name then some (Symbol.renamed name s.index)
  else if Symbol.isSynthesized s.marker name then some name
  else none

/-- The name under which a symbol is referred to: inside the module if it lies there. -/
def inside (s : Scope) (name : String) : String :=
  (s.inside? name).getD name

/-- The name that a branch to a symbol goes to, and the helper that it needs: a symbol outside
the module is reached by a redirector. -/
def branchTarget (s : Scope) (name : String) : String × List Helper :=
  match s.inside? name with
  | some target => (target, [])
  | none => (Symbol.redirector name, [.redirector name])

/-- A local name as it is written for the file. -/
def localized (s : Scope) (name : String) : String :=
  Symbol.localized name s.index

theorem inside?_eq_none_iff {s : Scope} {name : String} :
    s.inside? name = none ↔ s.isExternal name = true := by
  unfold inside? isExternal
  split
  · simp [*]
  · split
    · simp [*]
    · split <;> simp [*]

/-- A branch asks for a redirector exactly if it leaves the module. -/
theorem helpers_branchTarget (s : Scope) (name : String) :
    (s.branchTarget name).2 = if s.isExternal name then [.redirector name] else [] := by
  unfold branchTarget
  cases h : s.inside? name with
  | none => simp [inside?_eq_none_iff.mp h]
  | some t =>
      have hn : ¬ s.isExternal name = true := by
        rw [← inside?_eq_none_iff, h]
        simp
      simp [hn]

end Scope

end Hermetic

/-
The symbols that a module defines.

Names that the linker sees are defined at most once in a module, and local names at most once in
a file.  A directive that binds a name defines it too, and may do so again.

* `SymbolTable.Scopes.claim`: a name taken, or refused with the place where it was taken first;
* `SymbolTable.ofFiles`: the public names of all files.
-/
import Hermetic.Statement
import Hermetic.Error
import Hermetic.Symbol.NameSet
import Std.Data.HashMap

namespace Hermetic

/-- The public names that a module defines. -/
structure SymbolTable where
  defined : NameSet := .empty
deriving DecidableEq, Repr, Inhabited

namespace SymbolTable

/-- The names that are defined so far, and where the labels of the module and of the file at
hand are. -/
structure Scopes where
  defined : NameSet := .empty
  labels : Std.HashMap String Location := {}
  locals : Std.HashMap String Location := {}

namespace Scopes

/-- The places of labels with one more, unless its name is taken. -/
def claim (places : Std.HashMap String Location) (name : String) (site : Location) :
    Except Error (Std.HashMap String Location) :=
  match places[name]? with
  | some first => .error (.duplicateSymbol name site first)
  | none => .ok (places.insert name site)

/-- The scopes after a statement of a file. -/
def define (path : String) (s : Scopes) (statement : Statement) : Except Error Scopes :=
  match statement.kind with
  | .label (.symbol name) =>
    (claim s.labels name ⟨path, statement.span⟩).map fun labels =>
      { s with labels, defined := s.defined.insert name }
  | .label (.dotLocal name) =>
    (claim s.locals name ⟨path, statement.span⟩).map fun locals => { s with locals }
  | .binding _ name _ =>
    if Symbol.isDotLocal name then .ok s
    else .ok { s with defined := s.defined.insert name }
  | _ => .ok s

/-- The scopes after a file, whose local names are its own. -/
def defineFile (s : Scopes) (file : SourceFile) : Except Error Scopes :=
  file.statements.foldlM (define file.path) { s with locals := {} }

end Scopes

/-- The public names of the files of a module. -/
def ofFiles (files : List SourceFile) : Except Error SymbolTable :=
  (files.foldlM Scopes.defineFile {}).map fun s => ⟨s.defined⟩

/-- Whether a name is defined in the module. -/
def contains (t : SymbolTable) (name : String) : Bool :=
  name ∈ t.defined

end SymbolTable

end Hermetic

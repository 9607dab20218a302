/-
Statements of a sealed module.

* `Statement.sealDirective`: directives that open sections or ask for storage;
* `Statement.sealData`, `Statement.sealBinding`: directives that mention symbols;
* `Statement.sealLabel`: labels, which get an alias;
* `Statement.sealed`: what is written for a statement, and whether the next one lies in
  zero-initialised storage.
-/
import Hermetic.Sealing.Arm
import Hermetic.Sealing.Section
import Hermetic.Sealing.X86

namespace Hermetic.Statement

/-! ### Directives -/

/-- Common storage gets an accessor. -/
def sealCommon (scope : Scope) (s : Statement) (directive arguments : String) :
    Except Unsupported Emission :=
  match (Piece.split arguments.toList).head?.filter fun p => !p.text.isEmpty with
  | none => .error (.namelessCommon directive)
  | some p =>
    let symbol := String.ofList p.text
    let name := scope.localized symbol
    let accessor := [Helper.accessor name name]
    .ok (if name = symbol then { Emission.copy s with helpers := accessor }
      else .replace s [.column directive [Text.replaceFirst symbol name arguments]] accessor)

/-- Sections of code and of read-only data become one, and writable data is refused. -/
def sealSection (s : Statement) (arguments : String) : Except Unsupported Emission :=
  let name := Section.name arguments
  if String.ofList name = ".data.rel.ro" then .error .relocatedData
  else
    match Section.type name with
    | some ".rodata" | some ".text" => .ok (.replace s [.plain ".text" []])
    | some ".data" => .error (.dataSection (String.ofList name))
    | _ => .ok (.copy s)

/-- What is written for a directive. -/
def sealDirective (scope : Scope) (s : Statement) (directive arguments : String) :
    Except Unsupported Emission :=
  let lower := directive.toLower
  if lower = ".comm" ∨ lower = ".lcomm" then sealCommon scope s directive arguments
  else if lower = ".data" then .error .dataDirective
  else if lower = ".section" then sealSection s arguments
  else .ok (.copy s)

/-- What is written for a directive whose arguments may mention symbols. -/
def sealData (scope : Scope) (s : Statement) (directive : String) (arguments : List Expr) :
    Emission :=
  let mapped := arguments.map (Expr.mapSymbols scope.localized)
  if mapped = arguments then .copy s
  else .replace s [.column directive (mapped.map Expr.display)]

/-- What is written for a directive that binds a symbol: the alias of a public symbol is bound
to the same value. -/
def sealBinding (scope : Scope) (s : Statement) (directive name : String) (value : Expr) :
    Emission :=
  let newName := scope.localized name
  let newValue := value.mapSymbols scope.localized
  let own : Emission :=
    if newName = name ∧ newValue = value then .copy s
    else .replace s [.column directive [newName, newValue.display]]
  if !Symbol.isDotLocal name && scope.defines name then
    { own with chunks := own.chunks ++
        [.line (.column directive [Symbol.localAlias name, newValue.display])] }
  else own

/-! ### Labels -/

/-- What is written for a label: a public one gets an alias, and a local one its new name. -/
def sealLabel (scope : Scope) (s : Statement) : Label → Emission
  | .symbol name => { chunks := [.line (.label (Symbol.localAlias name)), .copied s.text] }
  | .dotLocal name =>
    { chunks := [.copied (Text.replaceFirst name (Symbol.renamed name scope.index) s.text)] }
  | .numeric _ => .copy s

/-- What is written for a public label in zero-initialised storage: it gets an alias and an
accessor. -/
def sealBssLabel (s : Statement) (name : String) : Emission where
  chunks := [.copied s.text, .openLabel (Symbol.localAlias name)]
  helpers := [.accessor name (Symbol.localAlias name)]

/-! ### Statements -/

/-- What is written for an instruction. -/
def sealInstruction (arch : Arch) (scope : Scope) (s : Statement) (insn : Instruction) :
    Except Unsupported Emission :=
  match arch with
  | .x86_64 => X86.sealInstruction scope s insn
  | .aarch64 => Arm.sealInstruction scope s insn

/-- What is written for a statement outside zero-initialised storage. -/
def sealCode (arch : Arch) (scope : Scope) (s : Statement) : Except Unsupported Emission :=
  match s.kind with
  | .blank | .comment | .visibility _ | .lineInfo .. => .ok (.copy s)
  | .symbolic directive arguments => .ok (sealData scope s directive arguments)
  | .binding directive name value => .ok (sealBinding scope s directive name value)
  | .directive directive arguments => sealDirective scope s directive arguments
  | .label label => .ok (sealLabel scope s label)
  | .instruction insn => sealInstruction arch scope s insn

/-- What is written for a statement, in zero-initialised storage or not. -/
def emission (arch : Arch) (scope : Scope) (inBss : Bool) (s : Statement) :
    Except Unsupported Emission :=
  match inBss, s.kind with
  | true, .label (.symbol name) => .ok (sealBssLabel s name)
  | true, .instruction _ => .error .instructionInBss
  | _, _ => sealCode arch scope s

/-- Whether the statements after this one lie in zero-initialised storage. -/
def bssAfter (inBss : Bool) (s : Statement) : Bool :=
  (inBss && !Section.leavesBss s.kind) || Section.entersBss s.kind

/-- What is written for a statement, and whether the next one lies in zero-initialised
storage. -/
def sealed (arch : Arch) (scope : Scope) (inBss : Bool) (s : Statement) :
    Except Unsupported (Emission × Bool) :=
  (emission arch scope inBss s).map (·, bssAfter inBss s)

end Hermetic.Statement

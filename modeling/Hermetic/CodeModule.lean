/-
Modules: the files that are sealed together.

* `CodeModule`, `CodeModule.addInput`: files collected under limits;
* `CodeModule.arch`: the architecture of a module, which its first file tells if nobody else does;
* `CodeModule.sealed`: the text of a module without references that have to be relocated;
* `sealedText`: the same in one step.
-/
import Hermetic.Boundary
import Hermetic.Sealing.Statement
import Hermetic.Statement.Parser

namespace Hermetic

/-! ### Inputs -/

/-- How many bytes and how many statements the inputs of a module may have. -/
structure Limits where
  sourceBytes : Nat := 64 * 1024 * 1024
  statements : Nat := 1000000
deriving DecidableEq, Repr, Inhabited

/-- A file before it is read. -/
structure Input where
  path : String
  text : String
deriving DecidableEq, Repr

/-- The inputs of a module, and how they are to be sealed. -/
structure CodeModule where
  givenArch : Option Arch := none
  limits : Limits := {}
  marker : String := Symbol.defaultMarker
  inputs : List Input := []
  sourceBytes : Nat := 0
deriving Repr, Inhabited

/-- A sealed module: its text, its architecture, and the helpers that the text ends with. -/
structure Sealed where
  text : String
  arch : Arch
  helpers : Helpers
deriving DecidableEq, Repr

namespace CodeModule

/-- The module with one more input, unless there would be too many bytes. -/
def addInput (m : CodeModule) (path text : String) : Except Error CodeModule :=
  let total := m.sourceBytes + text.utf8ByteSize
  if m.limits.sourceBytes < total then .error (.limitExceeded .sourceBytes m.limits.sourceBytes)
  else .ok { m with inputs := m.inputs ++ [⟨path, text⟩], sourceBytes := total }

/-- The module with more inputs. -/
def addInputs (m : CodeModule) (inputs : List Input) : Except Error CodeModule :=
  inputs.foldlM (fun m i => m.addInput i.path i.text) m

/-- The architecture that a module is for. -/
def arch (m : CodeModule) : Except Error Arch :=
  match m.givenArch with
  | some arch => .ok arch
  | none =>
    match m.inputs with
    | [] => .error (.refusal .noInput)
    | first :: _ =>
      match Arch.detect first.text with
      | some arch => .ok arch
      | none => .error ((Error.refusal .noArchOfInput).located first.path .nowhere)

/-! ### Reading -/

/-- The files of some inputs, of which the first has a position, when some statements have been
read before. -/
def readFrom (arch : Arch) (bound index count : Nat) : List Input → Except Error (List SourceFile)
  | [] => .ok []
  | input :: inputs => do
    let file ← SourceFile.parse input.path index input.text arch
    let count := count + file.statements.length
    if bound < count then throw (.limitExceeded .statements bound)
    return file :: (← readFrom arch bound (index + 1) count inputs)

/-- The files of a module. -/
def files (m : CodeModule) (arch : Arch) : Except Error (List SourceFile) :=
  readFrom arch m.limits.statements 0 0 m.inputs

/-! ### Numbers of source files -/

/-- The number below 2^32 that a text is, perhaps with a plus. -/
def number? (l : List Char) : Option Nat :=
  let digits := match l with
    | '+' :: rest => rest
    | _ => l
  if digits.isEmpty || !digits.all Char.isDigit then none
  else
    let n := digits.foldl (fun n c => n * 10 + (c.toNat - '0'.toNat)) 0
    if n < UInt32.size then some n else none

/-- The number that a statement gives to a source file, or zero, and whether it gives a
checksum. -/
def fileNumber (s : Statement) : Nat × Bool :=
  match s.kind with
  | .lineInfo ".file" arguments =>
    (((Text.words arguments.toList).head?.bind number?).getD 0, Text.occursIn "md5" arguments)
  | _ => (0, false)

/-- The source file that the lines around a module are attributed to: the first number after
all that are given, if any is.  A number has 32 bits, so that zero comes after the greatest. -/
def debugFile (files : List SourceFile) : Option DebugFile :=
  let numbers := (files.flatMap (·.statements)).map fileNumber
  let greatest := (numbers.map Prod.fst).foldl max 0
  if 0 < greatest then some ⟨(greatest + 1) % UInt32.size, numbers.any Prod.snd⟩ else none

/-! ### Writing -/

/-- The text written so far, and the helpers that it needs. -/
structure Progress where
  output : Output := {}
  helpers : Helpers := {}
deriving Inhabited

/-- What is written so far, with what is written for a statement. -/
def Progress.add (p : Progress) (arch : Arch) (e : Emission) : Progress where
  output := p.output.addAll arch e.chunks
  helpers := p.helpers.requestAll e.helpers

/-- What is written for some statements of a file, the first of which lies in zero-initialised
storage or not. -/
def writeStatements (arch : Arch) (scope : Scope) (path : String) (inBss : Bool) (p : Progress) :
    List Statement → Except Error Progress
  | [] => .ok p
  | s :: statements =>
    match s.sealed arch scope inBss with
    | .error reason => .error ((Error.refusal reason).located path s.span)
    | .ok (emission, next) =>
      writeStatements arch scope path next (p.add arch emission) statements

/-- What is written for a file. -/
def writeFile (arch : Arch) (symbols : SymbolTable) (marker : String) (p : Progress)
    (file : SourceFile) : Except Error Progress :=
  writeStatements arch ⟨symbols, marker, file.index⟩ file.path false p file.statements

/-- The module sealed: its files between two labels, followed by their helpers. -/
def sealed (m : CodeModule) : Except Error Sealed := do
  let arch ← m.arch
  let files ← m.files arch
  let symbols ← SymbolTable.ofFiles files
  let boundary : Boundary := ⟨arch, m.marker, debugFile files⟩
  let start : Progress := { output := boundary.begin {} }
  let p ← files.foldlM (writeFile arch symbols m.marker) start
  return ⟨(boundary.finish p.helpers p.output).text, arch, p.helpers⟩

end CodeModule

/-- The text of some inputs, sealed as a module. -/
def sealedText (inputs : List Input) (arch : Option Arch := none) : Except Error String := do
  let m ← ({ givenArch := arch } : CodeModule).addInputs inputs
  return (← m.sealed).text

end Hermetic

/-
Modules, sealed by bytes and indices.

* `Checked.detect`: the architecture that a text is written for;
* `Checked.sectionType`, `Checked.sealedStatement`: what is written for a statement;
* `Checked.debugFile`: a number of 32 bits for a source file;
* `Checked.sealed`: a module sealed, with every part of a text, every index and every number within
  its bounds or without a result;
* `Checked.sealed_within`: a module of less than 2^31 bytes that leaves a number for a source file
  is sealed within all bounds, to the result or the error that it has.
-/
import Mathlib.Algebra.GroupWithZero.Nat
import Mathlib.Algebra.Order.BigOperators.Group.List
import Mathlib.Algebra.Order.Group.Nat
import Mathlib.Data.List.TakeDrop
import Hermetic.CodeModule
import Hermetic.Proofs.Checked.Instructions
import Hermetic.Proofs.Checked.Statement
import Hermetic.Proofs.Module.Walk

namespace Hermetic

open Text (byteLength byteLength_nil byteLength_cons byteLength_append)

namespace Checked

variable {arch : Arch} {scope : Scope} {s : Statement}

/-! ### Architectures -/

/-- A line without the label at its start. -/
def withoutLabel (line : List Char) : Option (List Char) :=
  match find ':' line with
  | none => return line
  | some colon => do
    let head ← headTo line colon
    if !head.isEmpty && head.all isSymbolChar then
      return Text.trimStart (← tailFrom line (colon + 1))
    else return line

/-- The architecture that a line tells. -/
def ofLine (line : List Char) : Option (Option Arch) := do
  let code ← withoutLabel (Text.trim line)
  if Arch.isSilent code then return none
  else return Arch.ofMnemonic (String.ofList (code.takeWhile fun c => !Text.isBlank c))

/-- The architecture that a text tells by its first line that tells one. -/
def detect (text : String) : Option (Option Arch) :=
  (Text.lines text.toList).findSomeM? ofLine

/-- The architecture that a module is for. -/
def archOf (m : CodeModule) : Checked Error Arch :=
  match m.givenArch with
  | some arch => return arch
  | none =>
    match m.inputs with
    | [] => throw (.refusal .noInput)
    | first :: _ => do
      match ← detect first.text with
      | some arch => return arch
      | none => throw ((Error.refusal .noArchOfInput).located first.path .nowhere)

lemma withoutLabel_eq (line : List Char) : withoutLabel line = some (Arch.withoutLabel line) := by
  rw [withoutLabel, Arch.withoutLabel, List.span_eq_takeWhile_dropWhile, find]
  by_cases hcolon : ':' ∈ line
  · obtain ⟨tail, htail⟩ := dropWhile_of_mem hcolon
    simp only [if_pos hcolon, headTo_takeWhile, tailFrom_find (show IsNarrow ':' by decide) htail,
      htail, Option.bind_eq_bind, Option.bind_some]
    split <;> rfl
  · rw [if_neg hcolon, dropWhile_of_notMem hcolon]
    rfl

lemma ofLine_eq (line : List Char) : ofLine line = some (Arch.ofLine line) := by
  rw [ofLine, withoutLabel_eq, Arch.ofLine]
  simp only [Option.bind_eq_bind, Option.bind_some]
  split <;> rfl

lemma detect_eq (text : String) : detect text = some (Arch.detect text) := by
  rw [detect, Arch.detect]
  induction Text.lines text.toList with
  | nil => rfl
  | cons line lines ih =>
      rw [List.findSomeM?_cons, List.findSome?_cons, ofLine_eq]
      simp only [Option.bind_eq_bind, Option.bind_some]
      cases Arch.ofLine line with
      | none => exact ih
      | some arch => rfl

lemma archOf_eq (m : CodeModule) : archOf m = within m.arch := by
  rw [archOf, CodeModule.arch]
  cases m.givenArch with
  | some arch => rfl
  | none =>
      cases m.inputs with
      | nil => rfl
      | cons first _ =>
          dsimp only
          rw [detect_eq]
          cases Arch.detect first.text <;> rfl

/-! ### Sections -/

/-- The section that the arguments of a directive name. -/
def sectionName (arguments : String) : Option (List Char) := do
  match ← split arguments.toList with
  | [] => return []
  | p :: _ => return Section.unquoted p.text

/-- The type of a section: its name up to the second point. -/
def sectionType (name : List Char) : Option (Option String) :=
  match name with
  | '.' :: tail => do
    let type ← match find '.' tail with
      | some i => headTo name (i + 1)
      | none => some name
    let type := String.ofList type
    return some (if Text.startsWith ".debug_" type then ".debug" else type)
  | _ => return none

/-- Whether statements after this one lie in zero-initialised storage. -/
def entersBss : Statement.Kind → Option Bool
  | .directive directive arguments => do
    if directive.toLower = ".bss" then return true
    else if directive.toLower = ".section" then
      return (← sectionType (← sectionName arguments)) == some ".bss"
    else return false
  | _ => return false

/-- Whether the statements after this one lie in zero-initialised storage. -/
def bssAfter (inBss : Bool) (s : Statement) : Option Bool := do
  return (inBss && !Section.leavesBss s.kind) || (← entersBss s.kind)

lemma sectionName_eq {arguments : String} (hsize : byteLength arguments.toList < 2 ^ 31) :
    sectionName arguments = some (Section.name arguments) := by
  rw [sectionName, split_eq hsize, Section.name]
  cases Piece.split arguments.toList <;> rfl

lemma sectionType_eq (name : List Char) : sectionType name = some (Section.type name) := by
  unfold sectionType
  split
  · next tail =>
      rw [Section.type, find]
      by_cases hpoint : '.' ∈ tail
      · obtain ⟨rest, hrest⟩ := dropWhile_of_mem hpoint
        have hhead : headTo ('.' :: tail) (byteLength (tail.takeWhile (· != '.')) + 1) =
            some ('.' :: tail.takeWhile (· != '.')) := by
          have happend :=
            headTo_append ('.' :: tail.takeWhile (· != '.')) (tail.dropWhile (· != '.'))
          rwa [List.cons_append, List.takeWhile_append_dropWhile, byteLength_cons,
            utf8Size_of_isNarrow (show IsNarrow '.' by decide), Nat.add_comm] at happend
        simp only [if_pos hpoint, hhead]
        rfl
      · have htake : tail.takeWhile (· != '.') = tail := by
          have happend := List.takeWhile_append_dropWhile (p := (· != '.')) (l := tail)
          rwa [dropWhile_of_notMem hpoint, List.append_nil] at happend
        rw [if_neg hpoint, htake]
        rfl
  · next hpoint =>
      rw [Section.type]
      · rfl
      · exact hpoint

/-- A statement that is a directive has less than 2^31 bytes of arguments. -/
def ArgumentsFit (s : Statement) : Prop :=
  ∀ name arguments, s.kind = .directive name arguments → byteLength arguments.toList < 2 ^ 31

lemma bssAfter_eq (hs : ArgumentsFit s) (inBss : Bool) :
    bssAfter inBss s = some (s.bssAfter inBss) := by
  rw [bssAfter, Statement.bssAfter]
  cases hkind : s.kind with
  | directive directive arguments =>
      rw [entersBss, Section.entersBss, sectionName_eq (hs directive arguments hkind)]
      simp only [Option.bind_eq_bind, Option.bind_some, sectionType_eq]
      by_cases hbss : directive.toLower = ".bss"
      · rw [if_pos hbss]
        simp [hbss]
      · rw [if_neg hbss]
        by_cases hsection : directive.toLower = ".section"
        · rw [if_pos hsection]
          simp [hsection]
        · rw [if_neg hsection]
          simp [hbss, hsection]
  | _ => rfl

/-! ### Directives -/

/-- Common storage gets an accessor. -/
def sealCommon (scope : Scope) (s : Statement) (directive arguments : String) :
    Checked Unsupported Emission := do
  match (← split arguments.toList).head?.filter fun p => !p.text.isEmpty with
  | none => throw (.namelessCommon directive)
  | some p =>
    let symbol := String.ofList p.text
    let name := scope.localized symbol
    let accessor := [Helper.accessor name name]
    return if name = symbol then { Emission.copy s with helpers := accessor }
      else .replace s [.column directive [Text.replaceFirst symbol name arguments]] accessor

/-- Sections of code and of read-only data become one, and writable data is refused. -/
def sealSection (s : Statement) (arguments : String) : Checked Unsupported Emission := do
  let name ← sectionName arguments
  if String.ofList name = ".data.rel.ro" then throw .relocatedData
  match ← sectionType name with
  | some ".rodata" | some ".text" => return .replace s [.plain ".text" []]
  | some ".data" => throw (.dataSection (String.ofList name))
  | _ => return .copy s

/-- What is written for a directive. -/
def sealDirective (scope : Scope) (s : Statement) (directive arguments : String) :
    Checked Unsupported Emission :=
  let lower := directive.toLower
  if lower = ".comm" ∨ lower = ".lcomm" then sealCommon scope s directive arguments
  else if lower = ".data" then throw .dataDirective
  else if lower = ".section" then sealSection s arguments
  else return .copy s

lemma sealCommon_eq {directive arguments : String}
    (hsize : byteLength arguments.toList < 2 ^ 31) : sealCommon scope s directive arguments =
      within (Statement.sealCommon scope s directive arguments) := by
  rw [sealCommon, Statement.sealCommon, split_eq hsize, liftM_some, pure_bind]
  cases (Piece.split arguments.toList).head?.filter fun p => !p.text.isEmpty <;> rfl

lemma sealSection_eq {arguments : String} (hsize : byteLength arguments.toList < 2 ^ 31) :
    sealSection s arguments = within (Statement.sealSection s arguments) := by
  rw [sealSection, Statement.sealSection, sectionName_eq hsize, liftM_some, pure_bind]
  dsimp only
  split
  · rfl
  · rw [sectionType_eq, liftM_some, pure_bind]
    generalize Section.type (Section.name arguments) = type
    split
    · rfl
    · rfl
    · rfl
    · next hrodata htext hdata => simp_all

lemma sealDirective_eq {directive arguments : String}
    (hsize : byteLength arguments.toList < 2 ^ 31) : sealDirective scope s directive arguments =
      within (Statement.sealDirective scope s directive arguments) := by
  rw [sealDirective, Statement.sealDirective]
  split
  · exact sealCommon_eq hsize
  · split
    · rfl
    · split
      · exact sealSection_eq hsize
      · rfl

/-! ### Statements -/

/-- What is written for an instruction. -/
def sealInstruction (arch : Arch) (scope : Scope) (s : Statement) (insn : Instruction) :
    Checked Unsupported Emission :=
  match arch with
  | .x86_64 => X86.sealInstruction scope s insn
  | .aarch64 => Arm.sealInstruction scope s insn

/-- What is written for a statement outside zero-initialised storage. -/
def sealCode (arch : Arch) (scope : Scope) (s : Statement) : Checked Unsupported Emission :=
  match s.kind with
  | .directive directive arguments => sealDirective scope s directive arguments
  | .instruction insn => sealInstruction arch scope s insn
  | _ => within (s.sealCode arch scope)

/-- What is written for a statement, in zero-initialised storage or not. -/
def emission (arch : Arch) (scope : Scope) (inBss : Bool) (s : Statement) :
    Checked Unsupported Emission :=
  match inBss, s.kind with
  | true, .label (.symbol name) => return Statement.sealBssLabel s name
  | true, .instruction _ => throw .instructionInBss
  | _, _ => sealCode arch scope s

/-- What is written for a statement, and whether the next one lies in zero-initialised
storage. -/
def sealedStatement (arch : Arch) (scope : Scope) (inBss : Bool) (s : Statement) :
    Checked Unsupported (Emission × Bool) := do
  return (← emission arch scope inBss s, ← bssAfter inBss s)

lemma sealCode_eq (hs : ArgumentsFit s) :
    sealCode arch scope s = within (s.sealCode arch scope) := by
  unfold sealCode
  split
  · next directive arguments hkind =>
      rw [Statement.sealCode, hkind]
      exact sealDirective_eq (hs directive arguments hkind)
  · next insn hkind =>
      rw [Statement.sealCode, hkind]
      cases arch with
      | x86_64 => exact X86.sealInstruction_eq scope s insn
      | aarch64 => exact Arm.sealInstruction_eq scope s insn
  · rfl

lemma emission_eq (hs : ArgumentsFit s) (inBss : Bool) :
    emission arch scope inBss s = within (s.emission arch scope inBss) := by
  unfold emission Statement.emission
  rw [sealCode_eq hs]
  generalize s.kind = kind
  split
  · rfl
  · rfl
  · next hlabel hinsn => simp_all

/-- A statement is sealed within its bounds. -/
lemma sealedStatement_eq (hs : ArgumentsFit s) (inBss : Bool) :
    sealedStatement arch scope inBss s = within (s.sealed arch scope inBss) := by
  rw [sealedStatement, emission_eq hs, bssAfter_eq hs, Statement.sealed]
  exact within_map _ _

/-! ### Files -/

/-- The file that an input is.  Errors learn its name. -/
def readFile (arch : Arch) (index : ℕ) (input : Input) : Checked Error SourceFile := do
  let statements ← (parse arch input.text).adapt (·.located input.path .nowhere)
  return { path := input.path, index, statements }

/-- The files of some inputs, of which the first has a position, when some statements have been
read before. -/
def readFrom (arch : Arch) (bound index count : ℕ) :
    List Input → Checked Error (List SourceFile)
  | [] => return []
  | input :: inputs => do
    let file ← readFile arch index input
    let count := count + file.statements.length
    if bound < count then throw (.limitExceeded .statements bound)
    return file :: (← readFrom arch bound (index + 1) count inputs)

/-- What is written for some statements of a file, the first of which lies in zero-initialised
storage or not. -/
def writeStatements (arch : Arch) (scope : Scope) (path : String) (inBss : Bool)
    (p : CodeModule.Progress) : List Statement → Checked Error CodeModule.Progress
  | [] => return p
  | s :: statements => do
    let (emission, next) ← (sealedStatement arch scope inBss s).adapt fun reason =>
      (Error.refusal reason).located path s.span
    writeStatements arch scope path next (p.add arch emission) statements

/-- What is written for a file. -/
def writeFile (arch : Arch) (symbols : SymbolTable) (marker : String) (p : CodeModule.Progress)
    (file : SourceFile) : Checked Error CodeModule.Progress :=
  writeStatements arch ⟨symbols, marker, file.index⟩ file.path false p file.statements

lemma readFile_eq {input : Input} (hsize : byteLength input.text.toList < 2 ^ 31) (index : ℕ) :
    readFile arch index input = within (SourceFile.parse input.path index input.text arch) := by
  rw [readFile, parse_eq hsize, adapt_within, SourceFile.parse]
  cases Statement.parse arch input.text <;> rfl

lemma readFrom_eq {inputs : List Input}
    (hsize : ∀ input ∈ inputs, byteLength input.text.toList < 2 ^ 31) (bound index count : ℕ) :
    readFrom arch bound index count inputs =
      within (CodeModule.readFrom arch bound index count inputs) := by
  induction inputs generalizing index count with
  | nil => rfl
  | cons input inputs ih =>
      rw [readFrom, CodeModule.readFrom, readFile_eq (hsize input List.mem_cons_self), within_bind]
      refine bind_congr fun file => ?_
      dsimp only
      split
      · rfl
      · rw [ih fun input hinput => hsize input (List.mem_cons_of_mem _ hinput), within_bind]
        rfl

/-- The directives in the files of a module have arguments that fit. -/
lemma argumentsFit_of_readFrom {inputs : List Input} {files : List SourceFile} {file : SourceFile}
    {bound index count : ℕ} (hsize : ∀ input ∈ inputs, byteLength input.text.toList < 2 ^ 31)
    (h : CodeModule.readFrom arch bound index count inputs = .ok files) (hfile : file ∈ files) :
    ∀ s ∈ file.statements, ArgumentsFit s := by
  obtain ⟨input, hinput, hparse⟩ := CodeModule.exists_parse_of_readFrom h hfile
  intro s hs name arguments hkind
  exact byteLength_of_parse (hsize input hinput) hparse hs hkind

lemma writeStatements_eq {statements : List Statement} (hs : ∀ s ∈ statements, ArgumentsFit s)
    (path : String) (inBss : Bool) (p : CodeModule.Progress) :
    writeStatements arch scope path inBss p statements =
      within (CodeModule.writeStatements arch scope path inBss p statements) := by
  induction statements generalizing inBss p with
  | nil => rfl
  | cons s statements ih =>
      rw [writeStatements, CodeModule.writeStatements, sealedStatement_eq (hs s List.mem_cons_self),
        adapt_within]
      cases s.sealed arch scope inBss with
      | error reason => rfl
      | ok written =>
          obtain ⟨emission, next⟩ := written
          exact ih (fun s hmem => hs s (List.mem_cons_of_mem _ hmem)) next _

/-- A walk over the files of a module stays within its bounds. -/
lemma foldlM_writeFile_eq {files : List SourceFile} (symbols : SymbolTable) (marker : String)
    (hs : ∀ file ∈ files, ∀ s ∈ file.statements, ArgumentsFit s) (p : CodeModule.Progress) :
    files.foldlM (writeFile arch symbols marker) p =
      within (files.foldlM (CodeModule.writeFile arch symbols marker) p) := by
  induction files generalizing p with
  | nil => rfl
  | cons file files ih =>
      rw [List.foldlM_cons, List.foldlM_cons, within_bind, writeFile,
        writeStatements_eq (hs file List.mem_cons_self)]
      exact bind_congr fun q => ih (fun file hmem => hs file (List.mem_cons_of_mem _ hmem)) q

/-! ### Modules -/

/-- The source file that the lines around a module are attributed to: the first number after all
that are given, if any is, has to have 32 bits. -/
def debugFile (files : List SourceFile) : Option (Option DebugFile) :=
  let numbers := (files.flatMap (·.statements)).map CodeModule.fileNumber
  let greatest := (numbers.map Prod.fst).foldl max 0
  if 0 < greatest then do return some ⟨← add greatest 1, numbers.any Prod.snd⟩ else return none

/-- The module sealed: its files between two labels, followed by their helpers. -/
def sealed (m : CodeModule) : Checked Error Sealed := do
  let arch ← archOf m
  let files ← readFrom arch m.limits.statements 0 0 m.inputs
  let symbols ← within (SymbolTable.ofFiles files)
  let boundary : Boundary := ⟨arch, m.marker, ← debugFile files⟩
  let start : CodeModule.Progress := { output := boundary.begin {} }
  let p ← files.foldlM (writeFile arch symbols m.marker) start
  return ⟨(boundary.finish p.helpers p.output).text, arch, p.helpers⟩

/-- No statement of a module gives the greatest number of 32 bits to a source file. -/
def LeavesNumber (m : CodeModule) : Prop :=
  ∀ arch files, m.arch = .ok arch → m.files arch = .ok files →
    ∀ file ∈ files, ∀ s ∈ file.statements, (CodeModule.fileNumber s).1 ≠ 2 ^ 32 - 1

lemma number_lt {l : List Char} {n : ℕ} (h : CodeModule.number? l = some n) : n < 2 ^ 32 := by
  simp only [CodeModule.number?, Option.ite_none_left_eq_some, Option.ite_none_right_eq_some,
    Option.some.injEq] at h
  obtain ⟨-, hlt, rfl⟩ := h
  exact hlt

lemma fileNumber_lt (s : Statement) : (CodeModule.fileNumber s).1 < 2 ^ 32 := by
  unfold CodeModule.fileNumber
  split
  · next arguments _ =>
      cases hn : (Text.words arguments.toList).head?.bind CodeModule.number? with
      | none => exact Nat.two_pow_pos 32
      | some n =>
          obtain ⟨word, -, hword⟩ := Option.bind_eq_some_iff.mp hn
          exact number_lt hword
  · exact Nat.two_pow_pos 32

lemma foldl_max_lt {numbers : List ℕ} {bound : ℕ} (h : ∀ n ∈ numbers, n < bound) {n : ℕ}
    (hn : n < bound) : numbers.foldl max n < bound := by
  induction numbers generalizing n with
  | nil => exact hn
  | cons k numbers ih =>
      exact ih (fun l hl => h l (List.mem_cons_of_mem _ hl))
        (Nat.max_lt.mpr ⟨hn, h k List.mem_cons_self⟩)

lemma debugFile_eq {files : List SourceFile}
    (h : ∀ file ∈ files, ∀ s ∈ file.statements, (CodeModule.fileNumber s).1 ≠ 2 ^ 32 - 1) :
    debugFile files = some (CodeModule.debugFile files) := by
  have hgreatest : ((((files.flatMap (·.statements)).map CodeModule.fileNumber).map
      Prod.fst).foldl max 0) < 2 ^ 32 - 1 := by
    refine foldl_max_lt (fun n hn => ?_) (by decide)
    simp only [List.map_map, List.mem_map, List.mem_flatMap, Function.comp_apply] at hn
    obtain ⟨s, ⟨file, hfile, hs⟩, rfl⟩ := hn
    have hne := h file hfile s hs
    have hlt := fileNumber_lt s
    omega
  -- the sum does not wrap around
  have hsum : (((files.flatMap (·.statements)).map CodeModule.fileNumber).map
      Prod.fst).foldl max 0 + 1 < UInt32.size := Nat.add_lt_of_lt_sub hgreatest
  rw [debugFile, CodeModule.debugFile, add_eq hsum, Nat.mod_eq_of_lt hsum]
  split <;> rfl

/-- A module of less than 2^31 bytes that leaves a number for a source file is sealed within all
bounds. -/
theorem sealed_within {m : CodeModule}
    (hsize : (m.inputs.map fun input => byteLength input.text.toList).sum < 2 ^ 31)
    (hnumber : LeavesNumber m) : sealed m = within m.sealed := by
  have hinputs : ∀ input ∈ m.inputs, byteLength input.text.toList < 2 ^ 31 := by
    intro input hinput
    have hmem : byteLength input.text.toList ∈
        m.inputs.map fun input => byteLength input.text.toList := List.mem_map_of_mem hinput
    exact Nat.lt_of_le_of_lt (List.le_sum_of_mem hmem) hsize
  -- stage by stage: the architecture, the files, the symbols and what is written
  rw [sealed, CodeModule.sealed, archOf_eq, within_bind]
  cases harch : m.arch with
  | error e => rfl
  | ok arch =>
      rw [within_ok, pure_bind, pure_bind, readFrom_eq hinputs, within_bind]
      change within (m.files arch) >>= _ = within (m.files arch) >>= _
      cases hfiles : m.files arch with
      | error e => rfl
      | ok files =>
          rw [within_ok, pure_bind, pure_bind, within_bind,
            debugFile_eq (hnumber arch files harch hfiles)]
          refine bind_congr fun symbols => ?_
          rw [liftM_some, pure_bind, within_bind]
          dsimp only
          rw [foldlM_writeFile_eq symbols m.marker fun file hfile =>
            argumentsFit_of_readFrom hinputs hfiles hfile]
          rfl

/-- Two files, of which the second loads the address of a symbol by its second operand. -/
theorem sealed_within_compare :
    let m : CodeModule := {
      givenArch := some .x86_64
      inputs := [⟨"a.s", "\t.file 1 \"ä.c\"\nf:\tret # π\n"⟩,
        ⟨"b.s",
          "\t.section .bss.x,\"aw\"\nx:\t.zero 8\n\t.text\n\tcmpq %rbx, g@GOTPCREL(%rip)\n"⟩] }
    (m.inputs.map fun input => byteLength input.text.toList).sum < 2 ^ 31 ∧ LeavesNumber m ∧
      sealed m = within m.sealed := by
  intro m
  have hsize : (m.inputs.map fun input => byteLength input.text.toList).sum < 2 ^ 31 := by
    decide +kernel
  have hnumber : LeavesNumber m := by
    intro arch files harch hfiles
    cases harch
    have hall : (m.files .x86_64).toOption.all (fun files => files.all fun file =>
        file.statements.all fun s => (CodeModule.fileNumber s).1 ≠ 2 ^ 32 - 1) = true := by
      decide +kernel
    rw [hfiles] at hall
    simpa [Except.toOption] using hall
  exact ⟨hsize, hnumber, sealed_within hsize hnumber⟩

end Checked

end Hermetic

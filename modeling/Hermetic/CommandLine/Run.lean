/-
What a command line does.

Every input is read, or made from its source by a preprocessor, before anything is written, and
only the output is written.

* `Failure`, `Failure.display`: the end of a run without a result;
* `includeDirectories`: where the headers lie that are listed among the inputs;
* `collect`: the inputs of the module;
* `sealedBy`: the text that is written;
* `Outcome`, `execute`: what a command line does to a tree of files.
-/
import Hermetic.Archive
import Hermetic.CodeModule
import Hermetic.CommandLine.Arguments
import Hermetic.CommandLine.Tool
import Hermetic.Files.Tree

namespace Hermetic.CommandLine

/-! ### Failures -/

/-- Why a run ends without a result: an error, or what was attempted and why it did not
succeed. -/
inductive Failure
  | error (error : Error)
  | attempt (what cause : String)
deriving DecidableEq, Repr

/-- A text whose lines after the first are indented. -/
def indented (text : String) : String :=
  String.ofList (text.toList.flatMap fun c => if c = '\n' then "\n    ".toList else [c])

/-- A failure in words. -/
def Failure.display : Failure → String
  | error e => "Error: " ++ e.display ++ "\n"
  | attempt what cause => "Error: " ++ what ++ "\n\nCaused by:\n    " ++ indented cause ++ "\n"

/-! ### Inputs -/

/-- How files are read. -/
abbrev Reader := String → Except OsError (List UInt8)

/-- Whether a path has an extension. -/
def hasExtension (ext path : String) : Bool :=
  Path.extension? path == some ext

/-- The directories of some headers, each once, in the order of their first header. -/
def includeDirectories (headers : List String) : List String :=
  (headers.map Path.directory).foldl
    (fun seen d =>
      if seen.any fun s => Path.components s == Path.components d then seen else seen ++ [d]) []

/-- The text of a file. -/
def readText (read : Reader) (path : String) : Except OsError String := do
  match Text.Utf8.decode? (← read path) with
  | some text => return text
  | none => throw .notText

/-- The words that a preprocessor is given for a source. -/
def preprocessorWords (flags : String) (directories : List String) (path : String) :
    List String :=
  (Text.words flags.toList).map String.ofList ++ directories.flatMap (["-I", ·]) ++ ["-E", path]

/-- What a preprocessor makes of a source. -/
def preprocess (tool flags : String) (directories : List String) (path : String) :
    Except Error String :=
  match Tool.named? tool with
  | none => .error (.io path ("cannot run " ++ tool ++ ": " ++ OsError.notFound.message))
  | some t =>
    let ending := t.run (preprocessorWords flags directories path)
    if ending.status != 0 then
      let complaints := Text.trimEnd (Text.Utf8.decodeLossy ending.complaints).toList
      .error (.io path (tool ++ " exited with exit status: " ++ toString ending.status ++ ": " ++
        String.ofList complaints))
    else
      match Text.Utf8.decode? ending.output with
      | some text => .ok text
      | none => .error (.io path "preprocessor output is not UTF-8")

/-- The name and the text of the only member of an archive file. -/
def readArchive (read : Reader) (path : String) : Except Error (String × String) :=
  match read path with
  | .error e => .error (.io path e.message)
  | .ok bytes => (Archive.singleMember bytes).mapError fun f => .io path f.message

/-- The input that an archive holds. -/
def archiveInput (read : Reader) (path : String) : Except Failure Input :=
  match readArchive read path with
  | .error e => .error (.attempt ("failed to read archive " ++ path) e.display)
  | .ok (name, text) => .ok ⟨path ++ "(" ++ name ++ ")", text⟩

/-- The input that a source is, by way of the preprocessor if there is one and the source asks
for it. -/
def sourceInput (read : Reader) (a : Arguments) (directories : List String) (path : String) :
    Except Failure Input :=
  let plain : Except Failure Input :=
    match readText read path with
    | .ok text => .ok ⟨path, text⟩
    | .error e => .error (.attempt ("failed to read " ++ path) e.message)
  match a.preprocessor with
  | none => plain
  | some tool =>
    if hasExtension "S" path then
      match preprocess tool a.preprocessorFlags directories path with
      | .ok text => .ok ⟨path, text⟩
      | .error e => .error (.attempt ("failed to preprocess " ++ path) e.display)
    else plain

/-- The inputs that are headers, and play a role for the preprocessor only. -/
def headers (a : Arguments) : List String :=
  a.inputs.filter (hasExtension "h")

/-- The inputs that are not headers. -/
def sources (a : Arguments) : List String :=
  a.inputs.filter fun p => !hasExtension "h" p

/-- The inputs of the module: what the archive holds, and the sources in order. -/
def collect (read : Reader) (a : Arguments) : Except Failure (List Input) := do
  let first ← match a.archive with
    | some path => (archiveInput read path).map ([·])
    | none => .ok []
  let rest ← (sources a).mapM (sourceInput read a (includeDirectories (headers a)))
  return first ++ rest

/-! ### Runs -/

/-- The text that is written. -/
def sealedBy (read : Reader) (a : Arguments) : Except Failure String := do
  let inputs ← collect read a
  (sealedText inputs a.arch).mapError .error

/-- The name and the version of the program. -/
def versionLine : String := "delocate-cli 0.1.0\n"

/-- How the program is called. -/
def usageLine : String :=
  "Usage: [-a ARCHIVE] -o OUTPUT [--cc PROGRAM] [--cc-flags FLAGS] [--arch ARCH] [INPUT...]\n"

/-- What a run leaves behind: a status, what it prints, and the files. -/
structure Outcome where
  status : Nat
  output : String := ""
  complaints : String := ""
  files : FileTree
deriving DecidableEq, Repr

/-- The failure of an attempt to write. -/
def writeFailure (path : String) (e : OsError) : Failure :=
  .attempt ("failed to write " ++ path) e.message

/-- The tree of files after a sealing. -/
def sealTree (a : Arguments) (t : FileTree) : Except Failure FileTree := do
  let text ← sealedBy t.read a
  (t.write a.output (Text.Utf8.encode text)).mapError (writeFailure a.output)

/-- What some words do to a tree of files. -/
def execute (words : List String) (t : FileTree) : Outcome :=
  match Invocation.parse words with
  | .version => { status := 0, output := versionLine, files := t }
  | .help => { status := 0, output := usageLine, files := t }
  | .misuse => { status := 2, complaints := usageLine, files := t }
  | .run a =>
    match sealTree a t with
    | .ok files =>
      { status := 0
        output := files.text Place.standardOutput
        complaints := files.text Place.standardError
        files }
    | .error failure => { status := 1, complaints := failure.display, files := t }

end Hermetic.CommandLine

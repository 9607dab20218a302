/-
The program.

* `main`: reads the files that a command line names, seals them, and writes the result.
-/
import Hermetic.CommandLine.Run

namespace Hermetic.CommandLine

/-- The answer of the system to an attempt to read or write. -/
def osErrorOf : IO.Error → OsError
  | .noFileOrDirectory .. => .notFound
  | e => .other (toString e)

/-- The contents of some files, or why they cannot be read. -/
def readAll (paths : List String) : IO (List (String × Except OsError (List UInt8))) :=
  paths.mapM fun (path : String) => do
    try
      let contents ← IO.FS.readBinFile path
      return (path, .ok contents.data.toList)
    catch e => return (path, .error (osErrorOf e))

/-- Seals what some arguments name, and writes the result. -/
def sealFiles (a : Arguments) : IO (Except Failure Unit) := do
  let contents ← readAll (a.archive.toList ++ sources a)
  let read : Reader := fun path => (contents.lookup path).getD (.error .notFound)
  match sealedBy read a with
  | .error failure => return .error failure
  | .ok text =>
    try
      IO.FS.writeFile a.output text
      return .ok ()
    catch e => return .error (writeFailure a.output (osErrorOf e))

end Hermetic.CommandLine

open Hermetic.CommandLine in
/-- The program: seals the files that its arguments name. -/
def main (words : List String) : IO UInt32 := do
  match Invocation.parse words with
  | .version =>
    IO.print versionLine
    return 0
  | .help =>
    IO.print usageLine
    return 0
  | .misuse =>
    IO.eprint usageLine
    return 2
  | .run a =>
    match ← sealFiles a with
    | .ok () => return 0
    | .error failure =>
      IO.eprint failure.display
      return 1

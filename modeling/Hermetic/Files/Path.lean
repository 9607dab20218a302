/-
Names of files.

A path is a text in which slashes separate names.  Empty names, and points other than the first,
stand for nothing; they are kept in the text and play no role for what a path means.

* `Path.components`: what a path means;
* `Path.fileName?`, `Path.extension?`: the last name, and what follows its last point;
* `Path.directory`: the path without its last name.
-/
import Hermetic.Text.Blank

namespace Hermetic.Path

/-- The texts between the slashes of a path. -/
def pieces (path : String) : List String :=
  (path.toList.splitOn '/').map String.ofList

/-- Whether a piece stands for nothing where others precede it. -/
def isSilent (piece : String) : Bool :=
  piece == "" || piece == "."

/-- The names in a path; the first may be the root, which is a slash, or a point. -/
def components (path : String) : List String :=
  match pieces path with
  | [] => []
  | first :: rest =>
    let rest := rest.filter fun p => !isSilent p
    if path = "" then [] else (if first = "" then "/" else first) :: rest

/-- The last name of a path, unless the path ends where it started or further up. -/
def fileName? (path : String) : Option String :=
  (components path).getLast?.filter fun p => p ∉ [".", "..", "/"]

/-- What follows the last point of a name that does not start with it. -/
def extensionOf? (name : List Char) : Option String :=
  let after := name.reverse.takeWhile (· != '.')
  match name.reverse.dropWhile (· != '.') with
  | [] => none
  | _ :: stem => if stem.isEmpty then none else some (String.ofList after.reverse)

/-- What follows the last point of the last name of a path. -/
def extension? (path : String) : Option String :=
  (fileName? path).bind fun name => extensionOf? name.toList

/-- Pieces without those at the end that stand for nothing.  They are given backwards, and the
one at the very start is kept. -/
def dropSilent : List String → List String
  | [] => []
  | [p] => [p]
  | p :: ps => if isSilent p then dropSilent ps else p :: ps

/-- The path of the directory that a file lies in, as far as its path tells. -/
def directory (path : String) : String :=
  match dropSilent ((dropSilent (pieces path).reverse).drop 1) with
  | [] => "."
  | [""] => "/"
  | ps => "/".intercalate ps.reverse

end Hermetic.Path

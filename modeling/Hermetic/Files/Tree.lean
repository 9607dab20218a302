/-
Files in directories.

A tree holds the contents of files by their places.  There are exactly the directories that hold
a file, those that every system has, and the ones on the way to them.

* `OsError`: why a file cannot be read or written;
* `FileTree.locate`: the place that a path leads to;
* `FileTree.read`, `FileTree.write`: the contents of a file, and the tree with other contents;
* `FileTree.ofList`, `FileTree.changedFrom`: the files of the working directory, and those among
  them that are not as they were in another tree.
-/
import Hermetic.Files.Path
import Hermetic.Files.Place
import Hermetic.Text.Utf8

namespace Hermetic

/-- Why a file cannot be read or written. -/
inductive OsError
  | notFound
  | isDirectory
  | notDirectory
  | noSpace
  | nameTooLong
  | notText
  | other (message : String)
deriving DecidableEq, Repr

/-- A reason in words. -/
def OsError.message : OsError → String
  | notFound => "No such file or directory (os error 2)"
  | isDirectory => "Is a directory (os error 21)"
  | notDirectory => "Not a directory (os error 20)"
  | noSpace => "No space left on device (os error 28)"
  | nameTooLong => "File name too long (os error 36)"
  | notText => "stream did not contain valid UTF-8"
  | other message => message

/-- The contents of files, each with its place. -/
structure FileTree where
  files : List (Place × List UInt8) := []
deriving DecidableEq, Repr, Inhabited

namespace FileTree

/-! ### Contents -/

/-- The contents of the file at a place. -/
def get? (t : FileTree) (place : Place) : Option (List UInt8) :=
  t.files.lookup place

/-- Whether a place is a directory: a file or another directory lies in it, or it is a standard
one itself. -/
def isDirectory (t : FileTree) (place : Place) : Bool :=
  (Place.standardDirectories.any fun d => place.isPrefixOf d) ||
    t.files.any fun f => place.isPrefixOf f.1 && place != f.1

/-- The tree with other contents of the file at a place. -/
def set (t : FileTree) (place : Place) (contents : List UInt8) : FileTree where
  files := (place, contents) :: t.files.filter fun f => f.1 != place

theorem get?_set (t : FileTree) (p q : Place) (contents : List UInt8) :
    (t.set p contents).get? q = if q = p then some contents else t.get? q := by
  unfold get? set
  by_cases h : q = p
  · simp [h]
  · rw [List.lookup_cons, beq_false_of_ne h, if_neg h]
    induction t.files with
    | nil => rfl
    | cons f fs ih =>
        obtain ⟨r, c⟩ := f
        by_cases hr : r = p
        · simp [hr, List.lookup_cons, beq_false_of_ne h, ih]
        · simp only [List.filter_cons, bne_iff_ne, ne_eq, hr, not_false_eq_true, if_true,
            List.lookup_cons, ih]

/-- The text of the file at a place, which is empty if there is none. -/
def text (t : FileTree) (place : Place) : String :=
  ((t.get? place).bind Text.Utf8.decode?).getD ""

/-! ### Paths -/

/-- The place that the pieces of a path lead to from another.  All but the last lead to
directories. -/
def locateFrom (t : FileTree) (place : Place) : List String → Except OsError Place
  | [] => .ok place
  | p :: ps =>
    if t.isDirectory place then
      if Path.isSilent p then locateFrom t place ps
      else if p = ".." then locateFrom t place.parent ps
      else if p.utf8ByteSize > Place.maxNameBytes then .error .nameTooLong
      else locateFrom t (place ++ [p]) ps
    else if (t.get? place).isSome then .error .notDirectory
    else .error .notFound

/-- The place that the pieces of a path lead to.  They start at the root if the first is empty, as
it is before a slash. -/
def locatePieces (t : FileTree) : List String → Except OsError Place
  | "" :: pieces => t.locateFrom [] pieces
  | pieces => t.locateFrom Place.working pieces

/-- The pieces of a path, which may be neither empty nor too long. -/
def piecesOf (path : String) : Except OsError (List String) :=
  if path = "" then .error .notFound
  else if path.utf8ByteSize > Place.maxPathBytes then .error .nameTooLong
  else .ok (Path.pieces path)

/-- The place that a path leads to. -/
def locate (t : FileTree) (path : String) : Except OsError Place := do
  t.locatePieces (← piecesOf path)

/-- The place where a file is written under a path.  A slash at the end asks for a directory,
and so the last name before it plays no role. -/
def locateNew (t : FileTree) (path : String) : Except OsError Place := do
  let pieces ← piecesOf path
  match pieces.reverse with
  | "" :: ps =>
    let directory := ((ps.dropWhile (· == "")).drop 1).reverse
    let _ ← t.locatePieces (directory ++ ["."])
    throw .isDirectory
  | _ =>
    let place ← t.locatePieces pieces
    if t.isDirectory place then throw .isDirectory
    return place

/-! ### Reading and writing -/

/-- The contents of the file that a path leads to. -/
def read (t : FileTree) (path : String) : Except OsError (List UInt8) := do
  let place ← t.locate path
  match t.get? place with
  | some contents => return contents
  | none => throw (if t.isDirectory place then .isDirectory else .notFound)

/-- The tree in which the file that a path leads to has other contents. -/
def write (t : FileTree) (path : String) (contents : List UInt8) : Except OsError FileTree := do
  let place ← t.locateNew path
  if place = Place.full then throw .noSpace
  return t.set place contents

/-! ### The working directory -/

/-- The place that a name, or several with slashes between them, leads to from the working
directory. -/
def placeOf (path : String) : Place :=
  Place.working ++ (Path.pieces path).filter fun p => !Path.isSilent p

/-- The tree of the standard files and of some in the working directory. -/
def ofList (files : List (String × List UInt8)) : FileTree where
  files := files.map (fun f => (placeOf f.1, f.2)) ++ Place.standardFiles.map (·, [])

/-- The files of the working directory that are not as they were in another tree, by their
paths. -/
def changedFrom (t old : FileTree) : List (String × List UInt8) :=
  (t.files.filter fun f => old.get? f.1 != some f.2).filterMap fun f =>
    f.1.belowWorking?.map fun names => ("/".intercalate names, f.2)

end FileTree

end Hermetic

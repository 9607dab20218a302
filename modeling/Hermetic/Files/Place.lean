/-
Places of files and directories.

A place is the list of the names that lead to it from the root.  A run takes place in a working
directory, from which a path leads unless it starts with a slash.  Around it are the directories
and the files that every system has.

* `Place.parent`: one step up;
* `Place.working`, `Place.belowWorking?`: the working directory, and the names that lead to a
  place from there;
* `Place.standardDirectories`, `Place.standardFiles`: what there is before any file is made.
-/
namespace Hermetic

/-- The names that lead to a file or a directory from the root. -/
abbrev Place := List String

namespace Place

/-- The directory that a place lies in.  The root lies in itself. -/
def parent (place : Place) : Place :=
  place.dropLast

theorem parent_append_singleton (place : Place) (name : String) :
    parent (place ++ [name]) = place := by
  simp [parent]

/-- The working directory.  Its own name is not known to a run: no name in a path has a slash. -/
def working : Place :=
  ["tmp", "/"]

/-- The names that lead to a place from the working directory. -/
def belowWorking? (place : Place) : Option (List String) :=
  if working.isPrefixOf place then some (place.drop working.length) else none

theorem belowWorking?_working_append (names : List String) :
    belowWorking? (working ++ names) = some names := by
  simp [belowWorking?, working]

/-- The file for what nobody wants to keep. -/
def null : Place :=
  ["dev", "null"]

/-- The file in which there is no room for anything. -/
def full : Place :=
  ["dev", "full"]

/-- The file that holds what is given to a run. -/
def standardInput : Place :=
  ["dev", "stdin"]

/-- The file that holds what a run prints. -/
def standardOutput : Place :=
  ["dev", "stdout"]

/-- The file that holds what a run complains about. -/
def standardError : Place :=
  ["dev", "stderr"]

/-- The files that every system has.  All are empty when a run starts. -/
def standardFiles : List Place :=
  [null, full, standardInput, standardOutput, standardError]

/-- The directories that every system has, as far as a longer one does not pass through them. -/
def standardDirectories : List Place :=
  [working, ["bin"], ["boot"], ["dev"], ["etc"], ["home"], ["lib"], ["media"], ["mnt"], ["opt"],
    ["proc"], ["root"], ["run"], ["sbin"], ["srv"], ["sys"], ["usr", "bin"], ["usr", "include"],
    ["usr", "lib"], ["usr", "local", "bin"], ["usr", "local", "include"], ["usr", "local", "lib"],
    ["usr", "sbin"], ["usr", "share"], ["var", "lib"], ["var", "log"], ["var", "tmp"]]

/-- The most bytes that a name may have. -/
def maxNameBytes : Nat :=
  255

/-- The most bytes that a path may have. -/
def maxPathBytes : Nat :=
  4095

end Place

end Hermetic

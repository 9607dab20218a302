/-
The text around a sealed module.

A module is enclosed by two labels.  After the second stand the helpers that it asked for, and
room for the hash of what lies between the labels.

* `Boundary.opening`, `Boundary.closing`: the lines before and after a module, which
  `Boundary.begin` and `Boundary.finish` write;
* `Boundary.x86Helpers`, `Boundary.armHelpers`: the helpers of the two architectures.
-/
import Hermetic.Emission

namespace Hermetic

/-- The source file that the lines around a module are attributed to: a number that is free, and
whether files are listed with checksums. -/
structure DebugFile where
  number : Nat
  md5 : Bool
deriving DecidableEq, Repr

/-- What the text around a module depends on: the architecture, the marker that its labels are
named after, and the source file that it is attributed to. -/
structure Boundary where
  arch : Arch
  marker : String
  debug : Option DebugFile
deriving DecidableEq, Repr

namespace Boundary

/-- The number of bytes of a hash. -/
def hashLength : Nat := 32

/-! ### Helpers of x86-64 -/

/-- The lines that declare a function and define its name. -/
def functionLabel (name : String) : List Line :=
  [.plain ".type" [name, "@function"], .label name]

/-- A jump to a symbol. -/
def x86Redirector (symbol : String) : List Line :=
  functionLabel (Symbol.redirector symbol) ++ [.tabbed "jmp" [.symbol symbol]]

/-- A function that returns an address. -/
def x86Accessor (symbol target : String) : List Line :=
  functionLabel (Symbol.accessor symbol) ++
    [.tabbed "leaq" [.memory (.ripRelative target), .register "%rax"], .tabbed "ret" []]

/-- A word that holds the distance to the table entry of a symbol. -/
def x86GotEntry (symbol : String) : List Line :=
  let name := Symbol.gotSlot symbol
  [.plain ".type" [name, "@object"], .plain ".size" [name, "8"], .label name,
    .data ".long" [symbol ++ "@GOTPCREL"], .data ".long" ["0"]]

/-- A word that holds the distance to the offset table. -/
def x86GotDelta : List Line :=
  [.label Symbol.gotDelta, .data ".quad" [gotName ++ "-" ++ Symbol.gotDelta]]

/-- A word that holds the place of a symbol in the offset table, or its distance to the table. -/
def x86GotOffset (fromTable : Bool) (symbol : String) : List Line :=
  [.label (Symbol.gotOffsetSlot symbol fromTable),
    .data ".quad" [symbol ++ (if fromTable then "@GOTOFF" else "@GOT")]]

/-- The helpers of a module for x86-64. -/
def x86Helpers (h : Helpers) : List Line :=
  h.redirectors.toList.flatMap x86Redirector ++
  h.accessors.toList.flatMap (fun p => x86Accessor p.1 p.2) ++
  h.gotEntries.toList.flatMap x86GotEntry ++
  (if h.gotDelta then x86GotDelta else []) ++
  h.gotOffsets.toList.flatMap (x86GotOffset false) ++
  h.tableOffsets.toList.flatMap (x86GotOffset true)

/-! ### Helpers of AArch64 -/

/-- A hidden function, which may be branched to indirectly. -/
def armFunction (name : String) (body : List Line) : List Line :=
  [.plain ".p2align" ["2"], .plain ".hidden" [name]] ++ functionLabel name ++
  [.plain ".cfi_startproc" [], .landingPad] ++ body ++
  [.plain ".cfi_endproc" [], .plain ".size" [name, ".-" ++ name]]

/-- A jump to a symbol. -/
def armRedirector (symbol : String) : List Line :=
  armFunction (Symbol.redirector symbol) [.spaced "b" [.symbol symbol]]

/-- A function that returns an address. -/
def armAccessor (symbol target : String) : List Line :=
  armFunction (Symbol.accessor symbol)
    [.spaced "adrp" [.register "x0", .symbol target],
      .spaced "add" [.register "x0", .register "x0",
        .ofKind (.relocation { spec := "lo12", symbol := target })],
      .spaced "ret" []]

/-- A function that loads the address of a symbol from the offset table. -/
def armGotEntry (symbol : String) : List Line :=
  armFunction (Symbol.gotHelper symbol)
    [.spaced "adrp" [.register "x0", .ofKind (.relocation { spec := "got", symbol })],
      .spaced "ldr" [.register "x0",
        .ofKind (.indexed {
          base := "x0", rest := some (.relocation { spec := "got_lo12", symbol }) })],
      .spaced "ret" []]

/-- The helpers of a module for AArch64. -/
def armHelpers (h : Helpers) : List Line :=
  h.redirectors.toList.flatMap armRedirector ++
  h.accessors.toList.flatMap (fun p => armAccessor p.1 p.2) ++
  h.gotEntries.toList.flatMap armGotEntry

/-! ### The lines around a module -/

/-- The line that attributes what follows to a line of a source file. -/
def attribution (debug : Option DebugFile) (line : Nat) : List Line :=
  match debug with
  | some d => [.plain ".loc" [toString d.number ++ " " ++ toString line ++ " 0"]]
  | none => []

/-- The line that lists a source file. -/
def listing (debug : Option DebugFile) : List Line :=
  match debug with
  | some d =>
    [.plain ".file" [toString d.number ++ " \"inserted_by_delocate.c\"" ++
      (if d.md5 then " md5 0x00000000000000000000000000000000" else "")]]
  | none => []

/-- The lines before a module. -/
def opening (b : Boundary) : List Line :=
  [.plain ".text" []] ++ listing b.debug ++ attribution b.debug 1 ++
    [.label (b.marker ++ "_start")]

/-- The helpers of a module. -/
def helperLines (arch : Arch) (h : Helpers) : List Line :=
  match arch with
  | .x86_64 => x86Helpers h
  | .aarch64 => armHelpers h

/-- The room for the hash of a module. -/
def hashLines (marker : String) : List Line :=
  let name := marker ++ "_hash"
  [.plain ".type" [name, "@object"], .plain ".size" [name, toString hashLength], .label name] ++
    List.replicate hashLength (.plain ".byte" ["0x00"])

/-- The lines after a module that asked for helpers. -/
def closing (b : Boundary) (h : Helpers) : List Line :=
  [.plain ".text" []] ++ attribution b.debug 2 ++ [.label (b.marker ++ "_end")] ++
    helperLines b.arch h ++ hashLines b.marker

/-! ### Writing -/

/-- The output with the lines before a module. -/
def begin (b : Boundary) (o : Output) : Output :=
  o.put (Line.textAll b.opening)

/-- The output with the lines after a module, which start on a line of their own. -/
def finish (b : Boundary) (h : Helpers) (o : Output) : Output :=
  o.freshLine.put (Line.textAll (b.closing h))

end Boundary

end Hermetic

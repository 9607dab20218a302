/-
Archives with one member.

An archive starts with a mark of eight bytes.  Each member has a header of sixty bytes in fixed
fields, followed by its data, which is padded to an even length.  Names that are too long for
their field stand in a table, which is a member itself, or in front of the data.

* `Archive.Fault`: what can be wrong with an archive;
* `Archive.number?`, `Archive.tableName?`: the fields;
* `Archive.readMember`: a member, and the bytes after it;
* `Archive.skipTables`: the bytes from the first ordinary member on, and the table of names;
* `Archive.singleMember`: the name and the text of the only member.
-/
import Hermetic.Text.Utf8

namespace Hermetic.Archive

/-! ### Faults -/

/-- What can be wrong with an archive. -/
inductive Fault
  | tooShort
  | unknownMark
  | header
  | terminator
  | size
  | nameOffset
  | nameLength
  | dataSize
  | noMember
  | severalMembers
  /-- The data of a member is no text. -/
  | notText (name : String)
deriving DecidableEq, Repr

/-- A fault in words. -/
def Fault.message : Fault → String
  | tooShort => "Invalid archive size"
  | unknownMark => "Unsupported archive identifier"
  | header => "Invalid archive member header"
  | terminator => "Invalid archive terminator"
  | size => "Invalid archive member size"
  | nameOffset => "Invalid archive extended name offset"
  | nameLength => "Invalid archive extended name length"
  | dataSize => "Archive member size is too large"
  | noMember => "archive has no members"
  | severalMembers => "archive must contain exactly one member"
  | notText name => "member " ++ name ++ " is not UTF-8 assembly text"

/-! ### Fields -/

/-- The bytes of a text. -/
def bytes (text : String) : List UInt8 :=
  Text.Utf8.encode text

/-- The byte of an ASCII character. -/
def byte (c : Char) : UInt8 :=
  c.toNat.toUInt8

/-- Whether a byte is a decimal digit. -/
def isDigit (b : UInt8) : Bool :=
  byte '0' ≤ b && b ≤ byte '9'

/-- The number whose decimal digits are some bytes. -/
def ofDigits (l : List UInt8) : Nat :=
  l.foldl (fun n b => n * 10 + (b.toNat - '0'.toNat)) 0

/-- The number in a field: its digits go to the first space, and the field does not start with
one. -/
def number? (field : List UInt8) : Option Nat :=
  let digits := field.takeWhile (· != byte ' ')
  if digits.isEmpty || !digits.all isDigit then none else some (ofDigits digits)

/-- The bytes up to the first of some kind, or all of them. -/
def upTo (stop : Char) (l : List UInt8) : List UInt8 :=
  l.takeWhile (· != byte stop)

/-- The name that starts at a place of the table: it ends with a slash and a line feed, or
before a zero byte. -/
def tableName? (table field : List UInt8) : Option (List UInt8) := do
  let offset ← number? field
  if table.length < offset then none
  let rest := table.drop offset
  let name := rest.takeWhile fun b => b != byte '\n' && b != 0
  let stop ← rest[name.length]?
  if stop = 0 then some name
  else if name.getLast? = some (byte '/') then some name.dropLast
  else none

/-! ### Members -/

/-- A member: its name, and its data unless the archive ends before. -/
structure Member where
  name : List UInt8
  data : Option (List UInt8)
deriving DecidableEq, Repr

/-- The first `n` bytes, if there are so many. -/
def takeExactly (n : Nat) (l : List UInt8) : Option (List UInt8) :=
  if n ≤ l.length then some (l.take n) else none

/-- The names of members that hold the symbols or the names of the others. -/
def isTable (name : List UInt8) : Bool :=
  [bytes "/", bytes "//", bytes "/SYM64/"].contains name

/-- The member whose name stands in front of its data. -/
def namedByData (size : Nat) (field rest : List UInt8) : Except Fault Member :=
  match number? field with
  | none => .error .nameLength
  | some length =>
    match takeExactly length rest with
    | none => .error .nameLength
    | some name =>
      if size < length then .error .nameLength
      else
        .ok {
          name := name.takeWhile (· != 0)
          data := takeExactly (size - length) (rest.drop length) }

/-- The name of a member whose header holds it. -/
def headerName (field : List UInt8) : List UInt8 :=
  if field.head? = some (byte '/') then upTo ' ' field
  else if field.contains (byte '/') then upTo '/' field
  else upTo ' ' field

/-- The member with a size and a name field, in front of its data. -/
def memberOf (table : List UInt8) (size : Nat) (field rest : List UInt8) :
    Except Fault Member :=
  let data := takeExactly size rest
  if field.head? = some (byte '/') ∧ (field[1]?).any isDigit then
    match tableName? table (field.drop 1) with
    | some name => .ok { name, data }
    | none => .error .nameOffset
  else if (bytes "#1/").isPrefixOf field ∧ (field[3]?).any isDigit then
    namedByData size (field.drop 3) rest
  else .ok { name := headerName field, data }

/-- The member at the front of some bytes, and the bytes after it.  In a thin archive only
tables have data. -/
def readMember (thin : Bool) (table l : List UInt8) :
    Except Fault (Member × List UInt8) := do
  if l.length < 60 then throw .header
  let rest := l.drop 60
  if (l.drop 58).take 2 != bytes "\x60\n" then throw .terminator
  match number? ((l.drop 48).take 10) with
  | none => throw .size
  | some size =>
    let member ← memberOf table size (l.take 16) rest
    if thin && !isTable member.name then return ({ member with data := some [] }, rest)
    return (member, rest.drop (size + size % 2))

/-! ### Archives -/

/-- The names of members that hold the symbols of the others, and have no table after them. -/
def symbolMembers : List (List UInt8) :=
  [bytes "__.SYMDEF", bytes "__.SYMDEF SORTED", bytes "__.SYMDEF_64", bytes "__.SYMDEF_64 SORTED"]

/-- The data of a table. -/
def tableData (member : Member) : Except Fault (List UInt8) :=
  match member.data with
  | some data => .ok data
  | none => .error .dataSize

/-- The bytes after a table of names, and the table, if one is in front of some bytes. -/
def skipNames (thin : Bool) (l : List UInt8) : Except Fault (List UInt8 × List UInt8) :=
  if l.isEmpty then .ok (l, [])
  else do
    let (member, rest) ← readMember thin [] l
    if member.name = bytes "//" then return (rest, ← tableData member)
    return (l, [])

/-- The bytes from the first ordinary member on, and the table of names, from the bytes after
the mark. -/
def skipTables (thin : Bool) (l : List UInt8) : Except Fault (List UInt8 × List UInt8) :=
  if l.isEmpty then .ok (l, [])
  else do
    let (member, rest) ← readMember thin [] l
    if member.name = bytes "/" ∨ member.name = bytes "/SYM64/" then skipNames thin rest
    else if member.name = bytes "//" then return (rest, ← tableData member)
    else if symbolMembers.contains member.name then return (rest, [])
    else return (l, [])

/-- Whether an archive is thin, told by its mark. -/
def isThin (l : List UInt8) : Except Fault Bool :=
  if l.length < 8 then .error .tooShort
  else if l.take 8 = bytes "!<arch>\n" then .ok false
  else if l.take 8 = bytes "!<thin>\n" then .ok true
  else .error .unknownMark

/-- The first member of an archive, which has no other. -/
def onlyMember (l : List UInt8) : Except Fault Member := do
  let thin ← isThin l
  let (members, table) ← skipTables thin (l.drop 8)
  if members.isEmpty then throw .noMember
  let (member, rest) ← readMember thin table members
  if !rest.isEmpty then throw .severalMembers
  return member

/-- The name and the text of the only member of an archive. -/
def singleMember (l : List UInt8) : Except Fault (String × String) := do
  let member ← onlyMember l
  let name := Text.Utf8.decodeLossy member.name
  match member.data with
  | none => throw .dataSize
  | some data =>
    match Text.Utf8.decode? data with
    | none => throw (.notText name)
    | some text => return (name, text)

end Hermetic.Archive

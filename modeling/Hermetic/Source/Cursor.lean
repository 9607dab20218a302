/-
Reading positions.

A cursor stands in a text and knows its place: the number of bytes before it, its line, and
where that line begins.  The text is a list of units, which are characters where statements are
read, and bytes where a place may lie inside a character; both are read through `SourceUnit`.
Every operation moves the cursor by some number of units: it is a function on the units that
are left, which counts, followed by `Cursor.skip`.

* `Position.step`, `Cursor.bump`, `Cursor.skip`: how a cursor moves;
* `Cursor.here`, `Cursor.spanTo`: the place of a cursor, and the stretch between two;
* `blankRun`, `commentRun`, `quotedRun`: how far blanks, comments and strings go;
* `Cursor.skipSpace`, `Cursor.skipBlockComment`, `Cursor.takeQuoted`: the same as moves, which
  fail on a comment or string that does not end;
* `Cursor.length_skip`: a move by `n` units leaves `n` units less;
* `Cursor.Reaches`: one cursor is further on in the text than another, which holds of every move.
-/
import Hermetic.Error
import Hermetic.Symbol.Name
import Hermetic.Text.Utf8

namespace Hermetic

/-! ### Units -/

/-- What a text is read in: each unit takes some bytes and reads as a character, and units are
put together to a text.  Nothing but ASCII is tested for, so a byte may read as any other
character. -/
class SourceUnit (α : Type) where
  width : α → Nat
  char : α → Char
  text : List α → String
  units : String → List α

/-- Reading by characters. -/
instance : SourceUnit Char where
  width := Char.utf8Size
  char := id
  text := String.ofList
  units := String.toList

/-- Reading by bytes: bytes that are no text put together to the empty one. -/
instance : SourceUnit UInt8 where
  width _ := 1
  char b := Char.ofNat b.toNat
  text l := (Text.Utf8.decode? l).getD ""
  units := Text.Utf8.encode

open SourceUnit

/-! ### Positions -/

/-- A place in a text: the number of bytes before it, the number of its line, counted from one,
and the place where that line begins.  Lines are counted without bound here and in 32 bits where the
program runs, which is the same in every text in which fewer than 2^32 - 1 lines end
(`Session.afterAll_within`). -/
structure Position where
  offset : Nat := 0
  line : Nat := 1
  lineStart : Nat := 0
deriving DecidableEq, Repr, Inhabited

namespace Position

variable {α : Type} [SourceUnit α]

/-- The place after one more unit. -/
def step (p : Position) (u : α) : Position :=
  let offset := p.offset + width u
  if char u = '\n' then ⟨offset, p.line + 1, offset⟩ else ⟨offset, p.line, p.lineStart⟩

/-- The empty span at a place. -/
def span (p : Position) : Span :=
  ⟨p.line, p.offset - p.lineStart + 1, p.offset, 0⟩

end Position

/-! ### Cursors -/

/-- A place in a text together with the units that follow it. -/
structure Cursor (α : Type) where
  rest : List α
  position : Position := {}

namespace Cursor

variable {α : Type} [SourceUnit α]

/-- The cursor at the start of a text. -/
def ofString (text : String) : Cursor α :=
  ⟨units text, {}⟩

/-- Whether nothing is left. -/
def atEnd (c : Cursor α) : Bool :=
  c.rest.isEmpty

/-- The next unit. -/
def peek (c : Cursor α) : Option α :=
  c.rest.head?

theorem rest_ne_nil_of_peek {β : Type} {c : Cursor β} {u : β} (h : c.peek = some u) :
    c.rest ≠ [] := by
  intro hc
  simp [peek, hc] at h

/-- The unit after `n` others. -/
def peekAt (c : Cursor α) (n : Nat) : Option α :=
  c.rest[n]?

/-- The next unit, read as a character. -/
def next? (c : Cursor α) : Option Char :=
  c.rest.head?.map char

/-- The unit after the next, read as a character. -/
def second? (c : Cursor α) : Option Char :=
  c.rest[1]?.map char

/-- The cursor after one more unit, if there is one. -/
def bump (c : Cursor α) : Cursor α :=
  match c.rest with
  | [] => c
  | u :: r => ⟨r, c.position.step u⟩

/-- The cursor after `n` more units, or at the end. -/
def skip : Nat → Cursor α → Cursor α
  | 0, c => c
  | n + 1, c => skip n c.bump

@[simp] theorem rest_bump (c : Cursor α) : c.bump.rest = c.rest.tail := by
  unfold bump
  cases c with
  | mk rest position => cases rest <;> rfl

@[simp] theorem rest_skip (n : Nat) (c : Cursor α) : (skip n c).rest = c.rest.drop n := by
  induction n generalizing c with
  | zero => rfl
  | succ n ih => rw [skip, ih, rest_bump, List.drop_tail]

/-- A move by `n` units leaves `n` units less. -/
theorem length_skip (n : Nat) (c : Cursor α) :
    (skip n c).rest.length = c.rest.length - n := by
  rw [rest_skip, List.length_drop]

theorem skip_skip (m n : Nat) (c : Cursor α) : skip n (skip m c) = skip (m + n) c := by
  induction m generalizing c with
  | zero => simp [skip]
  | succ m ih =>
      rw [show m + 1 + n = (m + n) + 1 from by omega, skip, skip, ih]

theorem bump_skip (n : Nat) (c : Cursor α) : (skip n c).bump = skip n c.bump :=
  skip_skip n 1 c

/-- The empty span at a cursor. -/
def here (c : Cursor α) : Span :=
  c.position.span

/-- The span from an earlier cursor to a later one. -/
def spanTo (start stop : Cursor α) : Span :=
  { start.here with len := stop.position.offset - start.position.offset }

/-- The units that take the next `n` bytes. -/
def unitsOfBytes : Nat → List α → List α
  | 0, _ => []
  | _, [] => []
  | n + 1, u :: r => u :: unitsOfBytes (n + 1 - width u) r
termination_by structural _ l => l

/-- The text from an earlier cursor to a later one. -/
def textTo (start stop : Cursor α) : String :=
  text (unitsOfBytes (stop.position.offset - start.position.offset) start.rest)

/-- The next `n` units as a text, and the cursor after them. -/
def take (n : Nat) (c : Cursor α) : String × Cursor α :=
  (text (c.rest.take n), c.skip n)

/-- The number of leading units that satisfy a test. -/
def countWhile (p : Char → Bool) (l : List α) : Nat :=
  (l.takeWhile fun u => p (char u)).length

/-- The units up to the first that fails a test. -/
def takeWhile (p : Char → Bool) (c : Cursor α) : String × Cursor α :=
  c.take (countWhile p c.rest)

/-- The units before the end of the line. -/
def takeLine (c : Cursor α) : String × Cursor α :=
  c.takeWhile (· != '\n')

/-- Goes past `s` if the text continues with it. -/
def eat [BEq α] (s : String) (c : Cursor α) : Bool × Cursor α :=
  let l : List α := units s
  if l.isPrefixOf c.rest then (true, c.skip l.length) else (false, c)

/-- What comes next, for a message: the end of the text, the end of the line, or up to 24
characters that are not blank. -/
def describeNext (c : Cursor α) : String :=
  match c.next? with
  | none => "end of input"
  | some '\n' => "end of line"
  | some _ =>
    let word := (text c.rest).toList.takeWhile fun ch => !Text.isBlank ch
    "'" ++ String.ofList (word.take 24) ++ "'"

/-! ### Comments and blanks -/

/-- The blanks within a statement: space, tab, carriage return and form feed. -/
def isSpace (c : Char) : Bool :=
  c == ' ' || c == '\t' || c == '\r' || c == '\x0c'

/-- Where a block comment ends: the number of units up to and with the first `*/`, counted on
from `n`. -/
def commentRun (n : Nat) : List α → Option Nat
  | u :: v :: r =>
    if char u = '*' ∧ char v = '/' then some (n + 2) else commentRun (n + 1) (v :: r)
  | _ => none

/-- The length of a run of blanks and block comments, counted on from `n`, or the place where
a comment begins that does not end.  `opened` is the place of a comment that is open. -/
def blankRun (n : Nat) (opened : Option Nat) : List α → Except Nat Nat
  | [] =>
    match opened with
    | some k => .error k
    | none => .ok n
  | [u] =>
    match opened with
    | some k => .error k
    | none => .ok (if isSpace (char u) then n + 1 else n)
  | u :: v :: r =>
    match opened with
    | some k =>
      if char u = '*' ∧ char v = '/' then blankRun (n + 2) none r
      else blankRun (n + 1) (some k) (v :: r)
    | none =>
      if char u = '/' ∧ char v = '*' then blankRun (n + 2) (some n) r
      else if isSpace (char u) then blankRun (n + 1) none (v :: r)
      else .ok n

/-- The fault of a comment that begins at a cursor and does not end. -/
def openComment (c : Cursor α) : Error :=
  .fault .openComment { c.here with len := 2 }

/-- Goes past the block comment whose two opening units come next.  If it does not end, the
cursor is left at the end of the text. -/
def skipBlockComment (c : Cursor α) : Except Error Unit × Cursor α :=
  match commentRun 0 (c.rest.drop 2) with
  | some n => (.ok (), c.skip (n + 2))
  | none => (.error c.openComment, c.skip c.rest.length)

/-- Goes past blanks and block comments, which may span lines.  If a comment does not end, the
cursor is left at the end of the text. -/
def skipSpace (c : Cursor α) : Except Error Unit × Cursor α :=
  match blankRun 0 none c.rest with
  | .ok n => (.ok (), c.skip n)
  | .error n => (.error (c.skip n).openComment, c.skip c.rest.length)

/-! ### Strings -/

/-- How far a string goes from within, counted on from `n`, and whether it is closed there.  A
backslash takes the next unit with it, save a line feed, which no string contains. -/
def quotedRun (n : Nat) : List α → Nat × Bool
  | [] => (n, false)
  | [u] =>
    if char u = '"' then (n + 1, true) else if char u = '\n' then (n, false) else (n + 1, false)
  | u :: v :: r =>
    if char u = '"' then (n + 1, true)
    else if char u = '\n' then (n, false)
    else if char u = '\\' ∧ char v ≠ '\n' then quotedRun (n + 2) r
    else quotedRun (n + 1) (v :: r)

/-- Goes past the string whose opening quote comes next.  If it does not end on its line, the
cursor is left where it was found out. -/
def takeQuoted (c : Cursor α) : Except Error String × Cursor α :=
  match quotedRun (min 1 c.rest.length) (c.rest.drop 1) with
  | (n, true) => (.ok (c.take n).1, c.skip n)
  | (n, false) =>
    let stop := c.skip n
    let span := c.spanTo stop
    (.error (.fault (.openString (c.take n).1) { span with len := max span.len 1 }), stop)

/-- The outcome of a move as one value: where it fails, where the cursor is left is forgotten. -/
def settle {β : Type} : Except Error β × Cursor α → Except Error (β × Cursor α)
  | (.ok b, c) => .ok (b, c)
  | (.error e, _) => .error e

omit [SourceUnit α] in
theorem settle_eq_ok_iff {β : Type} {x : Except Error β × Cursor α} {b : β} {c : Cursor α} :
    settle x = .ok (b, c) ↔ x = (.ok b, c) := by
  obtain ⟨e | b', c'⟩ := x <;> simp [settle]

/-! ### Where moves lead -/

/-- A cursor reaches those that further reading leads to. -/
def Reaches (c d : Cursor α) : Prop :=
  ∃ n, d = c.skip n

theorem Reaches.refl (c : Cursor α) : c.Reaches c :=
  ⟨0, rfl⟩

theorem Reaches.trans {a b c : Cursor α} (h₁ : a.Reaches b) (h₂ : b.Reaches c) :
    a.Reaches c := by
  obtain ⟨m, rfl⟩ := h₁
  obtain ⟨n, rfl⟩ := h₂
  exact ⟨m + n, skip_skip m n a⟩

theorem reaches_skip (n : Nat) (c : Cursor α) : c.Reaches (c.skip n) :=
  ⟨n, rfl⟩

theorem reaches_bump (c : Cursor α) : c.Reaches c.bump :=
  ⟨1, rfl⟩

/-- Reading on never leaves more. -/
theorem Reaches.length_le {c d : Cursor α} (h : c.Reaches d) :
    d.rest.length ≤ c.rest.length := by
  obtain ⟨n, rfl⟩ := h
  rw [length_skip]
  omega

/-- Reading on after a unit leaves less. -/
theorem Reaches.length_lt {c d : Cursor α} (hc : c.rest ≠ []) (h : c.bump.Reaches d) :
    d.rest.length < c.rest.length := by
  have hle := h.length_le
  have hpos := List.length_pos_iff.mpr hc
  rw [rest_bump, List.length_tail] at hle
  omega

/-- A move by at least one unit is a move after that unit. -/
theorem bump_reaches_skip {n : Nat} (hn : 0 < n) (c : Cursor α) :
    c.bump.Reaches (c.skip n) := by
  obtain ⟨m, rfl⟩ := Nat.exists_eq_succ_of_ne_zero (Nat.pos_iff_ne_zero.mp hn)
  exact ⟨m, rfl⟩

theorem reaches_of_skipSpace {c d : Cursor α} (h : c.skipSpace = (.ok (), d)) :
    c.Reaches d := by
  unfold skipSpace at h
  split at h
  · cases h
    exact reaches_skip _ c
  · cases h

theorem bump_reaches_of_skipBlockComment {c d : Cursor α}
    (h : c.skipBlockComment = (.ok (), d)) : c.bump.Reaches d := by
  unfold skipBlockComment at h
  split at h
  · cases h
    exact bump_reaches_skip (by omega) c
  · cases h

theorem le_quotedRun (n : Nat) (l : List α) : n ≤ (quotedRun n l).1 := by
  fun_induction quotedRun n l <;> simp_all <;> omega

theorem bump_reaches_of_takeQuoted {c d : Cursor α} {s : String} (hc : c.rest ≠ [])
    (h : c.takeQuoted = (.ok s, d)) : c.bump.Reaches d := by
  unfold takeQuoted at h
  have hpos := List.length_pos_iff.mpr hc
  split at h
  · next n heq =>
      cases h
      have hle := le_quotedRun (min 1 c.rest.length) (c.rest.drop 1)
      rw [heq] at hle
      exact bump_reaches_skip (by omega) c
  · cases h

end Cursor

end Hermetic

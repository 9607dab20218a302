/-
Offsets: runs of signed numbers in three bases.

* `Offset.termLength`: the length of the number at the front of a text, with its signs;
* `Offset.take`: the run of numbers at the front of a text, and what follows it, with
  `Offset.take_append`: nothing is lost.
-/
import Hermetic.Text.Blank

namespace Hermetic.Offset

/-- The hexadecimal digits. -/
def isHexDigit (c : Char) : Bool :=
  c.isDigit || ('a' ≤ c && c ≤ 'f') || ('A' ≤ c && c ≤ 'F')

/-- The binary digits. -/
def isBit (c : Char) : Bool :=
  c == '0' || c == '1'

/-- The number of digits at the front of a text, with the mark of their base. -/
def digitsLength : List Char → Nat
  | '0' :: 'x' :: c :: l | '0' :: 'X' :: c :: l =>
    if isHexDigit c then 3 + (l.takeWhile isHexDigit).length else 1
  | '0' :: 'b' :: c :: l | '0' :: 'B' :: c :: l =>
    if isBit c then 3 + (l.takeWhile isBit).length else 1
  | l => (l.takeWhile Char.isDigit).length

/-- The number of signs at the front of a text: a plus, a minus, or a plus and a minus. -/
def signLength : List Char → Nat
  | '+' :: '-' :: _ => 2
  | '+' :: _ => 1
  | '-' :: _ => 1
  | _ => 0

/-- The length of the number at the front of a text, with its signs, or zero. -/
def termLength (l : List Char) : Nat :=
  let digits := digitsLength (l.drop (signLength l))
  if digits = 0 then 0 else signLength l + digits

/-- The run of numbers at the front of a text, and what follows it. -/
def take (l : List Char) : List Char × List Char :=
  if termLength l = 0 then ([], l)
  else
    let (run, rest) := take (l.drop (termLength l))
    (l.take (termLength l) ++ run, rest)
termination_by l.length
decreasing_by
  have hl : l ≠ [] := by
    rintro rfl
    simp [termLength, digitsLength, signLength] at *
  have := List.length_pos_iff.mpr hl
  rw [List.length_drop]
  omega

/-- The run and what follows it make up the text. -/
theorem take_append (l : List Char) : (take l).1 ++ (take l).2 = l := by
  fun_induction take l with
  | case1 => rfl
  | case2 l _ run rest h ih =>
      rw [h] at ih
      simp only at ih
      rw [List.append_assoc, ih, List.take_append_drop]

end Hermetic.Offset

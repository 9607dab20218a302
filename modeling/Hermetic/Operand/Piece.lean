/-
The arguments of a statement, cut at their commas.

Brackets and strings keep their commas.  Every piece knows how many bytes of the arguments stand
before it, without the blanks around it.

* `cutCommas`: the text between the commas that count, with `cutCommas_ne_nil` and
  `intercalate_cutCommas`: there is always a first piece, and the pieces with commas between
  them are the text;
* `Piece.split`: the pieces with their places.
-/
import Hermetic.Text.Blank

namespace Hermetic

/-- A part of a text without the blanks around it, and the number of bytes before it. -/
structure Piece where
  offset : Nat
  text : List Char
deriving DecidableEq, Repr

namespace Piece

/-- A character in front of the first of some texts. -/
def push (c : Char) : List (List Char) → List (List Char)
  | [] => [[c]]
  | p :: ps => (c :: p) :: ps

/-- The text between the commas outside brackets and strings.  `depth` counts the brackets that
are open, and `quoted` tells whether a string is. -/
def cutCommas (depth : Int) (quoted : Bool) : List Char → List (List Char)
  | [] => [[]]
  | [c] => if !quoted && c == ',' && depth == 0 then [[], []] else [[c]]
  | c :: d :: l =>
    if quoted then
      if c = '\\' then push c (push d (cutCommas depth true l))
      else push c (cutCommas depth (c != '"') (d :: l))
    else if c = ',' ∧ depth = 0 then [] :: cutCommas depth false (d :: l)
    else if c = '(' ∨ c = '[' ∨ c = '{' then push c (cutCommas (depth + 1) false (d :: l))
    else if c = ')' ∨ c = ']' ∨ c = '}' then push c (cutCommas (depth - 1) false (d :: l))
    else push c (cutCommas depth (c == '"') (d :: l))

/-- The piece that is cut out after some bytes. -/
def ofCut (offset : Nat) (cut : List Char) : Piece where
  offset := offset + Text.byteLength (cut.takeWhile Text.isBlank)
  text := Text.trim cut

/-- The pieces that are cut out after some bytes, with one byte between two of them. -/
def ofCuts (offset : Nat) : List (List Char) → List Piece
  | [] => []
  | cut :: cuts => ofCut offset cut :: ofCuts (offset + Text.byteLength cut + 1) cuts

/-- The arguments in a text.  A blank text has none. -/
def split (l : List Char) : List Piece :=
  if l.all Text.isBlank then [] else ofCuts 0 (cutCommas 0 false l)

/-! ### Nothing is lost -/

theorem push_ne_nil (c : Char) (ps : List (List Char)) : push c ps ≠ [] := by
  cases ps <;> simp [push]

/-- There is always a first piece. -/
theorem cutCommas_ne_nil (depth : Int) (quoted : Bool) (l : List Char) :
    cutCommas depth quoted l ≠ [] := by
  fun_cases cutCommas depth quoted l <;> simp [push_ne_nil]

theorem intercalate_push (c : Char) {ps : List (List Char)} (h : ps ≠ []) :
    [','].intercalate (push c ps) = c :: [','].intercalate ps := by
  obtain ⟨p, ps, rfl⟩ := List.exists_cons_of_ne_nil h
  cases ps <;> simp [push, List.intercalate]

theorem intercalate_nil_cons {ps : List (List Char)} (h : ps ≠ []) :
    [','].intercalate ([] :: ps) = ',' :: [','].intercalate ps := by
  obtain ⟨p, ps, rfl⟩ := List.exists_cons_of_ne_nil h
  simp [List.intercalate]

/-- The pieces with commas between them are the text. -/
theorem intercalate_cutCommas (depth : Int) (quoted : Bool) (l : List Char) :
    [','].intercalate (cutCommas depth quoted l) = l := by
  fun_induction cutCommas depth quoted l with
  | case1 => rfl
  | case2 depth quoted c h =>
      simp only [Bool.and_eq_true, beq_iff_eq] at h
      simp [List.intercalate, h.1.2]
  | case3 => simp [List.intercalate]
  | case4 depth d l ih =>
      rw [intercalate_push _ (push_ne_nil _ _),
        intercalate_push _ (cutCommas_ne_nil _ _ _), ih]
  | case6 depth quoted c d l hq hc ih =>
      rw [intercalate_nil_cons (cutCommas_ne_nil _ _ _), ih, hc.1]
  | _ =>
      rename_i ih
      rw [intercalate_push _ (cutCommas_ne_nil _ _ _), ih]

end Piece

end Hermetic

/-
Texts that are put together with a character between their parts.

* `Text.ended`: parts with the character after each of them;
* `Text.exists_intercalate`: where a part stands in such a text;
* `Text.not_mem_of_mem_splitOn`, `Text.splitOn_ended`: the parts between the characters.
-/
import Mathlib.Tactic.Lemma

namespace Hermetic.Text

variable {x : Char} {part : List Char} {parts : List (List Char)}

/-- Some parts of a text, with a character after each. -/
def ended (x : Char) (parts : List (List Char)) : List Char :=
  parts.flatMap (· ++ [x])

lemma ended_cons : ended x (part :: parts) = part ++ x :: ended x parts := by
  simp [ended]

/-- A part stands after the parts before it, and before the next character between parts. -/
lemma exists_intercalate (x : Char) (front back : List (List Char)) (part : List Char) :
    ∃ after, [x].intercalate (front ++ part :: back) = ended x front ++ (part ++ after) ∧
      ∀ ch, after.head? = some ch → ch = x := by
  induction front with
  | nil =>
      cases back with
      | nil => exact ⟨[], by simp [ended, List.intercalate], nofun⟩
      | cons next back =>
          refine ⟨x :: [x].intercalate (next :: back), by simp [ended, List.intercalate], ?_⟩
          rintro ch ⟨⟩
          rfl
  | cons first front ih =>
      obtain ⟨after, hafter, hhead⟩ := ih
      have htext : [x].intercalate (first :: (front ++ part :: back)) =
          first ++ x :: [x].intercalate (front ++ part :: back) := by
        cases front <;> simp [List.intercalate]
      exact ⟨after, by rw [List.cons_append, htext, hafter, ended_cons]; simp, hhead⟩

/-- The first part of a text. -/
lemma exists_intercalate_cons (x : Char) (part : List Char) (back : List (List Char)) :
    ∃ after, [x].intercalate (part :: back) = part ++ after := by
  obtain ⟨after, hafter, -⟩ := exists_intercalate x [] back part
  exact ⟨after, hafter⟩

lemma not_mem_of_mem_splitOn {l : List Char} : ∀ p ∈ l.splitOn x, x ∉ p := by
  induction l with
  | nil => simp
  | cons ch l ih =>
      obtain ⟨q, qs, hsplit⟩ := List.exists_cons_of_ne_nil (List.splitOn_ne_nil x l)
      rw [List.splitOn_cons_eq_if_modifyHead, hsplit]
      rw [hsplit] at ih
      intro p hp
      split at hp
      · rcases List.mem_cons.mp hp with rfl | hp
        · nofun
        · exact ih p hp
      · next hch =>
          rcases List.mem_cons.mp hp with rfl | hp
          · rw [List.mem_cons, not_or]
            exact ⟨fun h => hch (by simp [← h]), ih q List.mem_cons_self⟩
          · exact ih p (List.mem_cons_of_mem _ hp)

/-- The parts are found again before the characters after them. -/
lemma splitOn_ended (h : ∀ p ∈ parts, x ∉ p) : (ended x parts).splitOn x = parts ++ [[]] := by
  induction parts with
  | nil => rfl
  | cons part parts ih =>
      obtain ⟨hpart, hparts⟩ := List.forall_mem_cons.mp h
      rw [ended_cons, List.splitOn_append_cons_self_of_not_mem hpart, ih hparts]
      rfl

end Hermetic.Text

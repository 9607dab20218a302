/-
The statements of a text, one after the other.

* `kindAt_eq_ok`: what kinds of statements are read;
* `Listed`: statements that are read from a cursor on, until nothing is left;
* `parse_eq_ok_iff`: a text is read as statements exactly if they are so listed.
-/
import Hermetic.Statement.Parser
import Mathlib.Data.Nat.Notation
import Mathlib.Tactic.Lemma

namespace Hermetic.Statement

/-- A statement that is read is blank, a comment, a label, a directive or an instruction. -/
lemma kindAt_eq_ok {arch : Arch} {c d : Cursor Char} {kind : Kind}
    (h : kindAt arch c = .ok (kind, d)) :
    kind = .blank ∨ kind = .comment ∨
      (∃ label, kind = .label label ∧ label? c = some (label, d)) ∨
        ∃ stop, directive arch c = .ok (kind, stop) ∨ instruction arch c = .ok (kind, stop) := by
  unfold kindAt at h
  split at h
  · cases h
    exact .inl rfl
  · split at h
    · cases h
      exact .inl rfl
    · split at h
      · cases h
        exact .inr (.inl rfl)
      · split at h
        · next hlabel =>
            cases h
            exact .inr (.inr (.inl ⟨_, rfl, hlabel⟩))
        · obtain ⟨⟨kind, stop⟩, hbody, h⟩ := Outcome.bind_eq_ok_iff.mp h
          obtain ⟨e, -, h⟩ := Outcome.bind_eq_ok_iff.mp h
          cases h
          refine .inr (.inr (.inr ⟨stop, ?_⟩))
          unfold bodyAt at hbody
          split at hbody
          · exact .inl hbody
          · split at hbody
            · exact .inr hbody
            · cases hbody

/-- Statements that are read from a cursor on, until nothing is left. -/
inductive Listed (arch : Arch) : Cursor Char → List Statement → Prop
  | nil {c : Cursor Char} : c.rest = [] → Listed arch c []
  | cons {c d : Cursor Char} {s : Statement} {statements : List Statement} :
      c.rest ≠ [] → ofCursor arch c = .ok (s, d) → Listed arch d statements →
        Listed arch c (s :: statements)

variable {arch : Arch}

/-- Every statement of a list is read at some cursor. -/
lemma Listed.exists_ofCursor {c : Cursor Char} {statements : List Statement} {s : Statement}
    (h : Listed arch c statements) (hs : s ∈ statements) :
    ∃ d e, ofCursor arch d = .ok (s, e) := by
  induction h with
  | nil => cases hs
  | cons _ hfirst _ ih =>
      rcases List.mem_cons.mp hs with rfl | hs
      · exact ⟨_, _, hfirst⟩
      · exact ih hs

lemma allFrom_of_listed {c : Cursor Char} {statements : List Statement}
    (h : Listed arch c statements) (read : List Statement) :
    allFrom arch read c = .ok (read.reverse ++ statements) := by
  induction h generalizing read with
  | nil hc => rw [allFrom, dif_pos hc, List.append_nil]
  | cons hc hs _ ih =>
      rw [allFrom, dif_neg hc]
      split
      · next heq =>
          rw [hs] at heq
          cases heq
      · next heq =>
          rw [hs] at heq
          cases heq
          rw [ih, List.reverse_cons, List.append_assoc, List.singleton_append]

lemma listed_of_allFrom {c : Cursor Char} {read statements : List Statement}
    (h : allFrom arch read c = .ok statements) :
    ∃ new, statements = read.reverse ++ new ∧ Listed arch c new := by
  fun_induction allFrom arch read c with
  | case1 read c hc =>
      cases h
      exact ⟨[], (List.append_nil _).symm, .nil hc⟩
  | case2 => cases h
  | case3 read c hc s stop hs ih =>
      obtain ⟨new, rfl, hnew⟩ := ih h
      refine ⟨s :: new, ?_, .cons hc hs hnew⟩
      rw [List.reverse_cons, List.append_assoc, List.singleton_append]

/-- A text is read as statements exactly if they are listed from its start on. -/
lemma parse_eq_ok_iff {text : String} {statements : List Statement} :
    parse arch text = .ok statements ↔ Listed arch (Cursor.ofString text) statements := by
  constructor
  · intro h
    obtain ⟨new, rfl, hnew⟩ := listed_of_allFrom h
    exact hnew
  · intro h
    exact allFrom_of_listed h []

end Hermetic.Statement

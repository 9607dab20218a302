/-
Which characters are of which sort.

* `not_isBlank_of_isAlphanum`, `not_isBlank_of_isSymbolChar`: no character of a name is blank;
* `not_isDigit_of_isSymbolStart`: no name starts with a digit;
* `isSymbolName_append`: a name with more of its characters is a name;
* `exists_span`, `takeWhile_append_of_stop`, `append_inj_of_stop`: how far characters of one sort
  go.
-/
import Hermetic.Symbol.Name
import Mathlib.Data.List.TakeWhile
import Mathlib.Tactic.Lemma

namespace Hermetic

variable {ch : Char}

lemma not_isBlank_of_isAlphanum (h : ch.isAlphanum = true) : ¬ Text.isBlank ch = true := by
  have hrange : (48 ≤ ch.toNat ∧ ch.toNat ≤ 57) ∨ (65 ≤ ch.toNat ∧ ch.toNat ≤ 90) ∨
      (97 ≤ ch.toNat ∧ ch.toNat ≤ 122) := by
    delta Char.isAlphanum Char.isAlpha Char.isUpper Char.isLower Char.isDigit at h
    simp only [Bool.or_eq_true, Bool.and_eq_true, decide_eq_true_eq] at h
    rcases h with (h | h) | h
    · exact .inr (.inl h)
    · exact .inr (.inr h)
    · exact .inl h
  simp only [Text.isBlank, Bool.or_eq_true, Bool.and_eq_true, decide_eq_true_eq, beq_iff_eq]
  omega

lemma not_isBlank_of_isSymbolChar (h : isSymbolChar ch = true) : ¬ Text.isBlank ch = true := by
  simp only [isSymbolChar, Bool.or_eq_true, beq_iff_eq] at h
  rcases h with ((h | rfl) | rfl) | rfl
  · exact not_isBlank_of_isAlphanum h
  all_goals decide

lemma isAlphanum_of_isAlpha (h : ch.isAlpha = true) : ch.isAlphanum = true := by
  simp [Char.isAlphanum, h]

lemma isSymbolChar_of_isAlphanum (h : ch.isAlphanum = true) : isSymbolChar ch = true := by
  simp [isSymbolChar, h]

lemma not_isDigit_of_isAlpha (h : ch.isAlpha = true) : ¬ ch.isDigit = true := by
  delta Char.isAlpha Char.isUpper Char.isLower at h
  delta Char.isDigit
  simp only [Bool.or_eq_true, Bool.and_eq_true, decide_eq_true_eq,
    UInt32.le_iff_toNat_le] at h ⊢
  rintro ⟨-, hle⟩
  have hnine : ch.val.toNat ≤ 57 := hle
  rcases h with ⟨hge, -⟩ | ⟨hge, -⟩
  · have hupper : 65 ≤ ch.val.toNat := hge
    omega
  · have hlower : 97 ≤ ch.val.toNat := hge
    omega

lemma not_isDigit_of_isSymbolStart (h : isSymbolStart ch = true) : ¬ ch.isDigit = true := by
  simp only [isSymbolStart, Bool.or_eq_true, beq_iff_eq] at h
  rcases h with (h | rfl) | rfl
  · exact not_isDigit_of_isAlpha h
  · decide
  · decide

/-! ### Names -/

lemma isSymbolName_cons {l : List Char} :
    isSymbolName (ch :: l) = true ↔ isSymbolStart ch = true ∧ ∀ d ∈ l, isSymbolChar d = true := by
  simp [isSymbolName]

lemma exists_cons_of_isSymbolName {l : List Char} (h : isSymbolName l = true) :
    ∃ ch r, l = ch :: r ∧ isSymbolStart ch = true ∧ ∀ d ∈ l, isSymbolChar d = true := by
  cases l with
  | nil => cases h
  | cons ch r =>
      obtain ⟨hstart, hrest⟩ := isSymbolName_cons.mp h
      refine ⟨ch, r, rfl, hstart, fun d hd => ?_⟩
      rcases List.mem_cons.mp hd with rfl | hd
      · exact isSymbolChar_of_isSymbolStart hstart
      · exact hrest d hd

/-- A name with more of its characters is a name. -/
lemma isSymbolName_append {l r : List Char} (hl : isSymbolName l = true)
    (hr : ∀ d ∈ r, isSymbolChar d = true) : isSymbolName (l ++ r) = true := by
  obtain ⟨ch, l', rfl, hstart, hall⟩ := exists_cons_of_isSymbolName hl
  rw [List.cons_append, isSymbolName_cons]
  refine ⟨hstart, fun d hd => ?_⟩
  rcases List.mem_append.mp hd with hd | hd
  · exact hall d (List.mem_cons_of_mem _ hd)
  · exact hr d hd

/-! ### Characters of one sort -/

variable {p : Char → Bool} {a r : List Char}

/-- The characters at the front of a text that are of a sort, and what follows them. -/
lemma exists_span (p : Char → Bool) (l : List Char) :
    ∃ a r, l = a ++ r ∧ l.takeWhile p = a ∧ l.dropWhile p = r ∧ (∀ ch ∈ a, p ch = true) ∧
      ∀ ch, r.head? = some ch → p ch = false := by
  refine ⟨_, _, List.takeWhile_append_dropWhile.symm, rfl, rfl,
    fun ch hch => List.mem_takeWhile_imp hch, fun ch hch => ?_⟩
  have hnot := List.head?_dropWhile_not p l
  rw [hch] at hnot
  simpa using hnot

/-- A character of another sort ends them. -/
lemma takeWhile_append_of_stop (ha : ∀ ch ∈ a, p ch = true)
    (hr : ∀ ch, r.head? = some ch → p ch = false) : (a ++ r).takeWhile p = a := by
  have hnil : r.takeWhile p = [] := by
    cases r with
    | nil => rfl
    | cons ch r => rw [List.takeWhile_cons_of_neg (by simp [hr ch rfl])]
  rw [List.takeWhile_append_of_pos ha, hnil, List.append_nil]

lemma dropWhile_append_of_stop (ha : ∀ ch ∈ a, p ch = true)
    (hr : ∀ ch, r.head? = some ch → p ch = false) : (a ++ r).dropWhile p = r := by
  have hsplit : (a ++ r).takeWhile p ++ (a ++ r).dropWhile p = a ++ r :=
    List.takeWhile_append_dropWhile
  rw [takeWhile_append_of_stop ha hr] at hsplit
  exact List.append_cancel_left hsplit

/-- There is one way to split a text where characters of a sort end. -/
lemma append_inj_of_stop {a' r' : List Char} (h : a ++ r = a' ++ r') (ha : ∀ ch ∈ a, p ch = true)
    (hr : ∀ ch, r.head? = some ch → p ch = false) (ha' : ∀ ch ∈ a', p ch = true)
    (hr' : ∀ ch, r'.head? = some ch → p ch = false) : a = a' ∧ r = r' := by
  have htake := takeWhile_append_of_stop ha hr
  rw [h, takeWhile_append_of_stop ha' hr'] at htake
  subst htake
  exact ⟨rfl, List.append_cancel_left h⟩

end Hermetic

/-
Offsets, whatever follows them.

* `Offset.EndsOffset`: what an offset does not go on with;
* `Offset.take_append_of_ends`: the run of numbers at the front of a text is the same with such a
  text after it;
* `Offset.IsOffset`: texts that are runs of numbers, with `Offset.isOffset_take`: what is taken
  from the front of a text is one.
-/
import Hermetic.Operand.Offset
import Hermetic.Symbol.Name
import Mathlib.Data.List.TakeWhile
import Mathlib.Data.Nat.Notation
import Mathlib.Tactic.Lemma

namespace Hermetic.Offset

variable {l a r : List Char}

/-! ### What follows an offset -/

/-- What an offset does not go on with. -/
structure EndsOffset (r : List Char) : Prop where
  head : ∀ ch, r.head? = some ch → ch.isAlphanum = false ∧ ch ≠ '-'
  noTerm : termLength r = 0

lemma takeWhile_append_of_head {p : Char → Bool} (h : ∀ ch, r.head? = some ch → p ch = false) :
    (a ++ r).takeWhile p = a.takeWhile p := by
  have hnil : r.takeWhile p = [] := by
    cases r with
    | nil => rfl
    | cons ch r => rw [List.takeWhile_cons_of_neg (by simp [h ch rfl])]
  rw [List.takeWhile_append]
  split
  · next hlength =>
      rw [hnil, List.append_nil, ((List.takeWhile_prefix p).eq_of_length hlength)]
  · rfl

lemma isAlphanum_of_isHexDigit {ch : Char} (h : isHexDigit ch = true) :
    ch.isAlphanum = true := by
  simp only [isHexDigit, Bool.or_eq_true, Bool.and_eq_true, decide_eq_true_eq, Char.le_def] at h
  delta Char.isAlphanum Char.isAlpha Char.isUpper Char.isLower
  simp only [Bool.or_eq_true, Bool.and_eq_true, decide_eq_true_eq]
  rcases h with (h | h) | h
  · exact .inr h
  · exact .inl (.inr ⟨h.1, UInt32.le_trans h.2 (by decide)⟩)
  · exact .inl (.inl ⟨h.1, UInt32.le_trans h.2 (by decide)⟩)

lemma isAlphanum_of_isBit {ch : Char} (h : isBit ch = true) : ch.isAlphanum = true := by
  simp only [isBit, Bool.or_eq_true, beq_iff_eq] at h
  rcases h with rfl | rfl <;> decide

lemma isAlphanum_of_isDigit {ch : Char} (h : ch.isDigit = true) : ch.isAlphanum = true := by
  simp [Char.isAlphanum, h]

/-- A test that only letters and digits pass stops before what follows an offset. -/
lemma takeWhile_append_of_alphanum {p : Char → Bool}
    (hp : ∀ {ch : Char}, p ch = true → ch.isAlphanum = true)
    (hr : ∀ ch, r.head? = some ch → ch.isAlphanum = false) :
    (a ++ r).takeWhile p = a.takeWhile p := by
  refine takeWhile_append_of_head fun ch hch => ?_
  cases hpc : p ch with
  | false => rfl
  | true =>
      have hnot := hr ch hch
      rw [hp hpc] at hnot
      cases hnot

/-- The characters that mark a base. -/
def IsMark (d : Char) : Prop :=
  d ∈ ['x', 'X', 'b', 'B']

/-- Without a mark, the digits are decimal. -/
lemma digitsLength_of_not_isMark (h : ∀ d e l', l = '0' :: d :: e :: l' → ¬ IsMark d) :
    digitsLength l = (l.takeWhile Char.isDigit).length := by
  unfold digitsLength
  split
  case h_5 => rfl
  all_goals exact (h _ _ _ rfl (by simp [IsMark])).elim

/-- After a mark, there is another base if one of its digits follows. -/
lemma digitsLength_of_isMark {d : Char} (hd : IsMark d) : ∃ p : Char → Bool,
    (∀ {ch : Char}, p ch = true → ch.isAlphanum = true) ∧ ∀ e l,
      digitsLength ('0' :: d :: e :: l) = if p e then 3 + (l.takeWhile p).length else 1 := by
  simp only [IsMark, List.mem_cons, List.not_mem_nil, or_false] at hd
  rcases hd with rfl | rfl | rfl | rfl
  · exact ⟨isHexDigit, isAlphanum_of_isHexDigit, fun e l => rfl⟩
  · exact ⟨isHexDigit, isAlphanum_of_isHexDigit, fun e l => rfl⟩
  · exact ⟨isBit, isAlphanum_of_isBit, fun e l => rfl⟩
  · exact ⟨isBit, isAlphanum_of_isBit, fun e l => rfl⟩

lemma isAlphanum_of_isMark {d : Char} (hd : IsMark d) : d.isAlphanum = true := by
  simp only [IsMark, List.mem_cons, List.not_mem_nil, or_false] at hd
  rcases hd with rfl | rfl | rfl | rfl <;> decide

/-- The digits at the front of a text. -/
lemma digitsLength_append (hr : ∀ ch, r.head? = some ch → ch.isAlphanum = false) :
    digitsLength (a ++ r) = digitsLength a := by
  by_cases hmark : ∃ d a', a = '0' :: d :: a' ∧ IsMark d
  · obtain ⟨d, a', rfl, hd⟩ := hmark
    obtain ⟨p, hp, hlength⟩ := digitsLength_of_isMark hd
    have hdecimal : digitsLength ['0', d] = 1 := by
      have hdigit : ¬ d.isDigit = true := by
        simp only [IsMark, List.mem_cons, List.not_mem_nil, or_false] at hd
        rcases hd with rfl | rfl | rfl | rfl <;> decide
      rw [digitsLength_of_not_isMark (by simp), List.takeWhile_cons_of_pos (by decide),
        List.takeWhile_cons_of_neg hdigit]
      rfl
    cases a' with
    | nil =>
        -- a mark at the end is one only with a digit behind it, which does not follow
        cases r with
        | nil => rw [List.append_nil]
        | cons e r =>
            have he : ¬ p e = true := fun he => by
              have hnot := hr e rfl
              rw [hp he] at hnot
              cases hnot
            rw [hdecimal]
            exact (hlength e r).trans (if_neg he)
    | cons e a' =>
        rw [hlength, List.cons_append, List.cons_append, List.cons_append, hlength,
          takeWhile_append_of_alphanum hp hr]
  · -- there is no mark across the two texts
    have hnot : ∀ d e l', a ++ r = '0' :: d :: e :: l' → ¬ IsMark d := by
      intro d e l' heq hd
      match a with
      | [] =>
          rw [List.nil_append] at heq
          exact absurd (hr '0' (by rw [heq]; rfl)) (by decide)
      | [c] =>
          rw [List.singleton_append, List.cons.injEq] at heq
          have hhead := hr d (by rw [heq.2]; rfl)
          rw [isAlphanum_of_isMark hd] at hhead
          cases hhead
      | c :: d' :: a' =>
          rw [List.cons_append, List.cons_append, List.cons.injEq, List.cons.injEq] at heq
          obtain ⟨rfl, rfl, -⟩ := heq
          exact hmark ⟨_, a', rfl, hd⟩
    have hnot' : ∀ d e l', a = '0' :: d :: e :: l' → ¬ IsMark d := fun d e l' heq hd =>
      hmark ⟨d, e :: l', heq, hd⟩
    rw [digitsLength_of_not_isMark hnot, digitsLength_of_not_isMark hnot',
      takeWhile_append_of_alphanum isAlphanum_of_isDigit hr]

/-- The signs at the front of a text. -/
lemma signLength_append (ha : a ≠ []) (hr : ∀ ch, r.head? = some ch → ch ≠ '-') :
    signLength (a ++ r) = signLength a := by
  -- a plus at the end would go together with a minus behind it
  match a with
  | [] => exact (ha rfl).elim
  | [c] =>
      cases r with
      | nil => rfl
      | cons d r =>
          have hd : d ≠ '-' := hr d rfl
          rw [List.singleton_append]
          unfold signLength
          split <;> simp_all
  | c :: d :: a =>
      have hsign (l : List Char) : signLength (c :: d :: l) =
          if c = '+' ∧ d = '-' then 2 else if c = '+' ∨ c = '-' then 1 else 0 := by
        by_cases hc : c = '+'
        · subst hc
          by_cases hd : d = '-'
          · subst hd
            rfl
          · simp [signLength, hd]
        · by_cases hc' : c = '-'
          · subst hc'
            rfl
          · simp [signLength, hc, hc']
      rw [List.cons_append, List.cons_append, hsign, hsign a]

lemma signLength_le (l : List Char) : signLength l ≤ l.length := by
  unfold signLength
  split <;> simp

lemma termLength_append (ha : a ≠ []) (hr : EndsOffset r) : termLength (a ++ r) = termLength a := by
  have hsign := signLength_append ha fun ch hch => (hr.head ch hch).2
  have hdrop : (a ++ r).drop (signLength a) = a.drop (signLength a) ++ r :=
    List.drop_append_of_le_length (signLength_le a)
  have hdigits := digitsLength_append (a := a.drop (signLength a)) fun ch hch =>
    (hr.head ch hch).1
  rw [termLength, termLength, hsign, hdrop, hdigits]

lemma digitsLength_cons {ch : Char} (h : ¬ ch.isDigit = true) : digitsLength (ch :: l) = 0 := by
  rw [digitsLength_of_not_isMark, List.takeWhile_cons_of_neg h]
  · rfl
  · rintro d e l' heq
    cases heq
    exact (h (by decide)).elim

/-- No number starts with another character. -/
lemma termLength_cons {ch : Char} (hdigit : ¬ ch.isDigit = true) (hplus : ch ≠ '+')
    (hminus : ch ≠ '-') : termLength (ch :: l) = 0 := by
  have hsign : signLength (ch :: l) = 0 := by
    simp [signLength, hplus, hminus]
  simp [termLength, hsign, digitsLength_cons hdigit]

lemma digitsLength_le (l : List Char) : digitsLength l ≤ l.length := by
  have hrun (p : Char → Bool) (l : List Char) : (l.takeWhile p).length ≤ l.length :=
    (List.takeWhile_prefix p).length_le
  by_cases hmark : ∃ d e l', l = '0' :: d :: e :: l' ∧ IsMark d
  · obtain ⟨d, e, l', rfl, hd⟩ := hmark
    obtain ⟨p, -, hlength⟩ := digitsLength_of_isMark hd
    have hle := hrun p l'
    rw [hlength]
    simp only [List.length_cons]
    split <;> omega
  · have hnot : ∀ d e l', l = '0' :: d :: e :: l' → ¬ IsMark d := fun d e l' heq hd =>
      hmark ⟨d, e, l', heq, hd⟩
    rw [digitsLength_of_not_isMark hnot]
    exact hrun _ l

lemma termLength_le (l : List Char) : termLength l ≤ l.length := by
  have hsign := signLength_le l
  have hdigits := digitsLength_le (l.drop (signLength l))
  rw [List.length_drop] at hdigits
  unfold termLength
  dsimp only
  split <;> omega

lemma take_of_zero (h : termLength l = 0) : take l = ([], l) := by
  rw [take.eq_def, if_pos h]

lemma take_of_ne_zero (h : termLength l ≠ 0) : take l =
    (l.take (termLength l) ++ (take (l.drop (termLength l))).1,
      (take (l.drop (termLength l))).2) := by
  rw [take.eq_def, if_neg h]

/-- The run of numbers at the front of a text is the same with something else after it. -/
lemma take_append_of_ends (hr : EndsOffset r) :
    take (a ++ r) = ((take a).1, (take a).2 ++ r) := by
  induction ha : a.length using Nat.strongRecOn generalizing a with
  | ind n ih =>
      by_cases hnil : a = []
      · subst hnil
        rw [List.nil_append, take_of_zero hr.noTerm, take_of_zero rfl]
        rfl
      · have hterm := termLength_append hnil hr
        by_cases hzero : termLength a = 0
        · rw [take_of_zero (hterm.trans hzero), take_of_zero hzero]
        · have hle := termLength_le a
          have hdrop : (a ++ r).drop (termLength a) = a.drop (termLength a) ++ r :=
            List.drop_append_of_le_length hle
          have htake : (a ++ r).take (termLength a) = a.take (termLength a) :=
            List.take_append_of_le_length hle
          have hrec := ih (a.drop (termLength a)).length
            (by rw [List.length_drop]; omega) rfl
          rw [take_of_ne_zero (hterm.symm ▸ hzero), hterm, hdrop, htake, hrec,
            take_of_ne_zero hzero]

/-! ### Texts that are runs of numbers -/

/-- Texts that are runs of numbers. -/
def IsOffset (l : List Char) : Prop :=
  take l = (l, [])

lemma isOffset_nil : IsOffset [] :=
  take_of_zero rfl

/-- Nothing is taken from what follows a run. -/
lemma termLength_of_take (h : take l = (a, r)) : termLength r = 0 := by
  induction hl : l.length using Nat.strongRecOn generalizing l a with
  | ind n ih =>
      by_cases hzero : termLength l = 0
      · rw [take_of_zero hzero] at h
        cases h
        exact hzero
      · have hle := termLength_le l
        rw [take_of_ne_zero hzero, Prod.mk.injEq] at h
        exact ih (l.drop (termLength l)).length (by rw [List.length_drop]; omega)
          (Prod.ext rfl h.2) rfl

/-- What is taken from the front of a text is a run of numbers, and the text goes on with
something else. -/
lemma isOffset_of_take (h : take l = (a, r))
    (hr : ∀ ch, r.head? = some ch → ch.isAlphanum = false ∧ ch ≠ '-') :
    IsOffset a ∧ EndsOffset r := by
  have hends : EndsOffset r := ⟨hr, termLength_of_take h⟩
  have happend := take_append l
  rw [h] at happend
  have htake := take_append_of_ends (a := a) hends
  rw [happend, h, Prod.mk.injEq] at htake
  refine ⟨Prod.ext htake.1.symm ?_, hends⟩
  have hnil : (take a).2 ++ r = [] ++ r := htake.2.symm
  exact List.append_cancel_right hnil

lemma IsOffset.take_append (ha : IsOffset a) (hr : EndsOffset r) : take (a ++ r) = (a, r) := by
  rw [take_append_of_ends hr, ha]
  rfl

/-- The characters of a run of numbers. -/
def IsOffsetChar (ch : Char) : Prop :=
  ch.isAlphanum = true ∨ ch = '+' ∨ ch = '-'

lemma forall_mem_take_digitsLength (l : List Char) :
    ∀ ch ∈ l.take (digitsLength l), ch.isAlphanum = true := by
  have hrun {p : Char → Bool} (hp : ∀ {ch : Char}, p ch = true → ch.isAlphanum = true)
      (l : List Char) : ∀ ch ∈ l.take (l.takeWhile p).length, ch.isAlphanum = true := by
    intro ch hch
    rw [← List.prefix_iff_eq_take.mp (List.takeWhile_prefix p)] at hch
    exact hp (List.mem_takeWhile_imp hch)
  by_cases hmark : ∃ d e l', l = '0' :: d :: e :: l' ∧ IsMark d
  · obtain ⟨d, e, l', rfl, hd⟩ := hmark
    obtain ⟨p, hp, hlength⟩ := digitsLength_of_isMark hd
    intro ch hch
    rw [hlength] at hch
    split at hch
    · next he =>
        have hthree : 3 + (l'.takeWhile p).length = (l'.takeWhile p).length + 1 + 1 + 1 := by
          omega
        rw [hthree, List.take_succ_cons, List.take_succ_cons, List.take_succ_cons] at hch
        simp only [List.mem_cons] at hch
        rcases hch with rfl | rfl | rfl | hch
        · decide
        · exact isAlphanum_of_isMark hd
        · exact hp he
        · exact hrun hp l' ch hch
    · obtain rfl : ch = '0' := by simpa using hch
      decide
  · have hnot : ∀ d e l', l = '0' :: d :: e :: l' → ¬ IsMark d := fun d e l' heq hd =>
      hmark ⟨d, e, l', heq, hd⟩
    rw [digitsLength_of_not_isMark hnot]
    exact hrun isAlphanum_of_isDigit l

lemma forall_mem_take_termLength (l : List Char) :
    ∀ ch ∈ l.take (termLength l), IsOffsetChar ch := by
  unfold termLength
  dsimp only
  split
  · simp
  · intro ch hch
    rw [List.take_add] at hch
    rcases List.mem_append.mp hch with hch | hch
    · refine .inr ?_
      revert hch
      unfold signLength
      split
      · simp
      · simp +contextual
      · simp +contextual
      · simp
    · exact .inl (forall_mem_take_digitsLength _ ch hch)

lemma forall_mem_take (l : List Char) : ∀ ch ∈ (take l).1, IsOffsetChar ch := by
  induction hl : l.length using Nat.strongRecOn generalizing l with
  | ind n ih =>
      by_cases hzero : termLength l = 0
      · rw [take_of_zero hzero]
        nofun
      · have hle := termLength_le l
        rw [take_of_ne_zero hzero]
        intro ch hch
        rcases List.mem_append.mp hch with hch | hch
        · exact forall_mem_take_termLength l ch hch
        · exact ih (l.drop (termLength l)).length (by rw [List.length_drop]; omega) _ rfl ch hch

lemma IsOffset.forall_mem (h : IsOffset l) : ∀ ch ∈ l, IsOffsetChar ch := by
  have hall := forall_mem_take l
  rwa [h] at hall

end Hermetic.Offset

/-
What stands before a statement.

* `Spacing`: texts made of blanks and of block comments, each of which ends where it first may;
* `Cursor.spacing_of_skipSpace`: what is gone past in front of a statement is spacing;
* `Cursor.skipSpace_of_spacing`: spacing in front of a word is gone past.
-/
import Hermetic.Proofs.Source.Position

namespace Hermetic

/-- Blanks and block comments, in any order. -/
inductive Spacing : List Char → Prop
  | nil : Spacing []
  | blank {c : Char} {l : List Char} : Cursor.isSpace c = true → Spacing l → Spacing (c :: l)
  | comment {body l : List Char} : ¬ ['*', '/'] <:+: body ++ ['*'] → Spacing l →
      Spacing ('/' :: '*' :: (body ++ '*' :: '/' :: l))

lemma Spacing.append {l r : List Char} (hl : Spacing l) (hr : Spacing r) : Spacing (l ++ r) := by
  induction hl with
  | nil => exact hr
  | blank hc _ ih => exact .blank hc ih
  | @comment body l hbody _ ih =>
      have hcomment := Spacing.comment hbody ih
      simpa using hcomment

namespace Cursor

/-! ### What comes next -/

lemma rest_of_peek {c : Cursor Char} {ch : Char} (h : c.peek = some ch) :
    ∃ r, c.rest = ch :: r := by
  rw [peek, List.head?_eq_some_iff] at h
  exact h

lemma second?_of_rest {c : Cursor Char} {ch : Char} {r : List Char} (h : c.rest = ch :: r) :
    c.second? = r.head? := by
  rw [second?, h]
  cases r <;> rfl

lemma peek_of_rest {c : Cursor Char} {ch : Char} {r : List Char} (h : c.rest = ch :: r) :
    c.peek = some ch := by
  rw [peek, h, List.head?_cons]

lemma next?_of_rest {c : Cursor Char} {ch : Char} {r : List Char} (h : c.rest = ch :: r) :
    c.next? = some ch := by
  rw [next?, h]
  rfl

/-! ### Comments -/

/-- A comment ends at the first place where it may. -/
lemma commentRun_eq_some {n m : ℕ} {l : List Char} (h : commentRun n l = some m) :
    ∃ body r, l = body ++ '*' :: '/' :: r ∧ ¬ ['*', '/'] <:+: body ++ ['*'] ∧
      m = n + body.length + 2 := by
  induction l generalizing n with
  | nil => cases h
  | cons u l ih =>
      cases l with
      | nil => cases h
      | cons v r =>
          rw [commentRun] at h
          split at h
          · next hend =>
              obtain ⟨rfl, rfl⟩ : u = '*' ∧ v = '/' := hend
              cases h
              exact ⟨[], r, rfl, by decide, rfl⟩
          · next hend =>
              obtain ⟨body, r', hr, hbody, rfl⟩ := ih h
              refine ⟨u :: body, r', by rw [hr, List.cons_append], ?_, ?_⟩
              · -- the end of the comment is not met earlier, at this character neither
                rw [List.cons_append, List.infix_cons_iff, not_or]
                refine ⟨?_, hbody⟩
                rw [List.cons_prefix_cons]
                rintro ⟨rfl, hprefix⟩
                cases body with
                | nil => exact absurd hprefix (by decide)
                | cons w body =>
                    rw [List.cons_append, List.cons.injEq] at hr
                    rw [List.cons_append, List.cons_prefix_cons] at hprefix
                    exact hend ⟨rfl, hr.1.trans hprefix.1.symm⟩
              · rw [List.length_cons]
                omega

/-- A comment is gone past. -/
lemma commentRun_of_body {body r : List Char} (h : ¬ ['*', '/'] <:+: body ++ ['*']) (n : ℕ) :
    commentRun n (body ++ '*' :: '/' :: r) = some (n + body.length + 2) := by
  induction body generalizing n with
  | nil => rfl
  | cons u body ih =>
      rw [List.cons_append, List.infix_cons_iff, not_or] at h
      have hsum : n + (u :: body).length + 2 = n + 1 + body.length + 2 := by
        rw [List.length_cons]
        omega
      rw [hsum, ← ih h.2]
      cases body with
      | nil =>
          rw [List.cons_append, List.nil_append, commentRun]
          refine if_neg fun hend => ?_
          exact absurd hend.2 (by decide)
      | cons v body =>
          rw [List.cons_append, List.cons_append, commentRun]
          refine if_neg fun hend => h.1 ?_
          obtain ⟨rfl, rfl⟩ : u = '*' ∧ v = '/' := hend
          exact ⟨_, rfl⟩

lemma lt_of_commentRun {n m : ℕ} {l : List Char} (h : commentRun n l = some m) : n < m := by
  obtain ⟨body, r, -, -, rfl⟩ := commentRun_eq_some h
  omega

/-- A run of blanks goes on after a comment that is open. -/
lemma blankRun_opened (n k : ℕ) (l : List Char) :
    blankRun n (some k) l = match commentRun n l with
      | some e => blankRun e none (l.drop (e - n))
      | none => .error k := by
  induction l generalizing n with
  | nil => rfl
  | cons u l ih =>
      cases l with
      | nil => rfl
      | cons v r =>
          rw [blankRun, commentRun]
          by_cases hend : u = '*' ∧ v = '/'
          · simp [hend]
          · rw [SourceUnit.char_eq, SourceUnit.char_eq, if_neg hend, if_neg hend, ih]
            cases hrun : commentRun (n + 1) (v :: r) with
            | none => rfl
            | some e =>
                have hlt := lt_of_commentRun hrun
                have hdrop : e - n = e - (n + 1) + 1 := by omega
                dsimp only
                rw [hdrop, List.drop_succ_cons]

lemma blankRun_comment {n k : ℕ} {body r : List Char} (h : ¬ ['*', '/'] <:+: body ++ ['*']) :
    blankRun n (some k) (body ++ '*' :: '/' :: r) = blankRun (n + body.length + 2) none r := by
  have hdrop : n + body.length + 2 - n = (body ++ ['*', '/']).length := by
    simp
    omega
  have happend : body ++ '*' :: '/' :: r = (body ++ ['*', '/']) ++ r := by simp
  rw [blankRun_opened, commentRun_of_body h]
  dsimp only
  rw [hdrop, happend, List.drop_left]

/-! ### Spacing ends before a word -/

/-- Texts that do not start with spacing. -/
def AtWord : List Char → Prop
  | [] => True
  | u :: r => isSpace u = false ∧ ¬ (u = '/' ∧ r.head? = some '*')

/-- A run of blanks and comments is spacing, and ends before a word. -/
lemma spacing_of_blankRun {n m : ℕ} {l : List Char} (h : blankRun n none l = .ok m) :
    ∃ lead r, l = lead ++ r ∧ Spacing lead ∧ m = n + lead.length ∧ AtWord r := by
  -- by the number of characters: a blank or a comment, and spacing again
  induction hl : l.length using Nat.strongRecOn generalizing n l with
  | ind size ih =>
      match l with
      | [] =>
          cases h
          exact ⟨[], [], rfl, .nil, rfl, trivial⟩
      | [u] =>
          rw [blankRun] at h
          split at h
          · next hu =>
              cases h
              exact ⟨[u], [], rfl, .blank hu .nil, rfl, trivial⟩
          · next hu =>
              cases h
              exact ⟨[], [u], rfl, .nil, rfl, by simpa using hu, fun hend => nomatch hend.2⟩
      | u :: v :: r =>
          rw [blankRun] at h
          split at h
          · next hopen =>
              obtain ⟨rfl, rfl⟩ : u = '/' ∧ v = '*' := hopen
              -- the comment is closed, since the run does not fail
              obtain ⟨e, hcomment⟩ : ∃ e, commentRun (n + 2) r = some e := by
                cases hcomment : commentRun (n + 2) r with
                | none =>
                    rw [blankRun_opened, hcomment] at h
                    cases h
                | some e => exact ⟨e, rfl⟩
              obtain ⟨body, r', rfl, hbody, -⟩ := commentRun_eq_some hcomment
              rw [blankRun_comment hbody] at h
              obtain ⟨lead, rest, rfl, hlead, rfl, hword⟩ := ih r'.length
                (by simp at hl; omega) h rfl
              refine ⟨_, rest, ?_, .comment hbody hlead, ?_, hword⟩
              · simp
              · simp
                omega
          · next hopen =>
              split at h
              · next hu =>
                  obtain ⟨lead, rest, hr, hlead, rfl, hword⟩ := ih (v :: r).length
                    (by simp at hl ⊢; omega) h rfl
                  refine ⟨u :: lead, rest, by rw [hr, List.cons_append], .blank hu hlead, ?_,
                    hword⟩
                  rw [List.length_cons]
                  omega
              · next hu =>
                  cases h
                  refine ⟨[], u :: v :: r, rfl, .nil, rfl, by simpa using hu, ?_⟩
                  rintro ⟨hslash, hstar⟩
                  exact hopen ⟨hslash, by simpa using hstar⟩

/-- What is gone past in front of a statement is spacing, and a word follows. -/
lemma spacing_of_skipSpace {c d : Cursor Char} (h : c.skipSpace = (.ok (), d)) :
    ∃ lead, Spacing lead ∧ c.Between lead d ∧ AtWord d.rest := by
  unfold skipSpace at h
  split at h
  · next n hn =>
      cases h
      obtain ⟨lead, r, hr, hlead, rfl, hword⟩ := spacing_of_blankRun hn
      have hskip := between_skip (0 + lead.length) c
      rw [Nat.zero_add, hr, List.take_left] at hskip
      rw [Nat.zero_add]
      refine ⟨lead, hlead, hskip, ?_⟩
      rw [rest_skip, hr, List.drop_left]
      exact hword
  · cases h

/-! ### Spacing is gone past -/

/-- What follows spacing tells how far it goes on. -/
lemma blankRun_spacing_append {lead : List Char} (hlead : Spacing lead) (r : List Char) (n : ℕ) :
    blankRun n none (lead ++ r) = blankRun (n + lead.length) none r := by
  -- along the spacing; a blank is no slash, so that it opens no comment
  induction hlead generalizing n with
  | nil => rfl
  | @blank u lead hu _ ih =>
      have hsum : n + (u :: lead).length = n + 1 + lead.length := by
        rw [List.length_cons]
        omega
      rw [hsum, ← ih, List.cons_append]
      cases hl : lead ++ r with
      | nil =>
          have hlast : blankRun n none [u] = .ok (if isSpace u then n + 1 else n) := rfl
          rw [hlast, if_pos hu]
          rfl
      | cons v r' =>
          have hslash : ¬ (u = '/' ∧ v = '*') := by
            rintro ⟨rfl, -⟩
            exact absurd hu (by decide)
          rw [blankRun, SourceUnit.char_eq, SourceUnit.char_eq, if_neg hslash, if_pos hu]
  | @comment body lead hbody _ ih =>
      have hopen : blankRun n none ('/' :: '*' :: (body ++ '*' :: '/' :: lead) ++ r) =
          blankRun (n + 2) (some n) (body ++ '*' :: '/' :: (lead ++ r)) := by
        rw [List.cons_append, List.cons_append, blankRun, if_pos ⟨rfl, rfl⟩, List.append_assoc]
        rfl
      have hlength : ('/' :: '*' :: (body ++ '*' :: '/' :: lead)).length =
          2 + body.length + 2 + lead.length := by
        simp
        omega
      rw [hopen, blankRun_comment hbody, ih, hlength]
      congr 1
      omega

lemma blankRun_of_spacing {lead r : List Char} (hlead : Spacing lead) (hr : AtWord r) (n : ℕ) :
    blankRun n none (lead ++ r) = .ok (n + lead.length) := by
  rw [blankRun_spacing_append hlead]
  match r with
  | [] => rfl
  | [u] =>
      rw [blankRun, SourceUnit.char_eq, hr.1]
      rfl
  | u :: v :: r =>
      have hopen : ¬ (u = '/' ∧ v = '*') := by
        rintro ⟨hslash, rfl⟩
        exact hr.2 ⟨hslash, rfl⟩
      rw [blankRun, SourceUnit.char_eq, SourceUnit.char_eq, if_neg hopen, hr.1]
      rfl

/-- Spacing before a word is gone past. -/
lemma skipSpace_of_spacing {c : Cursor Char} {lead r : List Char} (hlead : Spacing lead)
    (hr : AtWord r) (hc : c.rest = lead ++ r) :
    ∃ d, c.skipSpace = (.ok (), d) ∧ d.rest = r := by
  refine ⟨c.skip lead.length, ?_, by rw [rest_skip, hc, List.drop_left]⟩
  rw [skipSpace, hc, blankRun_of_spacing hlead hr, Nat.zero_add]

end Cursor

/-- Spacing ends in no line feed. -/
lemma Spacing.getLast?_ne_newline {l : List Char} (h : Spacing l) : l.getLast? ≠ some '\n' := by
  induction h with
  | nil => simp
  | @blank c l hc _ ih =>
      cases l with
      | nil =>
          rintro h
          cases h
          exact absurd hc (by decide)
      | cons d l => rwa [List.getLast?_cons_cons]
  | @comment body l _ _ ih =>
      have hlast : ('/' :: '*' :: (body ++ '*' :: '/' :: l)).getLast? = ('/' :: l).getLast? := by
        rw [show '/' :: '*' :: (body ++ '*' :: '/' :: l) = ('/' :: '*' :: body ++ ['*']) ++ '/' :: l
          by simp, List.getLast?_append, List.getLast?_cons, Option.some_or]
      rw [hlast]
      cases l with
      | nil => simp
      | cons d l => rwa [List.getLast?_cons_cons]

end Hermetic

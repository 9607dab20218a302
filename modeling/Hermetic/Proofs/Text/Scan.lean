/-
Brackets and strings in the arguments of a statement, character by character.

What is kept of a statement's arguments holds no comment, closes its brackets and strings, and
ends nowhere before its end.  A scan reads such a text and knows what is open.

* `Scan.State`, `Scan.step`, `Scan.run`: the brackets that are open, and whether a string is;
* `Scan.Inert`, `Scan.run_inert`: characters that change nothing;
* `Scan.exists_run_dropWhile`: blanks at the end of a text play no role;
* `Scan.Whole`: texts that close what they open, with `Scan.Whole.trim` and
  `Scan.whole_append_comma`.
-/
import Hermetic.Statement.Parser
import Mathlib.Tactic.Lemma

namespace Hermetic.Scan

open Text (isBlank)

/-! ### States -/

/-- Where a scan stands: outside strings, there after a slash, within a string, or there after a
backslash. -/
inductive Mode
  | plain
  | slash
  | quoted
  | escaped
deriving DecidableEq

/-- The brackets that are open, the last first, and where the scan stands. -/
structure State where
  opened : List Char := []
  mode : Mode := .plain
deriving DecidableEq

/-- Whether a scan stands outside strings. -/
def State.Outside (s : State) : Prop :=
  s.mode = .plain ∨ s.mode = .slash

/-- The characters that end arguments outside strings and brackets.  A comment that ends its line
starts with a `#` on x86-64, and with two slashes on AArch64.  A comma ends a piece, and is read
only if `commas` says so. -/
def Ends (arch : Arch) (commas : Bool) (mode : Mode) (c : Char) : Prop :=
  c = ';' ∨ commas = false ∧ c = ',' ∨ arch = .x86_64 ∧ c = '#' ∨
    arch = .aarch64 ∧ mode = .slash ∧ c = '/'

instance (arch : Arch) (commas : Bool) (mode : Mode) (c : Char) :
    Decidable (Ends arch commas mode c) :=
  inferInstanceAs (Decidable (_ ∨ _))

/-- The state after one more character, unless it ends the arguments, starts a comment or closes
what is not open. -/
def step (arch : Arch) (commas : Bool) (s : State) (c : Char) : Option State :=
  if c = '\n' then none
  else
    match s.mode with
    | .quoted =>
      some ⟨s.opened, if c = '"' then .plain else if c = '\\' then .escaped else .quoted⟩
    | .escaped => some ⟨s.opened, .quoted⟩
    | mode =>
      if mode = .slash ∧ c = '*' then none
      else if s.opened = [] ∧ Ends arch commas mode c then none
      else if c = '"' then some ⟨s.opened, .quoted⟩
      else if c = '(' ∨ c = '[' ∨ c = '{' then some ⟨c :: s.opened, .plain⟩
      else if c = ')' ∨ c = ']' ∨ c = '}' then
        match s.opened with
        | b :: rest => if b = Statement.opening c then some ⟨rest, .plain⟩ else none
        | [] => none
      else some ⟨s.opened, if c = '/' then .slash else .plain⟩

/-- The state after some characters. -/
def run (arch : Arch) (commas : Bool) (s : State) (l : List Char) : Option State :=
  l.foldlM (step arch commas) s

variable {arch : Arch} {commas : Bool} {s t : State} {c : Char} {l r : List Char}

@[simp] lemma run_nil : run arch commas s [] = some s := rfl

lemma run_cons :
    run arch commas s (c :: l) = (step arch commas s c).bind fun t => run arch commas t l := rfl

lemma run_append :
    run arch commas s (l ++ r) = (run arch commas s l).bind fun t => run arch commas t r :=
  List.foldlM_append

lemma run_cons_eq_some_iff {u : State} :
    run arch commas s (c :: l) = some u ↔
      ∃ t, step arch commas s c = some t ∧ run arch commas t l = some u := by
  rw [run_cons, Option.bind_eq_some_iff]

lemma run_append_eq_some_iff {u : State} :
    run arch commas s (l ++ r) = some u ↔
      ∃ t, run arch commas s l = some t ∧ run arch commas t r = some u := by
  rw [run_append, Option.bind_eq_some_iff]

/-- No text that is read has a line feed. -/
lemma ne_newline_of_step (h : step arch commas s c = some t) : c ≠ '\n' := by
  rintro rfl
  cases h

lemma ne_newline_of_run (h : run arch commas s l = some t) (hc : c ∈ l) : c ≠ '\n' := by
  induction l generalizing s with
  | nil => cases hc
  | cons d l ih =>
      obtain ⟨u, hd, hl⟩ := run_cons_eq_some_iff.mp h
      rcases List.mem_cons.mp hc with rfl | hc
      · exact ne_newline_of_step hd
      · exact ih hl hc

/-! ### Characters that change nothing -/

/-- Characters that change nothing outside strings. -/
def Inert (c : Char) : Prop :=
  c ∉ ['\n', ';', '#', ',', '"', '(', '[', '{', ')', ']', '}', '/', '*']

instance (c : Char) : Decidable (Inert c) :=
  inferInstanceAs (Decidable (c ∉ _))

lemma step_inert (hs : s.Outside) (hc : Inert c) :
    step arch commas s c = some ⟨s.opened, .plain⟩ := by
  simp only [Inert, List.mem_cons, List.not_mem_nil, or_false, not_or] at hc
  obtain ⟨opened, mode⟩ := s
  rcases hs with rfl | rfl <;> simp [step, Ends, hc]

/-- Some characters that change nothing. -/
lemma run_inert (hs : s.Outside) (hl : ∀ c ∈ l, Inert c) (hne : l ≠ []) :
    run arch commas s l = some ⟨s.opened, .plain⟩ := by
  induction l generalizing s with
  | nil => exact (hne rfl).elim
  | cons c l ih =>
      rw [run_cons, step_inert hs (hl c List.mem_cons_self), Option.bind_some]
      by_cases hnil : l = []
      · rw [hnil, run_nil]
      · exact ih (.inl rfl) (fun d hd => hl d (List.mem_cons_of_mem _ hd)) hnil

/-- From where no slash stands, no characters change nothing, too. -/
lemma run_inert_plain (hl : ∀ c ∈ l, Inert c) (opened : List Char) :
    run arch commas ⟨opened, .plain⟩ l = some ⟨opened, .plain⟩ := by
  by_cases hnil : l = []
  · rw [hnil, run_nil]
  · exact run_inert (.inl rfl) hl hnil

lemma inert_of_isBlank (h : isBlank c = true) (hc : c ≠ '\n') : Inert c := by
  intro hmem
  simp only [List.mem_cons, List.not_mem_nil, or_false] at hmem
  rcases hmem with rfl | rfl | rfl | rfl | rfl | rfl | rfl | rfl | rfl | rfl | rfl | rfl | rfl
  · exact hc rfl
  all_goals exact absurd h (by decide)

lemma inert_of_isSymbolChar (h : isSymbolChar c = true) : Inert c := by
  intro hmem
  simp only [List.mem_cons, List.not_mem_nil, or_false] at hmem
  rcases hmem with rfl | rfl | rfl | rfl | rfl | rfl | rfl | rfl | rfl | rfl | rfl | rfl | rfl
  all_goals exact absurd h (by decide)

/-! ### Other characters -/

lemma step_quote (hs : s.Outside) : step arch commas s '"' = some ⟨s.opened, .quoted⟩ := by
  obtain ⟨opened, mode⟩ := s
  rcases hs with rfl | rfl <;> simp [step, Ends]

lemma step_opening (hs : s.Outside) (hc : c = '(' ∨ c = '[' ∨ c = '{') :
    step arch commas s c = some ⟨c :: s.opened, .plain⟩ := by
  obtain ⟨opened, mode⟩ := s
  rcases hs with rfl | rfl <;> rcases hc with rfl | rfl | rfl <;> simp [step, Ends]

lemma step_closing {opened : List Char} {mode : Mode} (hs : mode = .plain ∨ mode = .slash)
    (hc : c = ')' ∨ c = ']' ∨ c = '}') :
    step arch commas ⟨Statement.opening c :: opened, mode⟩ c = some ⟨opened, .plain⟩ := by
  rcases hs with rfl | rfl <;> rcases hc with rfl | rfl | rfl <;> simp [step, Statement.opening]

/-- Within brackets, commas change nothing. -/
lemma run_inert_or_comma (hl : ∀ c ∈ l, Inert c ∨ c = ',') (bracket : Char)
    (opened : List Char) : run arch commas ⟨bracket :: opened, .plain⟩ l =
      some ⟨bracket :: opened, .plain⟩ := by
  induction l with
  | nil => rfl
  | cons c l ih =>
      have hstep : step arch commas ⟨bracket :: opened, .plain⟩ c =
          some ⟨bracket :: opened, .plain⟩ := by
        rcases hl c List.mem_cons_self with hc | rfl
        · exact step_inert (.inl rfl) hc
        · simp [step]
      rw [run_cons, hstep, Option.bind_some, ih fun d hd => hl d (List.mem_cons_of_mem _ hd)]

/-- A scan that ends outside strings after any character but a quote stood outside before. -/
lemma outside_of_step (h : step arch commas s c = some t) (ht : t.Outside) (hc : c ≠ '"') :
    s.Outside := by
  obtain ⟨opened, mode⟩ := s
  cases mode with
  | plain => exact .inl rfl
  | slash => exact .inr rfl
  | quoted =>
      simp only [step, if_neg (ne_newline_of_step h), if_neg hc, Option.some.injEq] at h
      subst h
      rcases ht with ht | ht <;> split at ht <;> cases ht
  | escaped =>
      simp only [step, if_neg (ne_newline_of_step h), Option.some.injEq] at h
      subst h
      rcases ht with ht | ht <;> cases ht

/-- A character that changes nothing, after which a scan stands outside strings. -/
lemma outside_of_step_inert (hc : Inert c) (h : step arch commas s c = some t) (ht : t.Outside) :
    s.Outside ∧ t.opened = s.opened := by
  have hquote : c ≠ '"' := by
    rintro rfl
    exact absurd hc (by decide)
  have hs := outside_of_step h ht hquote
  rw [step_inert hs hc] at h
  cases h
  exact ⟨hs, rfl⟩

/-! ### Blanks -/

/-- Blanks at the end of a text play no role.  The text is given backwards. -/
lemma exists_run_dropWhile {kept : List Char} (h : run arch commas s kept.reverse = some t)
    (ht : t.Outside) : ∃ u, run arch commas s (kept.dropWhile isBlank).reverse = some u ∧
      u.Outside ∧ u.opened = t.opened := by
  induction kept generalizing t with
  | nil => exact ⟨t, h, ht, rfl⟩
  | cons c kept ih =>
      by_cases hc : isBlank c = true
      · rw [List.dropWhile_cons_of_pos hc]
        rw [List.reverse_cons, run_append_eq_some_iff] at h
        obtain ⟨u, hu, hstep⟩ := h
        obtain ⟨v, hv, hrest⟩ := run_cons_eq_some_iff.mp hstep
        cases hrest
        obtain ⟨houtside, hopened⟩ :=
          outside_of_step_inert (inert_of_isBlank hc (ne_newline_of_step hv)) hv ht
        obtain ⟨w, hw, hwo, hwp⟩ := ih hu houtside
        exact ⟨w, hw, hwo, hwp.trans hopened.symm⟩
      · rw [List.dropWhile_cons_of_neg hc]
        exact ⟨t, h, ht, rfl⟩

/-! ### Texts that close what they open -/

/-- Texts that close what they open. -/
def Whole (arch : Arch) (commas : Bool) (l : List Char) : Prop :=
  ∃ t, run arch commas {} l = some t ∧ t.Outside ∧ t.opened = []

lemma Whole.nil : Whole arch commas [] :=
  ⟨{}, rfl, .inl rfl, rfl⟩

lemma Whole.trimEnd (h : Whole arch commas l) : Whole arch commas (Text.trimEnd l) := by
  obtain ⟨t, ht, ho, hp⟩ := h
  rw [← l.reverse_reverse] at ht
  obtain ⟨u, hu, huo, hup⟩ := exists_run_dropWhile ht ho
  exact ⟨u, hu, huo, hup.trans hp⟩

lemma Whole.trimStart (h : Whole arch commas l) : Whole arch commas (Text.trimStart l) := by
  induction l with
  | nil => exact h
  | cons c l ih =>
      by_cases hc : isBlank c = true
      · obtain ⟨t, ht, ho, hp⟩ := h
        obtain ⟨u, hu, hl⟩ := run_cons_eq_some_iff.mp ht
        have hinert := inert_of_isBlank hc (ne_newline_of_step hu)
        rw [step_inert (.inl rfl) hinert] at hu
        cases hu
        rw [Text.trimStart, List.dropWhile_cons_of_pos hc]
        exact ih ⟨t, hl, ho, hp⟩
      · rw [Text.trimStart, List.dropWhile_cons_of_neg hc]
        exact h

/-- Blanks around a text play no role. -/
lemma Whole.trim (h : Whole arch commas l) : Whole arch commas (Text.trim l) :=
  h.trimStart.trimEnd

/-- Characters that change nothing, in front of a text. -/
lemma whole_inert_append (hl : ∀ c ∈ l, Inert c) :
    Whole arch commas (l ++ r) ↔ Whole arch commas r := by
  have hrun : run arch commas {} (l ++ r) = run arch commas {} r := by
    rw [run_append, run_inert_plain hl, Option.bind_some]
  rw [Whole, hrun]
  exact Iff.rfl

lemma Whole.ne_newline (h : Whole arch commas l) (hc : c ∈ l) : c ≠ '\n' := by
  obtain ⟨t, ht, -⟩ := h
  exact ne_newline_of_run ht hc

lemma Ends.mono {mode : Mode} (h : Ends arch true mode c) : Ends arch false mode c := by
  rcases h with h | h | h
  · exact .inl h
  · cases h.1
  · exact .inr (.inr h)

/-- Only a comma outside brackets is read or not. -/
lemma step_true (h : step arch false s c = some t) : step arch true s c = some t := by
  unfold step at h ⊢
  split at h
  · cases h
  · next hline =>
      rw [if_neg hline]
      split at h
      · exact h
      · exact h
      · split at h
        · cases h
        · next hstar =>
            rw [if_neg hstar]
            split at h
            · cases h
            · next hend =>
                rw [if_neg fun h => hend ⟨h.1, h.2.mono⟩]
                exact h

lemma run_true (h : run arch false s l = some t) : run arch true s l = some t := by
  induction l generalizing s with
  | nil => exact h
  | cons c l ih =>
      obtain ⟨u, hu, hl⟩ := run_cons_eq_some_iff.mp h
      exact run_cons_eq_some_iff.mpr ⟨u, step_true hu, ih hl⟩

/-- A text without commas outside brackets may have some. -/
lemma Whole.mono (h : Whole arch false l) : Whole arch true l := by
  obtain ⟨t, ht, ho, hp⟩ := h
  exact ⟨t, run_true ht, ho, hp⟩

lemma step_comma (ho : s.Outside) (hp : s.opened = []) : step arch true s ',' = some {} := by
  obtain ⟨opened, mode⟩ := s
  obtain rfl : opened = [] := hp
  rcases ho with rfl | rfl <;> simp [step, Ends]

/-- A comma between two texts. -/
lemma whole_append_comma (hl : Whole arch true l) :
    Whole arch true (l ++ ',' :: r) ↔ Whole arch true r := by
  obtain ⟨t, ht, ho, hp⟩ := hl
  have hrun : run arch true {} (l ++ ',' :: r) = run arch true {} r := by
    rw [run_append, ht, Option.bind_some, run_cons, step_comma ho hp, Option.bind_some]
  rw [Whole, hrun]
  exact Iff.rfl

/-! ### Characters put in -/

lemma Ends.slash (h : Ends arch commas .plain c) : Ends arch commas .slash c := by
  rcases h with h | h | h | ⟨-, h, -⟩
  · exact .inl h
  · exact .inr (.inl h)
  · exact .inr (.inr (.inl h))
  · cases h

/-- A scan that goes on after a slash goes on without it. -/
lemma exists_run_plain {opened : List Char} {mode : Mode} (hs : mode = .plain ∨ mode = .slash)
    (h : run arch commas ⟨opened, mode⟩ l = some t) :
    ∃ u, run arch commas ⟨opened, .plain⟩ l = some u ∧ u.opened = t.opened ∧
      (t.Outside → u.Outside) := by
  cases l with
  | nil =>
      cases h
      exact ⟨_, rfl, rfl, fun _ => .inl rfl⟩
  | cons c l =>
      obtain ⟨u, hu, hl⟩ := run_cons_eq_some_iff.mp h
      have hstep : step arch commas ⟨opened, .plain⟩ c = some u := by
        rcases hs with rfl | rfl
        · exact hu
        · unfold step at hu ⊢
          dsimp only at hu ⊢
          split at hu
          · cases hu
          · next hline =>
              split at hu
              · cases hu
              · split at hu
                · cases hu
                · next hend =>
                    have hmode : ¬ (Mode.plain = .slash ∧ c = '*') := fun h => nomatch h.1
                    rw [if_neg hline, if_neg hmode, if_neg fun h => hend ⟨h.1, h.2.slash⟩]
                    exact hu
      exact ⟨t, run_cons_eq_some_iff.mpr ⟨u, hstep, hl⟩, rfl, id⟩

/-- Characters that change nothing may be put in where nothing is open. -/
lemma whole_insert {put : List Char} (hl : Whole arch commas l) (hput : ∀ c ∈ put, Inert c)
    (h : Whole arch commas (l ++ r)) : Whole arch commas (l ++ (put ++ r)) := by
  by_cases hnil : put = []
  · rwa [hnil, List.nil_append]
  obtain ⟨t, ht, ho, hp⟩ := hl
  obtain ⟨u, hu, huo, hup⟩ := h
  rw [run_append, ht, Option.bind_some] at hu
  obtain ⟨opened, mode⟩ := t
  obtain rfl : opened = [] := hp
  obtain ⟨v, hv, hvu, hvo⟩ := exists_run_plain ho hu
  refine ⟨v, ?_, hvo huo, hvu.trans hup⟩
  rw [run_append, ht, Option.bind_some, run_append, run_inert ho hput hnil, Option.bind_some]
  exact hv

end Hermetic.Scan

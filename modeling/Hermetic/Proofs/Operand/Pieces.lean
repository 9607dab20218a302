/-
Arguments that are cut at their commas, and put together again.

* `Piece.cutFrom`: the pieces of a text that a scan has read in part, with
  `Piece.cutFrom_of_step`: one character more;
* `Piece.whole_of_mem_split`: the pieces of arguments close what they open, and have no comma
  outside brackets;
* `Piece.text_split_join`: such texts with commas between them are cut into these texts;
* `Piece.whole_value`: what follows the first piece closes what it opens.
-/
import Hermetic.Operand.Piece
import Hermetic.Proofs.Source.Position
import Hermetic.Proofs.Text.Parts
import Hermetic.Proofs.Text.Scan
import Mathlib.Data.List.TakeWhile

namespace Hermetic.Piece

open Scan

variable {arch : Arch} {s t : State} {c : Char} {l : List Char}

/-! ### Cutting along a scan -/

/-- The pieces of a text that follows what a scan has read. -/
def cutFrom (s : State) (l : List Char) : List (List Char) :=
  match s.mode with
  | .plain | .slash => cutCommas s.opened.length false l
  | .quoted => cutCommas s.opened.length true l
  | .escaped =>
    match l with
    | [] => [[]]
    | d :: l => push d (cutCommas s.opened.length true l)

lemma cutFrom_of_outside (hs : s.Outside) : cutFrom s l = cutCommas s.opened.length false l := by
  obtain ⟨opened, mode⟩ := s
  rcases hs with rfl | rfl <;> rfl

lemma cutFrom_nil (s : State) : cutFrom s [] = [[]] := by
  obtain ⟨opened, mode⟩ := s
  cases mode <;> simp [cutFrom, cutCommas]

/-- A comma outside brackets and strings ends a piece. -/
lemma cutFrom_comma (ho : s.Outside) (hp : s.opened = []) :
    cutFrom s (',' :: l) = [] :: cutFrom {} l := by
  rw [cutFrom_of_outside ho, hp, cutFrom_of_outside (.inl rfl)]
  cases l <;> simp [cutCommas]

lemma cutCommas_cons {depth : Int} (hc : ¬ (c = ',' ∧ depth = 0)) :
    cutCommas depth false (c :: l) = push c
      (if c = '(' ∨ c = '[' ∨ c = '{' then cutCommas (depth + 1) false l
        else if c = ')' ∨ c = ']' ∨ c = '}' then cutCommas (depth - 1) false l
        else cutCommas depth (c == '"') l) := by
  cases l with
  | nil =>
      have hlast : cutCommas depth false [c] = [[c]] := by simpa [cutCommas] using hc
      rw [hlast]
      simp [cutCommas, push]
  | cons d l =>
      rw [cutCommas, if_neg Bool.false_ne_true, if_neg hc]
      split
      · rfl
      · split <;> rfl

/-- Any other character belongs to the piece. -/
lemma cutFrom_of_step (h : step arch true s c = some t)
    (hc : ¬ (c = ',' ∧ s.Outside ∧ s.opened = [])) :
    cutFrom s (c :: l) = push c (cutFrom t l) := by
  have hline := ne_newline_of_step h
  obtain ⟨opened, mode⟩ := s
  -- within a string only the quote and the backslash count, and outside only brackets and quotes
  cases mode with
  | quoted =>
      simp only [step, if_neg hline, Option.some.injEq] at h
      subst h
      by_cases hquote : c = '"'
      · subst hquote
        cases l <;> simp [cutFrom, cutCommas, push]
      · by_cases hslash : c = '\\'
        · subst hslash
          cases l <;> simp [cutFrom, cutCommas, push]
        · have hopen : (c != '"') = true := by simpa using hquote
          cases l <;> simp [cutFrom, cutCommas, push, hquote, hslash, hopen]
  | escaped =>
      simp only [step, if_neg hline, Option.some.injEq] at h
      subst h
      rfl
  | _ =>
      have hdepth : ¬ (c = ',' ∧ (opened.length : Int) = 0) := by
        rintro ⟨rfl, hzero⟩
        refine hc ⟨rfl, by simp [State.Outside], ?_⟩
        exact List.length_eq_zero_iff.mp (by exact_mod_cast hzero)
      rw [cutFrom_of_outside (by simp [State.Outside]), cutCommas_cons hdepth]
      simp only [step, if_neg hline] at h
      split at h
      · cases h
      split at h
      · cases h
      split at h
      · next hquote =>
          cases h
          subst hquote
          rfl
      · next hquote =>
          split at h
          · next hopen =>
              cases h
              rw [if_pos hopen]
              rfl
          · next hopen =>
              rw [if_neg hopen]
              split at h
              · next hclose =>
                  rw [if_pos hclose]
                  split at h
                  · split at h
                    · cases h
                      simp [cutFrom]
                    · cases h
                  · cases h
              · next hclose =>
                  cases h
                  have hopen : (c == '"') = false := by simpa using hquote
                  rw [if_neg hclose, hopen,
                    cutFrom_of_outside (by unfold State.Outside; split <;> simp)]

/-! ### Pieces of arguments -/

lemma step_false_of_ne (h : step arch true s c = some t)
    (hc : ¬ (c = ',' ∧ s.Outside ∧ s.opened = [])) : step arch false s c = some t := by
  obtain ⟨opened, mode⟩ := s
  cases mode with
  | quoted | escaped => exact h
  | _ =>
      have hcomma : ¬ (opened = [] ∧ c = ',') :=
        fun h' => hc ⟨h'.2, by simp [State.Outside], h'.1⟩
      unfold step at h ⊢
      have hend (mode : Mode) : (opened = [] ∧ Ends arch false mode c) ↔
          (opened = [] ∧ Ends arch true mode c) := by
        unfold Ends
        tauto
      simpa only [hend] using h

/-- The first piece goes on with what a scan has read, and the others are read on their own. -/
lemma whole_of_cutFrom (h : run arch true s l = some t) (ho : t.Outside) (hp : t.opened = []) :
    ∃ p ps, cutFrom s l = p :: ps ∧
      (∃ u, run arch false s p = some u ∧ u.Outside ∧ u.opened = []) ∧
      ∀ q ∈ ps, Whole arch false q := by
  induction l generalizing s with
  | nil =>
      cases h
      exact ⟨[], [], cutFrom_nil _, ⟨_, rfl, ho, hp⟩, nofun⟩
  | cons c l ih =>
      obtain ⟨u, hu, hl⟩ := run_cons_eq_some_iff.mp h
      by_cases hc : c = ',' ∧ s.Outside ∧ s.opened = []
      · obtain ⟨rfl, hso, hsp⟩ := hc
        rw [step_comma hso hsp] at hu
        cases hu
        obtain ⟨p, ps, hcut, hfirst, hothers⟩ := ih hl
        refine ⟨[], p :: ps, by rw [cutFrom_comma hso hsp, hcut], ⟨s, rfl, hso, hsp⟩, ?_⟩
        intro q hq
        rcases List.mem_cons.mp hq with rfl | hq
        · exact hfirst
        · exact hothers q hq
      · obtain ⟨p, ps, hcut, ⟨v, hv, hvo, hvp⟩, hothers⟩ := ih hl
        refine ⟨c :: p, ps, by rw [cutFrom_of_step hu hc, hcut, push], ⟨v, ?_, hvo, hvp⟩, hothers⟩
        exact run_cons_eq_some_iff.mpr ⟨u, step_false_of_ne hu hc, hv⟩

lemma whole_of_mem_cutCommas (h : Whole arch true l) {p : List Char}
    (hp : p ∈ cutCommas 0 false l) : Whole arch false p := by
  obtain ⟨t, ht, hto, htp⟩ := h
  obtain ⟨q, qs, hcut, hfirst, hothers⟩ := whole_of_cutFrom ht hto htp
  have hcut' : cutCommas 0 false l = q :: qs := hcut
  rw [hcut'] at hp
  rcases List.mem_cons.mp hp with rfl | hp
  · exact hfirst
  · exact hothers p hp

lemma text_mem_ofCuts {n : ℕ} {cuts : List (List Char)} {p : Piece} (hp : p ∈ ofCuts n cuts) :
    ∃ cut ∈ cuts, p.text = Text.trim cut := by
  induction cuts generalizing n with
  | nil => cases hp
  | cons cut cuts ih =>
      rcases List.mem_cons.mp hp with rfl | hp
      · exact ⟨cut, List.mem_cons_self, rfl⟩
      · obtain ⟨q, hq, htext⟩ := ih hp
        exact ⟨q, List.mem_cons_of_mem _ hq, htext⟩

lemma mem_ofCuts_of_mem_split {p : Piece} (hp : p ∈ split l) :
    p ∈ ofCuts 0 (cutCommas 0 false l) := by
  unfold split at hp
  split at hp
  · cases hp
  · exact hp

/-- The pieces of arguments close what they open, and have no comma outside brackets. -/
lemma whole_of_mem_split (h : Whole arch true l) {p : Piece} (hp : p ∈ split l) :
    Whole arch false p.text := by
  obtain ⟨cut, hcut, htext⟩ := text_mem_ofCuts (mem_ofCuts_of_mem_split hp)
  rw [htext]
  exact (whole_of_mem_cutCommas h hcut).trim

/-! ### Pieces put together -/

/-- A text that closes what it opens, and has no comma outside brackets, is a piece. -/
lemma cutFrom_append (h : run arch false s l = some t) (ho : t.Outside) (hp : t.opened = []) :
    cutFrom s l = [l] ∧ ∀ r, cutFrom s (l ++ ',' :: r) = l :: cutFrom {} r := by
  induction l generalizing s with
  | nil =>
      cases h
      exact ⟨cutFrom_nil _, fun r => cutFrom_comma ho hp⟩
  | cons c l ih =>
      obtain ⟨u, hu, hl⟩ := run_cons_eq_some_iff.mp h
      have hc : ¬ (c = ',' ∧ s.Outside ∧ s.opened = []) := by
        rintro ⟨rfl, hso, hsp⟩
        obtain ⟨opened, mode⟩ := s
        obtain rfl : opened = [] := hsp
        rcases hso with rfl | rfl <;> simp [step, Ends] at hu
      obtain ⟨hend, hcomma⟩ := ih hl
      refine ⟨by rw [cutFrom_of_step (step_true hu) hc, hend, push], fun r => ?_⟩
      rw [List.cons_append, cutFrom_of_step (step_true hu) hc, hcomma, push]

lemma cutCommas_of_whole (h : Whole arch false l) : cutCommas 0 false l = [l] := by
  obtain ⟨t, ht, ho, hp⟩ := h
  exact (cutFrom_append ht ho hp).1

lemma cutCommas_append_comma (h : Whole arch false l) (r : List Char) :
    cutCommas 0 false (l ++ ',' :: r) = l :: cutCommas 0 false r := by
  obtain ⟨t, ht, ho, hp⟩ := h
  exact (cutFrom_append ht ho hp).2 r

/-- Texts with commas between them. -/
def join (texts : List (List Char)) : List Char :=
  [',', ' '].intercalate texts

lemma join_cons_cons (p q : List Char) (ps : List (List Char)) :
    join (p :: q :: ps) = p ++ ',' :: ' ' :: join (q :: ps) := by
  simp [join, List.intercalate]

@[simp] lemma join_singleton (p : List Char) : join [p] = p := by
  simp [join, List.intercalate]

lemma whole_blank_cons {commas : Bool} (h : Whole arch commas l) :
    Whole arch commas (' ' :: l) := by
  have hblank : ∀ c ∈ [' '], Inert c := List.forall_mem_singleton.mpr (by decide)
  exact (whole_inert_append hblank).mpr h

/-- Texts that close what they open do so when they are put together. -/
lemma whole_join {texts : List (List Char)} (h : ∀ p ∈ texts, Whole arch true p) :
    Whole arch true (join texts) := by
  match texts with
  | [] => exact Whole.nil
  | [p] => simpa using h p List.mem_cons_self
  | p :: q :: ps =>
      rw [join_cons_cons, whole_append_comma (h p List.mem_cons_self)]
      exact whole_blank_cons (whole_join fun r hr => h r (List.mem_cons_of_mem _ hr))

lemma trim_blank_cons (p : List Char) : Text.trim (' ' :: p) = Text.trim p := by
  rw [Text.trim, Text.trimStart, List.dropWhile_cons_of_pos (by decide)]
  rfl

/-- Blanks at the end of a text do not reach what stands before its last other character. -/
lemma trimEnd_append {a r : List Char} {ch : Char} (ha : a.getLast? = some ch)
    (hch : Text.isBlank ch = false) : Text.trimEnd (a ++ r) = a ++ Text.trimEnd r := by
  have hkept : a.reverse.dropWhile Text.isBlank = a.reverse := by
    obtain ⟨b, rfl⟩ := List.getLast?_eq_some_iff.mp ha
    rw [List.reverse_append, List.reverse_singleton, List.singleton_append,
      List.dropWhile_cons_of_neg (by simp [hch])]
  simp only [Text.trimEnd, List.reverse_append, List.dropWhile_append]
  split
  · next hempty =>
      rw [List.isEmpty_iff.mp hempty, hkept]
      simp
  · simp

lemma map_trim_cutCommas_join {p : List Char} {ps : List (List Char)}
    (h : ∀ q ∈ p :: ps, Whole arch false q) :
    (cutCommas 0 false (join (p :: ps))).map Text.trim = (p :: ps).map Text.trim ∧
      (cutCommas 0 false (' ' :: join (p :: ps))).map Text.trim = (p :: ps).map Text.trim := by
  induction ps generalizing p with
  | nil =>
      have hp := h p List.mem_cons_self
      rw [join_singleton, cutCommas_of_whole hp, cutCommas_of_whole (whole_blank_cons hp)]
      exact ⟨rfl, by simp [trim_blank_cons]⟩
  | cons q ps ih =>
      have hp := h p List.mem_cons_self
      have hrest := (ih fun r hr => h r (List.mem_cons_of_mem _ hr)).2
      rw [join_cons_cons, ← List.cons_append, cutCommas_append_comma hp,
        cutCommas_append_comma (whole_blank_cons hp)]
      refine ⟨?_, ?_⟩
      · rw [List.map_cons, hrest]
        rfl
      · rw [List.map_cons, hrest, trim_blank_cons]
        rfl

lemma map_text_ofCuts (n : ℕ) (cuts : List (List Char)) :
    (ofCuts n cuts).map Piece.text = cuts.map Text.trim := by
  induction cuts generalizing n with
  | nil => rfl
  | cons cut cuts ih =>
      rw [ofCuts, List.map_cons, List.map_cons, ih]
      rfl

lemma trim_eq_nil_of_blank (h : l.all Text.isBlank = true) : Text.trim l = [] := by
  have hstart : Text.trimStart l = [] := by
    rw [Text.trimStart, List.dropWhile_eq_nil_iff]
    simpa using h
  rw [Text.trim, hstart]
  rfl

/-- A text with the blanks at its ends. -/
lemma exists_append_trim (l : List Char) :
    ∃ after, l = l.takeWhile Text.isBlank ++ (Text.trim l ++ after) ∧
      ∀ c ∈ after, Text.isBlank c = true := by
  refine ⟨((Text.trimStart l).reverse.takeWhile Text.isBlank).reverse, ?_,
    fun c hc => List.mem_takeWhile_imp (List.mem_reverse.mp hc)⟩
  rw [Text.trim, Text.trimEnd, ← List.reverse_append, List.takeWhile_append_dropWhile,
    List.reverse_reverse, Text.trimStart, List.takeWhile_append_dropWhile]

/-- Texts that are put together are cut apart again. -/
lemma text_split_join {texts : List (List Char)} (h : ∀ p ∈ texts, Whole arch false p)
    (hblank : ∀ p ∈ texts, Text.trim p ≠ []) :
    (split (join texts)).map Piece.text = texts.map Text.trim := by
  cases texts with
  | nil => rfl
  | cons p ps =>
      have hcut := (map_trim_cutCommas_join h).1
      unfold split
      split
      · next hall =>
          exfalso
          have hp : p.all Text.isBlank = true := by
            cases ps with
            | nil => simpa using hall
            | cons q ps =>
                rw [join_cons_cons, List.all_append, Bool.and_eq_true] at hall
                exact hall.1
          exact hblank p List.mem_cons_self (trim_eq_nil_of_blank hp)
      · rw [map_text_ofCuts, hcut]

/-! ### What follows the first piece -/

lemma dropBytes_byteLength (l r : List Char) :
    Text.dropBytes (Text.byteLength l) (l ++ r) = r := by
  have htake := Text.takeBytes_append_dropBytes (Text.byteLength l) (l ++ r)
  rw [Text.takeBytes_byteLength] at htake
  exact List.append_cancel_left htake

lemma trim_blank_append {blanks : List Char} (h : ∀ ch ∈ blanks, Text.isBlank ch = true)
    (r : List Char) : Text.trim (blanks ++ r) = Text.trim r := by
  rw [Text.trim, Text.trimStart, List.dropWhile_append_of_pos h]
  rfl

/-- A text starts with its first piece. -/
lemma exists_append_of_cutCommas {depth : Int} {quoted : Bool} {cut : List Char}
    {cuts : List (List Char)} (h : cutCommas depth quoted l = cut :: cuts) :
    ∃ rest, l = cut ++ rest := by
  obtain ⟨rest, hrest⟩ := Text.exists_intercalate_cons ',' cut cuts
  exact ⟨rest, by rw [← hrest, ← h, intercalate_cutCommas]⟩

/-- The place of the second piece is where what follows the first comma begins. -/
lemma trim_dropBytes_ofCut {r cut : List Char} {cuts : List (List Char)}
    (hcut : cutCommas 0 false r = cut :: cuts) (l : List Char) :
    Text.trim (Text.dropBytes (ofCut (0 + Text.byteLength l + 1) cut).offset (l ++ ',' :: r)) =
      Text.trim r := by
  obtain ⟨rest, hrest⟩ := exists_append_of_cutCommas hcut
  have hsplit : cut = cut.takeWhile Text.isBlank ++ cut.dropWhile Text.isBlank :=
    List.takeWhile_append_dropWhile.symm
  have htext : l ++ ',' :: r =
      (l ++ ',' :: cut.takeWhile Text.isBlank) ++ (cut.dropWhile Text.isBlank ++ rest) := by
    rw [hrest, List.append_assoc, List.cons_append, ← List.append_assoc (List.takeWhile ..),
      ← hsplit]
  have hlength : (ofCut (0 + Text.byteLength l + 1) cut).offset =
      Text.byteLength (l ++ ',' :: cut.takeWhile Text.isBlank) := by
    rw [Text.byteLength_append, Text.byteLength_cons]
    change _ + _ = _ + (1 + _)
    omega
  rw [hlength, htext, dropBytes_byteLength, hrest]
  conv_rhs => rw [hsplit, List.append_assoc]
  exact (trim_blank_append (fun ch hch => List.mem_takeWhile_imp hch) _).symm

/-- What follows the first piece closes what it opens. -/
lemma whole_value (h : Whole arch true l) {p q : Piece} {ps : List Piece}
    (hsplit : split l = p :: q :: ps) :
    Whole arch true (Text.trim (Text.dropBytes q.offset l)) := by
  have hcuts : ofCuts 0 (cutCommas 0 false l) = p :: q :: ps := by
    unfold split at hsplit
    split at hsplit
    · cases hsplit
    · exact hsplit
  match hcut : cutCommas 0 false l with
  | [] => exact (cutCommas_ne_nil _ _ _ hcut).elim
  | [first] =>
      rw [hcut] at hcuts
      cases hcuts
  | first :: second :: cuts =>
      rw [hcut] at hcuts
      cases hcuts
      have hfirst : Whole arch false first := whole_of_mem_cutCommas h (hcut ▸ List.mem_cons_self)
      obtain ⟨r, hr⟩ : ∃ r, l = first ++ ',' :: r := by
        have hl := intercalate_cutCommas 0 false l
        rw [hcut] at hl
        exact ⟨[','].intercalate (second :: cuts), by rw [← hl]; simp [List.intercalate]⟩
      have hrest : cutCommas 0 false r = second :: cuts := by
        rw [hr, cutCommas_append_comma hfirst] at hcut
        exact List.tail_eq_of_cons_eq hcut
      rw [hr, whole_append_comma hfirst.mono] at h
      rw [hr, trim_dropBytes_ofCut hrest]
      exact h.trim

/-- A text before another is the first of at least two pieces, and the other one starts where the
second piece does. -/
lemma exists_split_append (hl : Whole arch false l) (hblank : Text.trim l ≠ []) (r : List Char) :
    ∃ p q ps, split (l ++ ',' :: r) = p :: q :: ps ∧ p.text = Text.trim l ∧
      Text.trim (Text.dropBytes q.offset (l ++ ',' :: r)) = Text.trim r := by
  have hall : ¬ (l ++ ',' :: r).all Text.isBlank = true := by
    rw [List.all_append, Bool.and_eq_true]
    exact fun h => hblank (trim_eq_nil_of_blank h.1)
  rw [split, if_neg hall, cutCommas_append_comma hl]
  obtain ⟨cut, cuts, hcut⟩ := List.exists_cons_of_ne_nil (cutCommas_ne_nil 0 false r)
  rw [hcut]
  exact ⟨_, _, _, rfl, rfl, trim_dropBytes_ofCut hcut l⟩

end Hermetic.Piece

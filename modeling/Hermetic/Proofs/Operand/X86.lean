/-
Operands of x86-64 and their parts.

* `X86.run_register`, `X86.run_display`: registers and references close what they open;
* `X86.Groups`, `X86.peel_groups`, `X86.peel_spec`: the decorations after an operand;
* `X86.Trimmed`: texts without blanks at their ends;
* `X86.exists_of_operand`, `X86.spelled_of_operand`: what is known of an operand that is read.
-/
import Hermetic.Proofs.Operand.Expr
import Hermetic.Proofs.Operand.Memory
import Hermetic.Proofs.Operand.Pieces

namespace Hermetic.X86

open Scan

variable {commas : Bool} {l : List Char} {m : MemoryRef}

/-! ### Registers -/

/-- The parts of a register's name. -/
lemma exists_of_isRegister (h : isRegister l = true) :
    ∃ stem index, l = '%' :: (stem ++ index) ∧ stem ≠ [] ∧ (∀ ch ∈ stem, ch.isAlphanum = true) ∧
      (index = [] ∨ ∃ digits, index = '(' :: (digits ++ [')']) ∧
        ∀ ch ∈ digits, ch.isDigit = true) := by
  unfold isRegister at h
  split at h
  · next name =>
      obtain ⟨stem, index, rfl, hstem, hindex, -, hhead⟩ := exists_span (· != '(') name
      simp only [hstem, hindex, Bool.and_eq_true, Bool.not_eq_true', List.isEmpty_eq_false_iff,
        List.all_eq_true] at h
      refine ⟨stem, index, rfl, h.1.1, h.1.2, ?_⟩
      have hclosed := h.2
      split at hclosed
      · exact .inl rfl
      · next ch index =>
          obtain rfl : ch = '(' := by simpa using hhead ch rfl
          split at hclosed
          · next digits hreverse =>
              rw [List.reverse_eq_cons_iff] at hreverse
              rw [Bool.and_eq_true, List.all_eq_true] at hclosed
              refine .inr ⟨digits.reverse, by rw [hreverse], fun d hd => ?_⟩
              exact hclosed.2 d (List.mem_reverse.mp hd)
          · cases hclosed
  · cases h

lemma inert_of_isAlphanum {ch : Char} (h : ch.isAlphanum = true) : Inert ch :=
  inert_of_isSymbolChar (isSymbolChar_of_isAlphanum h)

/-- A register closes what it opens. -/
lemma run_register (h : isRegister l = true) (opened : List Char) :
    run .x86_64 commas ⟨opened, .plain⟩ l = some ⟨opened, .plain⟩ := by
  obtain ⟨stem, index, rfl, -, hstem, hindex⟩ := exists_of_isRegister h
  have hinert : ∀ ch ∈ '%' :: stem, Inert ch := by
    intro ch hch
    rcases List.mem_cons.mp hch with rfl | hch
    · decide
    · exact inert_of_isAlphanum (hstem ch hch)
  rw [← List.cons_append, run_append, run_inert_plain hinert, Option.bind_some]
  rcases hindex with rfl | ⟨digits, rfl, hdigits⟩
  · rfl
  · have hinert' : ∀ ch ∈ digits, Inert ch := fun ch hch =>
      inert_of_isAlphanum (Offset.isAlphanum_of_isDigit (hdigits ch hch))
    have hclose : step .x86_64 commas ⟨'(' :: opened, .plain⟩ ')' = some ⟨opened, .plain⟩ :=
      step_closing (c := ')') (.inl rfl) (.inl rfl)
    rw [run_cons, step_opening (.inl rfl) (.inl rfl), Option.bind_some, run_append,
      run_inert_plain hinert', Option.bind_some, run_cons, hclose]
    rfl

/-! ### References -/

lemma isBlank_or_mem_trim {p : List Char} {ch : Char} (h : ch ∈ p) :
    Text.isBlank ch = true ∨ ch ∈ Text.trim p := by
  have hstart : Text.isBlank ch = true ∨ ch ∈ Text.trimStart p := by
    rw [← List.takeWhile_append_dropWhile (p := Text.isBlank) (l := p)] at h
    exact (List.mem_append.mp h).imp_left List.mem_takeWhile_imp
  refine hstart.imp_right id |>.elim .inl fun hmem => ?_
  rw [← List.mem_reverse, ← List.takeWhile_append_dropWhile (p := Text.isBlank)
    (l := (Text.trimStart p).reverse)] at hmem
  rcases List.mem_append.mp hmem with hmem | hmem
  · exact .inl (List.mem_takeWhile_imp hmem)
  · exact .inr (List.mem_reverse.mpr hmem)

lemma mem_of_mem_trim {p : List Char} {ch : Char} (h : ch ∈ Text.trim p) : ch ∈ p := by
  have hstart : ch ∈ Text.trimStart p :=
    List.mem_reverse.mp ((List.dropWhile_suffix _).subset (List.mem_reverse.mp h))
  exact (List.dropWhile_suffix _).subset hstart

lemma mem_of_mem_splitOn {ch x : Char} {p : List Char} (hp : p ∈ l.splitOn x) (h : ch ∈ p) :
    ch ∈ l := by
  induction l generalizing p with
  | nil =>
      obtain rfl : p = [] := by simpa using hp
      cases h
  | cons d l ih =>
      rw [List.splitOn_cons_eq_if_modifyHead] at hp
      obtain ⟨q, qs, hsplit⟩ := List.exists_cons_of_ne_nil (List.splitOn_ne_nil x l)
      rw [hsplit] at ih hp
      split at hp
      · rcases List.mem_cons.mp hp with rfl | hp
        · cases h
        · exact List.mem_cons_of_mem _ (ih hp h)
      · rcases List.mem_cons.mp hp with rfl | hp
        · rcases List.mem_cons.mp h with rfl | h
          · exact List.mem_cons_self
          · exact List.mem_cons_of_mem _ (ih List.mem_cons_self h)
        · exact List.mem_cons_of_mem _ (ih (List.mem_cons_of_mem _ hp) h)

lemma eq_or_mem_splitOn {ch x : Char} (h : ch ∈ l) : ch = x ∨ ∃ p ∈ l.splitOn x, ch ∈ p := by
  induction l with
  | nil => cases h
  | cons d l ih =>
      rw [List.splitOn_cons_eq_if_modifyHead]
      obtain ⟨p, ps, hsplit⟩ := List.exists_cons_of_ne_nil (List.splitOn_ne_nil x l)
      rw [hsplit] at ih ⊢
      rcases List.mem_cons.mp h with rfl | h
      · by_cases hx : ch = x
        · exact .inl hx
        · rw [if_neg (by simpa using hx)]
          exact .inr ⟨ch :: p, List.mem_cons_self, List.mem_cons_self⟩
      · refine (ih h).imp_right fun ⟨q, hq, hch⟩ => ?_
        split
        · exact ⟨q, List.mem_cons_of_mem _ hq, hch⟩
        · rcases List.mem_cons.mp hq with rfl | hq
          · exact ⟨d :: q, List.mem_cons_self, List.mem_cons_of_mem _ hch⟩
          · exact ⟨q, List.mem_cons_of_mem _ hq, hch⟩

/-- The parts between the brackets of a reference. -/
lemma isRegister_or_digits {inner : List Char} {b : BaseIndex} (h : baseIndex? inner = some b)
    {p : List Char} (hp : p ∈ (inner.splitOn ',').map Text.trim) (hne : p ≠ []) :
    isRegister p = true ∨ ∀ ch ∈ p, ch.isDigit = true := by
  unfold baseIndex? at h
  dsimp only at h
  generalize (inner.splitOn ',').map Text.trim = parts at h hp
  split at h
  · next hparts =>
      simp only [Bool.and_eq_true, decide_eq_true_eq] at hparts
      obtain ⟨⟨⟨hlength, h0⟩, h1⟩, h2⟩ := hparts
      obtain ⟨i, hi⟩ := List.mem_iff_getElem?.mp hp
      have hlt : i < parts.length := (List.getElem?_eq_some_iff.mp hi).1
      obtain rfl | rfl | rfl : i = 0 ∨ i = 1 ∨ i = 2 := by omega
      · simp only [hi, Option.filter_some] at h0
        exact .inl (by simpa [hne] using h0)
      · simp only [hi, Option.filter_some] at h1
        exact .inl (by simpa [hne] using h1)
      · simp only [hi, Option.filter_some] at h2
        exact .inr (by simpa [hne] using h2)
  · cases h

/-- The characters between the brackets of a reference. -/
lemma forall_mem_of_baseIndex? {inner : List Char} {b : BaseIndex} (h : baseIndex? inner = some b)
    (hparen : ')' ∉ inner) : ∀ ch ∈ inner,
      Text.isBlank ch = true ∨ ch = ',' ∨ ch = '%' ∨ ch.isAlphanum = true := by
  intro ch hch
  obtain rfl | ⟨p, hp, hchp⟩ := eq_or_mem_splitOn (x := ',') hch
  · exact .inr (.inl rfl)
  · rcases isBlank_or_mem_trim hchp with hblank | htrim
    · exact .inl hblank
    · refine .inr (.inr ?_)
      have hmem : Text.trim p ∈ (inner.splitOn ',').map Text.trim := List.mem_map_of_mem hp
      have hne : Text.trim p ≠ [] := List.ne_nil_of_mem htrim
      rcases isRegister_or_digits h hmem hne with hregister | hdigits
      · obtain ⟨stem, index, htext, -, hstem, hindex⟩ := exists_of_isRegister hregister
        rcases hindex with rfl | ⟨digits, rfl, -⟩
        · rw [htext, List.append_nil] at htrim
          exact (List.mem_cons.mp htrim).imp_right (hstem ch)
        · have hclose : ')' ∈ Text.trim p := by
            rw [htext]
            simp
          exact (hparen (mem_of_mem_splitOn hp (mem_of_mem_trim hclose))).elim
      · exact .inr (Offset.isAlphanum_of_isDigit (hdigits ch htrim))

/-- A reference closes what it opens. -/
lemma run_display (h : Spelled m) (hline : '\n' ∉ baseText m) (opened : List Char) :
    run .x86_64 commas ⟨opened, .plain⟩ m.display.toList = some ⟨opened, .plain⟩ := by
  -- a segment, a displacement and a symbol have no brackets and no quotes
  have hsegment : ∀ ch ∈ segmentText m, Inert ch := by
    intro ch hch
    unfold segmentText at hch
    split at hch
    · next s hs =>
        obtain ⟨name, hname, -, hchars⟩ := h.segment s hs
        rw [hname] at hch
        rcases List.mem_append.mp hch with hch | hch
        · rcases List.mem_cons.mp hch with rfl | hch
          · decide
          · exact inert_of_isAlphanum (isAlphanum_of_isAlpha (hchars ch hch))
        · rw [List.mem_singleton.mp hch]
          decide
    · cases hch
  have hdisplacement : ∀ ch ∈ leadText m ++ symbolText m, Inert ch := by
    intro ch hch
    rcases forall_mem_leadText_append h.toDisplaced ch hch with hch | rfl | rfl | rfl
    · exact inert_of_isSymbolChar hch
    all_goals decide
  rw [toList_display, ← List.append_assoc (leadText m), run_append, run_inert_plain hsegment,
    Option.bind_some, run_append, run_inert_plain hdisplacement, Option.bind_some]
  unfold baseText at hline ⊢
  split
  · next b hb =>
      rw [hb] at hline
      obtain ⟨inner, htext, hinner, hread⟩ := h.base b hb
      -- in the parentheses stand registers, commas and blanks
      have hrun : run .x86_64 commas ⟨'(' :: opened, .plain⟩ inner =
          some ⟨'(' :: opened, .plain⟩ := by
        refine run_inert_or_comma (fun ch hch => ?_) _ _
        have hne : ch ≠ '\n' := by
          rintro rfl
          refine hline ?_
          dsimp only
          rw [htext]
          simp [hch]
        rcases forall_mem_of_baseIndex? hread hinner ch hch with hblank | rfl | rfl | halpha
        · exact .inl (inert_of_isBlank hblank hne)
        · exact .inr rfl
        · exact .inl (by decide)
        · exact .inl (inert_of_isAlphanum halpha)
      have hclose : step .x86_64 commas ⟨'(' :: opened, .plain⟩ ')' = some ⟨opened, .plain⟩ :=
        step_closing (c := ')') (.inl rfl) (.inl rfl)
      rw [htext, run_cons, step_opening (.inl rfl) (.inl rfl), Option.bind_some, run_append, hrun,
        Option.bind_some, run_cons, hclose]
      rfl
  · rfl

/-- A reference to another symbol. -/
lemma Spelled.withSymbol {m : MemoryRef} (h : Spelled m) {f : String → String}
    (hf : ∀ name, IsName name → IsName (f name)) : Spelled { m with symbol := m.symbol.map f } where
  lead s hs := by
    obtain ⟨hoffset, hne, hsome⟩ := h.lead s hs
    exact ⟨hoffset, hne, by rwa [Option.isSome_map]⟩
  symbol s hs := by
    obtain ⟨name, hname, rfl⟩ := Option.map_eq_some_iff.mp hs
    exact hf name (h.symbol name hname)
  offset := h.offset
  signed hsome := h.signed (by rwa [Option.isSome_map] at hsome)
  tag t ht := by
    obtain ⟨hsome, hne, hchars⟩ := h.tag t ht
    exact ⟨by rwa [Option.isSome_map], hne, hchars⟩
  tagOffset := h.tagOffset
  tagSigned := h.tagSigned
  untagged := h.untagged
  segment := h.segment
  base := h.base
  given := by
    rw [Option.isSome_map]
    exact h.given

/-! ### Decorations -/

/-- Groups in braces, one after the other. -/
inductive Groups : List Char → Prop
  | nil : Groups []
  | cons {x ds : List Char} : '{' ∉ x → Groups ds → Groups ('{' :: (x ++ '}' :: ds))

/-- One group is taken off. -/
lemma peel_cons {x acc rest : List Char} (hx : '{' ∉ x) :
    peel acc ('}' :: (x.reverse ++ '{' :: rest)) =
      peel ('{' :: (x ++ '}' :: acc)) (rest.dropWhile Text.isBlank) := by
  -- backwards, the group ends at the first opening brace
  have hall : ∀ ch ∈ x.reverse, (ch != '{') = true := by
    intro ch hch
    have hne : ch ≠ '{' := fun heq => hx (heq ▸ List.mem_reverse.mp hch)
    simpa using hne
  have hhead : ∀ ch, ('{' :: rest).head? = some ch → (ch != '{') = false := by
    intro ch hch
    cases hch
    rfl
  rw [peel.eq_def]
  split
  · next l heq =>
      obtain rfl : x.reverse ++ '{' :: rest = l := (List.cons.inj heq).2
      split
      · next hnil =>
          rw [dropWhile_append_of_stop hall hhead] at hnil
          cases hnil
      · next ch rest' hcons =>
          rw [dropWhile_append_of_stop hall hhead] at hcons
          cases hcons
          rw [takeWhile_append_of_stop hall hhead, List.reverse_reverse]
  · next hnot => exact (hnot _ rfl).elim

lemma peel_of_head {acc : List Char} (h : l.head? ≠ some '}') : peel acc l = (l, acc) := by
  rw [peel.eq_def]
  split
  · exact (h rfl).elim
  · rfl

/-- Groups after a text are taken off it, up to the text. -/
lemma peel_groups {body ds acc : List Char} (hds : Groups ds) {ch : Char}
    (hbody : body.getLast? = some ch) (hch : Text.isBlank ch = false) :
    peel acc (body ++ ds).reverse = peel (ds ++ acc) body.reverse := by
  induction hds generalizing body ch acc with
  | nil => simp
  | @cons x ds hx _ ih =>
      have hlast : (body ++ '{' :: (x ++ ['}'])).getLast? = some '}' := by
        have hconcat : body ++ '{' :: (x ++ ['}']) = (body ++ '{' :: x) ++ ['}'] := by simp
        rw [hconcat, List.getLast?_concat]
      have hfirst : peel acc (body ++ '{' :: (x ++ ['}']) ++ ds).reverse = _ :=
        ih hlast (by decide)
      have htext : body ++ '{' :: (x ++ '}' :: ds) = body ++ '{' :: (x ++ ['}']) ++ ds := by simp
      have hreverse : (body ++ '{' :: (x ++ ['}'])).reverse =
          '}' :: (x.reverse ++ '{' :: body.reverse) := by simp
      have hdrop : body.reverse.dropWhile Text.isBlank = body.reverse := by
        obtain ⟨l, rfl⟩ := List.getLast?_eq_some_iff.mp hbody
        rw [List.reverse_append, List.reverse_singleton, List.singleton_append,
          List.dropWhile_cons_of_neg (by simp [hch])]
      rw [htext, hfirst, hreverse, peel_cons hx, hdrop]
      simp

/-- Blanks in front of a brace play no role for a scan. -/
lemma run_blanks_brace {s t : State} {blanks r : List Char}
    (hblanks : ∀ ch ∈ blanks, Text.isBlank ch = true)
    (h : run .x86_64 commas s (blanks ++ '{' :: r) = some t) :
    run .x86_64 commas s ('{' :: r) = some t := by
  induction blanks generalizing s with
  | nil => exact h
  | cons ch blanks ih =>
      obtain ⟨u, hu, h⟩ := run_cons_eq_some_iff.mp h
      have hrest := ih (fun d hd => hblanks d (List.mem_cons_of_mem _ hd)) h
      have hinert := inert_of_isBlank (hblanks ch List.mem_cons_self) (ne_newline_of_step hu)
      rw [run_cons] at hrest ⊢
      -- a blank ends at most a slash, and the brace is read alike behind it
      have hsame : step .x86_64 commas s '{' = step .x86_64 commas u '{' := by
        have hnot : ch ≠ '"' ∧ ch ≠ '\\' := by
          have hblank := hblanks ch List.mem_cons_self
          refine ⟨?_, ?_⟩ <;> rintro rfl <;> exact absurd hblank (by decide)
        have hopen {mode : Mode} {opened : List Char} (hs : mode = .plain ∨ mode = .slash) :
            step .x86_64 commas ⟨opened, mode⟩ '{' = some ⟨'{' :: opened, .plain⟩ :=
          step_opening hs (.inr (.inr rfl))
        obtain ⟨opened, mode⟩ := s
        cases mode with
        | plain =>
            rw [step_inert (.inl rfl) hinert] at hu
            cases hu
            rfl
        | slash =>
            rw [step_inert (.inr rfl) hinert] at hu
            cases hu
            rw [hopen (.inr rfl), hopen (.inl rfl)]
        | quoted | escaped =>
            simp only [step, if_neg (ne_newline_of_step hu), hnot, if_false,
              Option.some.injEq] at hu
            subst hu
            simp [step]
      rw [hsame]
      exact hrest

/-- A last character that is no blank is still the last one without the blanks in front. -/
lemma getLast?_dropWhile_isBlank {l : List Char} {d : Char} (h : l.getLast? = some d)
    (hd : Text.isBlank d = false) : (l.dropWhile Text.isBlank).getLast? = some d := by
  rw [← List.takeWhile_append_dropWhile (p := Text.isBlank) (l := l), List.getLast?_append] at h
  cases hlast : (l.dropWhile Text.isBlank).getLast? with
  | none =>
      rw [hlast, Option.none_or] at h
      rw [List.mem_takeWhile_imp (List.mem_of_getLast? h)] at hd
      cases hd
  | some e =>
      rw [hlast] at h
      exact h

/-- What is known of a text from which groups are taken off. -/
lemma peel_spec (acc l : List Char) (hacc : Groups acc) :
    Groups (peel acc l).2 ∧
      (∀ {s t : State}, run .x86_64 commas s (l.reverse ++ acc) = some t →
        run .x86_64 commas s ((peel acc l).1.reverse ++ (peel acc l).2) = some t) ∧
      (∀ ch, l.getLast? = some ch → ch ≠ '{' → Text.isBlank ch = false →
        (peel acc l).1.getLast? = some ch) ∧
      ((∀ ch, l.head? = some ch → Text.isBlank ch = false) →
        ∀ ch, (peel acc l).1.head? = some ch → Text.isBlank ch = false) := by
  fun_induction peel acc l with
  | case1 acc l hdrop =>
      exact ⟨hacc, fun h => h, fun ch hch _ _ => hch, fun h => h⟩
  | case2 acc l ch rest hdrop ih =>
      obtain ⟨x, after, rfl, hx, hafter, hchars, hhead⟩ := exists_span (· != '{') l
      rw [hafter] at hdrop
      subst hdrop
      obtain rfl : ch = '{' := by simpa using hhead ch rfl
      rw [hx] at ih ⊢
      have hnot : '{' ∉ x.reverse := by
        intro hmem
        exact absurd (hchars _ (List.mem_reverse.mp hmem)) (by decide)
      obtain ⟨hgroups, hrun, hlast, hblank⟩ := ih (.cons hnot hacc)
      refine ⟨hgroups, fun {s t} h => hrun ?_, fun d hd hne hnotBlank => hlast d ?_ hne hnotBlank,
        fun _ => hblank ?_⟩
      · -- the blanks in front of the group are left out of the text
        have htext : ('}' :: (x ++ '{' :: rest)).reverse ++ acc =
            (rest.dropWhile Text.isBlank).reverse ++ ((rest.takeWhile Text.isBlank).reverse ++
              '{' :: (x.reverse ++ '}' :: acc)) := by
          rw [← List.append_assoc, ← List.reverse_append, List.takeWhile_append_dropWhile]
          simp
        rw [htext, run_append_eq_some_iff] at h
        obtain ⟨u, hu, h⟩ := h
        refine run_append_eq_some_iff.mpr ⟨u, hu, run_blanks_brace (fun d hd => ?_) h⟩
        exact List.mem_takeWhile_imp (List.mem_reverse.mp hd)
      · -- the last character that counts stands in front of the group
        have hrest : rest.getLast? = some d := by
          have hparts : '}' :: (x ++ '{' :: rest) = ('}' :: x ++ ['{']) ++ rest := by simp
          rw [hparts, List.getLast?_append, List.getLast?_concat] at hd
          cases hrest : rest.getLast? with
          | none =>
              rw [hrest] at hd
              cases hd
              exact (hne rfl).elim
          | some e =>
              rw [hrest] at hd
              exact hd
        exact getLast?_dropWhile_isBlank hrest hnotBlank
      · intro d hd
        have hnotBlank := List.head?_dropWhile_not Text.isBlank rest
        rw [hd] at hnotBlank
        simpa using hnotBlank
  | case3 acc l hnot =>
      exact ⟨hacc, fun h => h, fun ch hch _ _ => hch, fun h => h⟩

/-! ### Blanks at the ends -/

/-- A text without blanks at its ends. -/
structure Trimmed (l : List Char) : Prop where
  head : ∀ ch, l.head? = some ch → Text.isBlank ch = false
  last : ∀ ch, l.getLast? = some ch → Text.isBlank ch = false

lemma Trimmed.trim_eq (h : Trimmed l) : Text.trim l = l := by
  have hstart : Text.trimStart l = l := by
    cases l with
    | nil => rfl
    | cons ch l => exact List.dropWhile_cons_of_neg (by simp [h.head ch rfl])
  have hend : l.reverse.dropWhile Text.isBlank = l.reverse := by
    cases hl : l.reverse with
    | nil => rfl
    | cons ch r =>
        have hlast : l.getLast? = some ch := by
          rw [List.getLast?_eq_head?_reverse, hl]
          rfl
        exact List.dropWhile_cons_of_neg (by simp [h.last ch hlast])
  rw [Text.trim, hstart, Text.trimEnd, hend, List.reverse_reverse]

lemma trimmed_trim (l : List Char) : Trimmed (Text.trim l) where
  head ch hch := by
    have hprefix : Text.trim l <+: Text.trimStart l := by
      have hsuffix := List.dropWhile_suffix (l := (Text.trimStart l).reverse) Text.isBlank
      rw [← List.reverse_prefix, List.reverse_reverse] at hsuffix
      exact hsuffix
    have hhead : (Text.trimStart l).head? = some ch := by
      obtain ⟨r, hr⟩ := hprefix
      rw [← hr, List.head?_append, hch]
      rfl
    have hnot := List.head?_dropWhile_not Text.isBlank l
    rw [Text.trimStart] at hhead
    rw [hhead] at hnot
    simpa using hnot
  last ch hch := by
    rw [Text.trim, Text.trimEnd, List.getLast?_reverse] at hch
    have hnot := List.head?_dropWhile_not Text.isBlank (Text.trimStart l).reverse
    rw [hch] at hnot
    simpa using hnot

/-! ### Operands -/

/-- An operand without the star that marks it as indirect. -/
def direct (l : List Char) : List Char :=
  match l with
  | '*' :: rest => Text.trimStart rest
  | _ => l

variable {o : Operand}

lemma direct_of_head (h : l.head? ≠ some '*') : direct l = l := by
  unfold direct
  split
  · exact (h rfl).elim
  · rfl

lemma operand_eq_ok_iff : operand l = .ok o ↔
    ∃ k, kind (undecorated (direct l)).1 = .ok k ∧ o = {
      text := String.ofList l
      indirect := l.head? == some '*'
      kind := k
      decorators := String.ofList (undecorated (direct l)).2 } := by
  have hoperand : operand l = (kind (undecorated (direct l)).1).map fun k => {
      text := String.ofList l
      indirect := l.head? == some '*'
      kind := k
      decorators := String.ofList (undecorated (direct l)).2 } := by
    cases l with
    | nil => rfl
    | cons ch l =>
        by_cases hch : ch = '*'
        · subst hch
          rfl
        · have hstar : (ch == '*') = false := by simpa using hch
          rw [direct_of_head (by simpa using hch)]
          simp [operand, hch, hstar, bind, Except.bind, Except.map, pure, Except.pure]
  rw [hoperand, Outcome.map_eq_ok_iff]
  simp only [eq_comm]

lemma trimmed_direct (h : Trimmed l) : Trimmed (direct l) := by
  unfold direct
  split
  · next rest =>
      refine ⟨fun ch hch => ?_, fun ch hch => h.last ch ?_⟩
      · have hnot := List.head?_dropWhile_not Text.isBlank rest
        rw [Text.trimStart] at hch
        rw [hch] at hnot
        simpa using hnot
      · obtain ⟨before, hsplit⟩ : ∃ before, '*' :: rest = before ++ Text.trimStart rest := by
          obtain ⟨before, hbefore⟩ := List.dropWhile_suffix (l := rest) Text.isBlank
          exact ⟨'*' :: before, by rw [List.cons_append, Text.trimStart, hbefore]⟩
        rw [hsplit, List.getLast?_append, hch]
        rfl
  · exact h

lemma whole_direct (h : Whole .x86_64 false l) : Whole .x86_64 false (direct l) := by
  unfold direct
  split
  · next rest =>
      obtain ⟨t, ht, hend⟩ := h
      have hrest : Whole .x86_64 false rest := ⟨t, ht, hend⟩
      exact hrest.trimStart
  · exact h

/-- What is known of a text from which the decorations are taken off. -/
lemma undecorated_spec (htrimmed : Trimmed l) :
    Groups (undecorated l).2 ∧
      (∀ ch, (undecorated l).1.getLast? = some ch → Text.isBlank ch = false) ∧
      (undecorated l).1.head? = l.head? := by
  unfold undecorated
  split
  · exact ⟨.nil, htrimmed.last, rfl⟩
  · next hbrace =>
      obtain ⟨hgroups, -, hhead, hlast⟩ := @peel_spec false [] l.reverse .nil
      refine ⟨hgroups, fun ch hch => ?_, ?_⟩
      · refine hlast (fun d hd => ?_) ch ?_
        · exact htrimmed.last d (by rwa [List.getLast?_eq_head?_reverse])
        · rwa [List.getLast?_reverse] at hch
      · cases l with
        | nil => simp [peel]
        | cons ch l =>
            have hne : ch ≠ '{' := fun heq => hbrace l (heq ▸ rfl)
            have hkept := hhead ch (by simp) hne (htrimmed.head ch rfl)
            rw [List.head?_reverse, hkept]
            rfl

lemma whole_undecorated (h : Whole .x86_64 commas l) :
    Whole .x86_64 commas ((undecorated l).1 ++ (undecorated l).2) := by
  unfold undecorated
  split
  · simpa using h
  · obtain ⟨-, hrun, -⟩ := peel_spec [] l.reverse .nil
    obtain ⟨t, ht, hend⟩ := h
    exact ⟨t, hrun (by simpa using ht), hend⟩

/-- What is known of an operand that is read. -/
lemma exists_of_operand (h : operand l = .ok o) (hwhole : Whole .x86_64 false l)
    (htrimmed : Trimmed l) :
    ∃ body, kind body = .ok o.kind ∧ Groups o.decorators.toList ∧
      Whole .x86_64 false (body ++ o.decorators.toList) ∧
      (∀ ch, body.getLast? = some ch → Text.isBlank ch = false) := by
  obtain ⟨k, hk, rfl⟩ := operand_eq_ok_iff.mp h
  obtain ⟨hgroups, hlast, -⟩ := undecorated_spec (trimmed_direct htrimmed)
  have hall := whole_undecorated (whole_direct hwhole)
  exact ⟨_, hk, by rwa [String.toList_ofList], by rwa [String.toList_ofList], hlast⟩

/-- A text without blanks at its end that is read as a reference is what is written of it. -/
lemma spelled_of_kind {body : List Char} (h : kind body = .ok (.memory m))
    (hlast : ∀ ch, body.getLast? = some ch → Text.isBlank ch = false) :
    Spelled m ∧ m.display.toList = body := by
  obtain ⟨hmemory, hsegment⟩ := memoryRef_of_kind h
  obtain ⟨hspelled, blanks, hblanks, hdisplay⟩ := spelled_of_memoryRef hmemory hsegment
  have hnil : blanks = [] := by
    cases hb : blanks.getLast? with
    | none => exact List.getLast?_eq_none_iff.mp hb
    | some ch =>
        have hch := hlast ch (by rw [hdisplay, List.getLast?_append, hb]; rfl)
        rw [hblanks ch (List.mem_of_getLast? hb)] at hch
        cases hch
  rw [hnil, List.append_nil] at hdisplay
  exact ⟨hspelled, hdisplay.symm⟩

/-- The reference that is read as an operand is what is written of it, without the decorations. -/
lemma kind_display_of_operand (h : operand l = .ok o) (hwhole : Whole .x86_64 false l)
    (htrimmed : Trimmed l) (hkind : o.kind = .memory m) :
    Spelled m ∧ kind m.display.toList = .ok (.memory m) ∧ Groups o.decorators.toList ∧
      Whole .x86_64 false (m.display.toList ++ o.decorators.toList) := by
  obtain ⟨body, hbody, hgroups, hall, hlast⟩ := exists_of_operand h hwhole htrimmed
  rw [hkind] at hbody
  obtain ⟨hspelled, rfl⟩ := spelled_of_kind hbody hlast
  exact ⟨hspelled, hbody, hgroups, hall⟩

/-- The reference that is read as an operand, and what is known of the decorations after it. -/
lemma spelled_of_operand (h : operand l = .ok o) (hwhole : Whole .x86_64 false l)
    (htrimmed : Trimmed l) (hkind : o.kind = .memory m) :
    Spelled m ∧ '\n' ∉ baseText m ∧ Groups o.decorators.toList ∧
      Whole .x86_64 false o.decorators.toList := by
  obtain ⟨hspelled, -, hgroups, hall⟩ := kind_display_of_operand h hwhole htrimmed hkind
  have hline : '\n' ∉ baseText m := by
    intro hmem
    refine hall.ne_newline (List.mem_append_left _ ?_) rfl
    rw [toList_display]
    simp [hmem]
  refine ⟨hspelled, hline, hgroups, ?_⟩
  obtain ⟨t, ht, hend⟩ := hall
  rw [run_append, run_display hspelled hline, Option.bind_some] at ht
  exact ⟨t, ht, hend⟩

end Hermetic.X86

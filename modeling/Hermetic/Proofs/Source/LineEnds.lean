/-
Texts with other line ends.

A carriage return before a line feed is a blank.  Two cursors in a text and in the same text with
such carriage returns keep step: they stand at the same place, or the second stands at a carriage
return that is gone past with the blanks before it.

* `Text.crlf`: a text with a carriage return before every line feed, and `Text.pastReturn`: the same
  without the carriage return in front;
* `Outcome.Alike`: computations that both fail, or both have results that are related;
* `Cursor.skipSpace_alike`, `Cursor.skipBlockComment_alike`, `Cursor.takeQuoted_alike` and so on:
  each move leads to such cursors again.
-/
import Hermetic.Proofs.Statement.Arguments

namespace Hermetic

/-! ### Carriage returns -/

namespace Text

/-- A text with a carriage return before every line feed. -/
def crlf : List Char → List Char
  | [] => []
  | c :: l => if c = '\n' then '\r' :: '\n' :: crlf l else c :: crlf l

/-- The same, without the carriage return that comes first. -/
def pastReturn (l : List Char) : List Char :=
  if l.head? = some '\n' then (crlf l).tail else crlf l

variable {l r : List Char} {c : Char}

@[simp] lemma crlf_nil : crlf [] = [] := rfl

@[simp] lemma crlf_newline (l : List Char) : crlf ('\n' :: l) = '\r' :: '\n' :: crlf l := rfl

lemma crlf_cons (h : c ≠ '\n') (l : List Char) : crlf (c :: l) = c :: crlf l := by
  rw [crlf, if_neg h]

lemma crlf_eq_nil_iff : crlf l = [] ↔ l = [] := by
  cases l with
  | nil => rfl
  | cons c l =>
      rw [crlf]
      split <;> simp

@[simp] lemma pastReturn_nil : pastReturn [] = [] := rfl

@[simp] lemma pastReturn_newline (l : List Char) : pastReturn ('\n' :: l) = '\n' :: crlf l := rfl

lemma pastReturn_cons (h : c ≠ '\n') (l : List Char) : pastReturn (c :: l) = c :: crlf l := by
  rw [pastReturn, if_neg (by simpa using h), crlf_cons h]

lemma crlf_append (l r : List Char) : crlf (l ++ r) = crlf l ++ crlf r := by
  induction l with
  | nil => rfl
  | cons c l ih =>
      by_cases h : c = '\n'
      · subst h
        rw [List.cons_append, crlf_newline, crlf_newline, ih]
        rfl
      · rw [List.cons_append, crlf_cons h, crlf_cons h, ih, List.cons_append]

/-- A text on one line has nothing to change. -/
lemma crlf_of_notMem (h : '\n' ∉ l) : crlf l = l := by
  induction l with
  | nil => rfl
  | cons c l ih =>
      rw [List.mem_cons, not_or] at h
      rw [crlf_cons (Ne.symm h.1), ih h.2]

lemma head?_crlf (hreturn : c ≠ '\r') (hline : c ≠ '\n') :
    (crlf l).head? = some c ↔ l.head? = some c := by
  cases l with
  | nil => rfl
  | cons d l =>
      by_cases h : d = '\n'
      · subst h
        simp [hreturn.symm, hline.symm]
      · rw [crlf_cons h]
        rfl

/-- Nothing that has no line ends comes into being. -/
lemma infix_of_infix_crlf {a b : Char} (ha : a ≠ '\r' ∧ a ≠ '\n') (hb : b ≠ '\r' ∧ b ≠ '\n')
    (h : [a, b] <:+: crlf l) : [a, b] <:+: l := by
  induction l with
  | nil => exact h
  | cons c l ih =>
      by_cases hc : c = '\n'
      · subst hc
        simp only [crlf_newline, List.infix_cons_iff, List.cons_prefix_cons, ha.1, ha.2,
          false_and, false_or] at h
        exact List.infix_cons_iff.mpr (.inr (ih h))
      · rw [crlf_cons hc, List.infix_cons_iff] at h
        refine List.infix_cons_iff.mpr (h.imp (fun h => ?_) ih)
        rw [List.cons_prefix_cons] at h ⊢
        obtain ⟨hhead, more, hmore⟩ := h
        obtain ⟨r, rfl⟩ := List.head?_eq_some_iff.mp
          ((head?_crlf hb.1 hb.2).mp (show (crlf l).head? = some b by rw [← hmore]; rfl))
        exact ⟨hhead, r, rfl⟩

end Text

open Text

/-! ### Outcomes -/

namespace Outcome

variable {ε α β γ δ : Type}

/-- Both computations fail, or both have results, which are related. -/
def Alike (R : α → β → Prop) : Except ε α → Except ε β → Prop
  | .ok a, .ok b => R a b
  | .error _, .error _ => True
  | _, _ => False

lemma Alike.bind {R : α → β → Prop} {S : γ → δ → Prop} {x : Except ε α} {y : Except ε β}
    {f : α → Except ε γ} {g : β → Except ε δ} (h : Alike R x y)
    (hfg : ∀ a b, R a b → Alike S (f a) (g b)) : Alike S (x >>= f) (y >>= g) := by
  cases x with
  | error => cases y with
    | error => exact trivial
    | ok => exact h.elim
  | ok a => cases y with
    | error => exact h.elim
    | ok b => exact hfg a b h

lemma Alike.exists_ok {R : α → β → Prop} {x : Except ε α} {y : Except ε β} (h : Alike R x y)
    {a : α} (hx : x = .ok a) : ∃ b, y = .ok b ∧ R a b := by
  subst hx
  cases y with
  | error => exact h.elim
  | ok b => exact ⟨b, rfl, h⟩

lemma Alike.exists_error {R : α → β → Prop} {x : Except ε α} {y : Except ε β} (h : Alike R x y)
    {e : ε} (hx : x = .error e) : ∃ e', y = .error e' := by
  subst hx
  cases y with
  | error e' => exact ⟨e', rfl⟩
  | ok => exact h.elim

/-- Faults may be told in other words. -/
lemma alike_mapError {ε' : Type} (x : Except ε' α) (f g : ε' → ε) :
    Alike Eq (x.mapError f) (x.mapError g) := by
  cases x <;> trivial

lemma alike_mapM {f g : α → Except ε β} (h : ∀ a, Alike Eq (f a) (g a)) (l : List α) :
    Alike Eq (l.mapM f) (l.mapM g) := by
  induction l with
  | nil => rfl
  | cons a l ih =>
      rw [List.mapM_cons, List.mapM_cons]
      refine (h a).bind fun b b' hb => ih.bind fun r r' hr => ?_
      subst hb hr
      rfl

end Outcome

open Outcome

/-! ### Blanks and comments -/

lemma Cursor.not_infix_of_commentRun {n : ℕ} {l : List Char} (h : commentRun n l = none) :
    ¬ ['*', '/'] <:+: l := by
  induction l generalizing n with
  | nil => simp
  | cons u l ih =>
      cases l with
      | nil => simp [List.infix_cons_iff]
      | cons v r =>
          rw [commentRun] at h
          split at h
          · cases h
          · next hend =>
              rw [List.infix_cons_iff, not_or]
              refine ⟨fun hstarts => hend ?_, ih h⟩
              rw [List.cons_prefix_cons, List.cons_prefix_cons] at hstarts
              exact ⟨hstarts.1.symm, hstarts.2.1.symm⟩

/-- Blanks and comments before a word, or before a comment that does not end. -/
lemma Spacing.exists_or (l : List Char) :
    (∃ lead r, l = lead ++ r ∧ Spacing lead ∧ Cursor.AtWord r) ∨
      ∃ lead r, l = lead ++ '/' :: '*' :: r ∧ Spacing lead ∧ ¬ ['*', '/'] <:+: r := by
  induction hl : l.length using Nat.strongRecOn generalizing l with
  | ind size ih =>
      cases l with
      | nil => exact .inl ⟨[], [], rfl, .nil, trivial⟩
      | cons u l =>
          by_cases hu : Cursor.isSpace u = true
          · rcases ih l.length (by simp at hl; omega) l rfl with
              ⟨lead, r, rfl, hlead, hr⟩ | ⟨lead, r, rfl, hlead, hr⟩
            · exact .inl ⟨u :: lead, r, rfl, .blank hu hlead, hr⟩
            · exact .inr ⟨u :: lead, r, rfl, .blank hu hlead, hr⟩
          by_cases hopen : u = '/' ∧ l.head? = some '*'
          · obtain ⟨rfl, hstar⟩ := hopen
            obtain ⟨l, rfl⟩ := List.head?_eq_some_iff.mp hstar
            cases hrun : Cursor.commentRun 0 l with
            | none => exact .inr ⟨[], l, rfl, .nil, Cursor.not_infix_of_commentRun hrun⟩
            | some m =>
                obtain ⟨body, rest, rfl, hbody, -⟩ := Cursor.commentRun_eq_some hrun
                rcases ih rest.length (by simp at hl; omega) rest rfl with
                  ⟨lead, r, rfl, hlead, hr⟩ | ⟨lead, r, rfl, hlead, hr⟩
                · exact .inl ⟨_, r, by simp, .comment hbody hlead, hr⟩
                · exact .inr ⟨_, r, by simp, .comment hbody hlead, hr⟩
          · exact .inl ⟨[], u :: l, rfl, .nil, by simpa using hu, hopen⟩

lemma Spacing.crlf {l : List Char} (h : Spacing l) : Spacing (crlf l) := by
  induction h with
  | nil => exact .nil
  | @blank c l hc _ ih =>
      have hline : c ≠ '\n' := by
        rintro rfl
        exact absurd hc (by decide)
      rw [crlf_cons hline]
      exact .blank hc ih
  | @comment body l hbody _ ih =>
      rw [crlf_cons (by decide), crlf_cons (by decide), crlf_append, crlf_cons (by decide),
        crlf_cons (by decide)]
      refine .comment (fun hinfix => hbody ?_) ih
      refine infix_of_infix_crlf (by decide) (by decide) ?_
      rwa [crlf_append]

namespace Cursor

/-- Blanks and comments end before a word, at the carriage return if a line ends there. -/
lemma exists_spacing_crlf {lead r : List Char} (hlead : Spacing lead) (hr : AtWord r) :
    ∃ lead', crlf (lead ++ r) = lead' ++ pastReturn r ∧ Spacing lead' ∧ AtWord (pastReturn r) := by
  rw [crlf_append]
  match r with
  | [] => exact ⟨_, rfl, hlead.crlf, trivial⟩
  | u :: r =>
      by_cases hu : u = '\n'
      · subst hu
        refine ⟨crlf lead ++ ['\r'], ?_, hlead.crlf.append (.blank rfl .nil), by decide,
          fun h => absurd h.1 (by decide)⟩
        rw [crlf_newline, pastReturn_newline, List.append_assoc]
        rfl
      · rw [crlf_cons hu, pastReturn_cons hu]
        refine ⟨_, rfl, hlead.crlf, hr.1, fun h => hr.2 ⟨h.1, ?_⟩⟩
        exact (head?_crlf (by decide) (by decide)).mp h.2

lemma skipSpace_eq_of_spacing {c : Cursor Char} {lead r : List Char} (hlead : Spacing lead)
    (hr : AtWord r) (hc : c.rest = lead ++ r) : c.skipSpace = (.ok (), c.skip lead.length) := by
  rw [skipSpace, hc, blankRun_of_spacing hlead hr, Nat.zero_add]

lemma commentRun_eq_none {l : List Char} (h : ¬ ['*', '/'] <:+: l) (n : ℕ) :
    commentRun n l = none := by
  cases hrun : commentRun n l with
  | none => rfl
  | some m =>
      obtain ⟨body, r, rfl, -, -⟩ := commentRun_eq_some hrun
      exact (h ⟨body, r, by simp⟩).elim

/-- A comment that does not end is a fault. -/
lemma settle_skipSpace_of_open {c : Cursor Char} {lead r : List Char} (hlead : Spacing lead)
    (hr : ¬ ['*', '/'] <:+: r) (hc : c.rest = lead ++ '/' :: '*' :: r) :
    ∃ e, settle c.skipSpace = .error e := by
  have hrun : blankRun 0 none c.rest = .error (0 + lead.length) := by
    rw [hc, blankRun_spacing_append hlead, blankRun, if_pos ⟨rfl, rfl⟩, blankRun_opened,
      commentRun_eq_none hr]
  rw [skipSpace, hrun]
  exact ⟨_, rfl⟩

/-- Two cursors that keep step.  The second may have gone past the carriage return of a line that
ends. -/
def Beside (c c' : Cursor Char) : Prop :=
  c'.rest = crlf c.rest ∨ ∃ r, c.rest = '\n' :: r ∧ c'.rest = '\n' :: crlf r

variable {c c' : Cursor Char}

lemma beside_of_pastReturn (h : c'.rest = pastReturn c.rest) : Beside c c' := by
  cases hc : c.rest with
  | nil => exact .inl (by rw [h, hc, pastReturn_nil, crlf_nil])
  | cons u r =>
      by_cases hu : u = '\n'
      · subst hu
        exact .inr ⟨r, hc, by rw [h, hc, pastReturn_newline]⟩
      · exact .inl (by rw [h, hc, pastReturn_cons hu, crlf_cons hu])

/-- Blanks and comments are gone past, and so is the carriage return of a line that ends. -/
lemma skipSpace_alike (h : Beside c c') :
    Alike (fun a a' => a'.2.rest = pastReturn a.2.rest) (settle c.skipSpace)
      (settle c'.skipSpace) := by
  rcases h with hc' | ⟨r, hc, hc'⟩
  · rcases Spacing.exists_or c.rest with ⟨lead, r, hc, hlead, hr⟩ | ⟨lead, r, hc, hlead, hr⟩
    · obtain ⟨lead', hcrlf, hlead', hr'⟩ := exists_spacing_crlf hlead hr
      rw [hc, hcrlf] at hc'
      rw [skipSpace_eq_of_spacing hlead hr hc, skipSpace_eq_of_spacing hlead' hr' hc']
      change (c'.skip lead'.length).rest = pastReturn (c.skip lead.length).rest
      rw [rest_skip, rest_skip, hc, hc', List.drop_left, List.drop_left]
    · rw [hc, crlf_append, crlf_cons (by decide), crlf_cons (by decide)] at hc'
      obtain ⟨e, he⟩ := settle_skipSpace_of_open hlead hr hc
      obtain ⟨e', he'⟩ := settle_skipSpace_of_open hlead.crlf
        (fun hinfix => hr (infix_of_infix_crlf (by decide) (by decide) hinfix)) hc'
      rw [he, he']
      trivial
  · have hword (r : List Char) : AtWord ('\n' :: r) :=
      ⟨by decide, fun h => absurd h.1 (by decide)⟩
    rw [skipSpace_eq_of_spacing .nil (hword r) hc, skipSpace_eq_of_spacing .nil (hword _) hc']
    change c'.rest = pastReturn c.rest
    rw [hc, hc', pastReturn_newline]

/-- A comment is gone past with its line ends. -/
lemma skipBlockComment_alike {r : List Char} (hc : c.rest = '/' :: '*' :: r)
    (h : c'.rest = crlf c.rest) :
    Alike (fun a a' => a'.2.rest = crlf a.2.rest) (settle c.skipBlockComment)
      (settle c'.skipBlockComment) := by
  rw [hc, crlf_cons (by decide), crlf_cons (by decide)] at h
  cases hrun : commentRun 0 r with
  | none =>
      have hrun' := commentRun_eq_none (fun hinfix => not_infix_of_commentRun hrun
        (infix_of_infix_crlf (by decide) (by decide) hinfix)) 0
      rw [skipBlockComment, skipBlockComment, hc, h]
      simp only [List.drop_succ_cons, List.drop_zero, hrun, hrun']
      trivial
  | some m =>
      obtain ⟨body, more, rfl, hbody, -⟩ := commentRun_eq_some hrun
      rw [crlf_append, crlf_cons (by decide), crlf_cons (by decide)] at h
      have hbody' : ¬ ['*', '/'] <:+: crlf body ++ ['*'] := by
        rw [show crlf body ++ ['*'] = crlf (body ++ ['*']) by rw [crlf_append]; rfl]
        exact fun hinfix => hbody (infix_of_infix_crlf (by decide) (by decide) hinfix)
      obtain ⟨d, hd, hdr⟩ := skipBlockComment_of_body hbody hc
      obtain ⟨d', hd', hdr'⟩ := skipBlockComment_of_body hbody' h
      rw [hd, hd']
      change d'.rest = crlf d.rest
      rw [hdr, hdr']

/-! ### Strings -/

lemma newline_notMem_of_quoted {q : List Char} (h : Quoted q) : '\n' ∉ q := by
  induction h with
  | close => decide
  | escape hc _ ih => simp [ih, hc.symm]
  | char _ _ hline _ ih => simp [ih, hline.symm]

lemma snd_quotedRun_quote (n : ℕ) (l : List Char) : (quotedRun n ('"' :: l)).2 = true := by
  cases l <;> rfl

lemma snd_quotedRun_newline (n : ℕ) (l : List Char) : (quotedRun n ('\n' :: l)).2 = false := by
  cases l <;> rfl

/-- A string that does not end on its line does not end there with a carriage return either. -/
lemma quotedRun_crlf (n n' : ℕ) (l : List Char) :
    (quotedRun n' (crlf l)).2 = (quotedRun n l).2 := by
  -- along the string without carriage returns
  fun_induction quotedRun n l generalizing n' with
  | case1 => rfl
  | case2 n u hu | case5 n u v r hu =>
      obtain rfl : u = '"' := hu
      rw [crlf_cons (by decide)]
      exact snd_quotedRun_quote _ _
  | case3 n u _ hu | case6 n u v r _ hu =>
      obtain rfl : u = '\n' := hu
      rw [crlf_newline]
      exact snd_quotedRun_newline (n' + 1) _
  | case4 n u hquote hline =>
      rw [SourceUnit.char_eq] at hquote hline
      rw [crlf_cons hline, crlf_nil, quotedRun, SourceUnit.char_eq, if_neg hquote, if_neg hline]
  | case7 n u v r hquote hline hescape ih =>
      obtain ⟨rfl, hv⟩ : u = '\\' ∧ v ≠ '\n' := hescape
      rw [crlf_cons (by decide), crlf_cons hv, quotedRun, if_neg hquote, if_neg hline,
        if_pos ⟨rfl, hv⟩, ih]
  | case8 n u v r hquote hline hescape ih =>
      rw [SourceUnit.char_eq] at hquote hline hescape
      rw [crlf_cons hline]
      -- a backslash at the end of the line escapes the carriage return, and the string is open
      by_cases hslash : u = '\\'
      · obtain rfl : v = '\n' := by
          by_contra hv
          exact hescape ⟨hslash, hv⟩
        subst hslash
        exact (snd_quotedRun_newline (n' + 2) _).trans (snd_quotedRun_newline (n + 1) _).symm
      · rw [← ih (n' + 1)]
        obtain ⟨x, y, hxy⟩ : ∃ x y, crlf (v :: r) = x :: y := by
          rw [crlf]
          split <;> exact ⟨_, _, rfl⟩
        rw [hxy, quotedRun, SourceUnit.char_eq, if_neg hquote, if_neg hline,
          if_neg (fun h => hslash h.1)]

/-- A string that does not end on its line is a fault. -/
lemma settle_takeQuoted_of_open {r : List Char} (hc : c.rest = '"' :: r)
    (hopen : (quotedRun 1 r).2 = false) : ∃ e, settle c.takeQuoted = .error e := by
  have hlength : min 1 c.rest.length = 1 := by
    rw [hc, List.length_cons]
    omega
  rcases hrun : quotedRun 1 r with ⟨n, closed⟩
  rw [hrun] at hopen
  obtain rfl : closed = false := hopen
  rw [takeQuoted, hlength, hc, List.drop_succ_cons, List.drop_zero, hrun]
  exact ⟨_, rfl⟩

/-- A string is taken as it is. -/
lemma takeQuoted_alike {r : List Char} (hc : c.rest = '"' :: r) (h : c'.rest = crlf c.rest) :
    Alike (fun a a' => a'.1 = a.1 ∧ a'.2.rest = crlf a.2.rest) (settle c.takeQuoted)
      (settle c'.takeQuoted) := by
  rw [hc, crlf_cons (by decide)] at h
  rcases hrun : quotedRun 1 r with ⟨n, closed⟩
  cases closed with
  | false =>
      have hopen := settle_takeQuoted_of_open hc (by rw [hrun])
      have hopen' := settle_takeQuoted_of_open h (by rw [quotedRun_crlf 1 1 r, hrun])
      obtain ⟨⟨e, he⟩, e', he'⟩ := And.intro hopen hopen'
      rw [he, he']
      trivial
  | true =>
      obtain ⟨q, more, rfl, hq, -⟩ := quoted_of_quotedRun hrun
      rw [crlf_append, crlf_of_notMem (newline_notMem_of_quoted hq)] at h
      obtain ⟨d, hd, hdr⟩ := takeQuoted_of_quoted hq hc
      obtain ⟨d', hd', hdr'⟩ := takeQuoted_of_quoted hq h
      rw [hd, hd']
      exact ⟨rfl, by rw [hdr, hdr']⟩

/-! ### Runs of characters -/

/-- What is taken without line ends is the same. -/
lemma take_crlf {n : ℕ} {l : List Char} (h : '\n' ∉ l.take n) : (crlf l).take n = l.take n := by
  induction l generalizing n with
  | nil => simp
  | cons u l ih =>
      cases n with
      | zero => rfl
      | succ n =>
          rw [List.take_succ_cons, List.mem_cons, not_or] at h
          rw [crlf_cons (Ne.symm h.1), List.take_succ_cons, List.take_succ_cons, ih h.2]

lemma drop_crlf {n : ℕ} {l : List Char} (h : '\n' ∉ l.take n) :
    (crlf l).drop n = crlf (l.drop n) := by
  induction l generalizing n with
  | nil => simp
  | cons u l ih =>
      cases n with
      | zero => rfl
      | succ n =>
          rw [List.take_succ_cons, List.mem_cons, not_or] at h
          rw [crlf_cons (Ne.symm h.1), List.drop_succ_cons, List.drop_succ_cons, ih h.2]

variable {p : Char → Bool}

/-- A run of characters that are no line ends is the same. -/
lemma countWhile_crlf (hreturn : p '\r' = false) (hline : p '\n' = false) (l : List Char) :
    countWhile p (crlf l) = countWhile p l := by
  have hrun : (crlf l).takeWhile p = l.takeWhile p := by
    induction l with
    | nil => rfl
    | cons u l ih =>
        by_cases hu : u = '\n'
        · subst hu
          simp [hreturn, hline]
        · rw [crlf_cons hu, List.takeWhile_cons, List.takeWhile_cons, ih]
  exact congrArg List.length hrun

lemma newline_notMem_take_countWhile (hline : p '\n' = false) (l : List Char) :
    '\n' ∉ l.take (countWhile p l) := by
  have htake : l.take (countWhile p l) = l.takeWhile p :=
    (List.prefix_iff_eq_take.mp (List.takeWhile_prefix p)).symm
  rw [htake]
  intro hmem
  have hall := List.all_takeWhile (p := p) (l := l)
  rw [List.all_eq_true] at hall
  rw [hall _ hmem] at hline
  cases hline

lemma rest_takeLine_bump_eq (c : Cursor Char) :
    c.takeLine.2.bump.rest = (c.rest.dropWhile (· != '\n')).tail := by
  have hdrop (l : List Char) : l.drop (countWhile (· != '\n') l) = l.dropWhile (· != '\n') := by
    have hleft : (l.takeWhile (· != '\n') ++ l.dropWhile (· != '\n')).drop
        (countWhile (· != '\n') l) = l.dropWhile (· != '\n') := List.drop_left
    rwa [List.takeWhile_append_dropWhile] at hleft
  rw [rest_bump, ← hdrop]
  exact congrArg List.tail (rest_skip _ c)

/-- The rest of a line is gone past with its end. -/
lemma rest_takeLine_bump_crlf (h : Beside c c') :
    c'.takeLine.2.bump.rest = crlf c.takeLine.2.bump.rest := by
  have hline (l : List Char) : ((crlf l).dropWhile (· != '\n')).tail =
      crlf (l.dropWhile (· != '\n')).tail := by
    induction l with
    | nil => rfl
    | cons u l ih =>
        by_cases hu : u = '\n'
        · subst hu
          rfl
        · have hne : (u != '\n') = true := by simpa using hu
          rw [crlf_cons hu, List.dropWhile_cons, List.dropWhile_cons, if_pos hne, if_pos hne, ih]
  rw [rest_takeLine_bump_eq, rest_takeLine_bump_eq]
  rcases h with h | ⟨r, hc, h⟩
  · rw [h, hline]
  · rw [hc, h]
    rfl

end Cursor

end Hermetic

/-
Line feeds at which a statement goes on.

* `Unfinished`: texts that end at such a line feed: in a comment that is open, or after a backslash;
* `GoesOn`, `GoesOnWithin`: texts all of whose line feeds are such, or all but one at the end;
* `Kept`, `Arguments.unfinished`: a backslash that takes a line feed away is kept of the text;
* `Shape.goesOnWithin`: there are no other line feeds within a statement;
* `Statement.exists_of_listed_append`: a place in a text is where a statement starts, or within one.
-/
import Hermetic.Proofs.Statement.Spelled

namespace Hermetic

open Text (isBlank)

/-! ### Texts that are not finished -/

/-- What may stand between a backslash and the line feed that it takes away: blanks, comments, and
more backslashes with line feeds. -/
inductive Filler : List Char → Prop
  | nil : Filler []
  | char {l : List Char} {ch : Char} : Filler l → isBlank ch = true ∨ ch = '\\' →
      Filler (l ++ [ch])
  | comment {l body : List Char} : Filler l → ¬ ['*', '/'] <:+: body ++ ['*'] →
      Filler (l ++ '/' :: '*' :: (body ++ ['*', '/']))

/-- Texts that end in a comment that is open, or at a line feed that a backslash takes away. -/
inductive Unfinished : List Char → Prop
  | comment {l body : List Char} : ¬ ['*', '/'] <:+: body → Unfinished (l ++ '/' :: '*' :: body)
  | backslash {l gap : List Char} : Filler gap → Unfinished (l ++ '\\' :: (gap ++ ['\n']))

/-- Texts in which a statement goes on after every line feed. -/
def GoesOn (l : List Char) : Prop :=
  ∀ a b, l = a ++ b → a.getLast? = some '\n' → Unfinished a

/-- Texts in which a statement goes on after every line feed but one at the end. -/
def GoesOnWithin (l : List Char) : Prop :=
  ∀ a b, l = a ++ b → b ≠ [] → a.getLast? = some '\n' → Unfinished a

variable {arch : Arch} {a b l r p kept : List Char}

lemma Unfinished.append_left (h : Unfinished a) (l : List Char) : Unfinished (l ++ a) := by
  cases h with
  | comment hbody =>
      rw [← List.append_assoc]
      exact .comment hbody
  | backslash hgap =>
      rw [← List.append_assoc]
      exact .backslash hgap

/-- A line feed after a text without one. -/
lemma exists_append_of_newline (h : l ++ r = a ++ b) (hl : '\n' ∉ l)
    (ha : a.getLast? = some '\n') : ∃ a', a = l ++ a' ∧ r = a' ++ b ∧ a'.getLast? = some '\n' := by
  rcases List.append_eq_append_iff.mp h with ⟨a', rfl, rfl⟩ | ⟨c, rfl, -⟩
  · refine ⟨a', rfl, rfl, ?_⟩
    cases a' with
    | nil => exact absurd (List.mem_of_getLast? (by rwa [List.append_nil] at ha)) hl
    | cons ch a' => rwa [List.getLast?_append_of_ne_nil _ (List.cons_ne_nil _ _)] at ha
  · exact absurd (List.mem_append_left c (List.mem_of_getLast? ha)) hl

lemma goesOn_of_notMem (h : '\n' ∉ l) : GoesOn l := by
  rintro a b rfl ha
  exact absurd (List.mem_append_left b (List.mem_of_getLast? ha)) h

/-- A line feed in the first of two texts, or in the second, where `P` holds of what follows it. -/
lemma GoesOn.unfinished {P : List Char → Prop} (hl : GoesOn l)
    (hr : ∀ a b, r = a ++ b → P b → a.getLast? = some '\n' → Unfinished a)
    (h : l ++ r = a ++ b) (hb : P b) (ha : a.getLast? = some '\n') : Unfinished a := by
  rcases List.append_eq_append_iff.mp h with ⟨a', rfl, rfl⟩ | ⟨c, rfl, -⟩
  · cases a' with
    | nil =>
        rw [List.append_nil] at ha ⊢
        exact hl l [] (List.append_nil l).symm ha
    | cons ch a' =>
        rw [List.getLast?_append_of_ne_nil _ (List.cons_ne_nil _ _)] at ha
        exact (hr _ b rfl hb ha).append_left l
  · exact hl a c rfl ha

lemma GoesOn.append (hl : GoesOn l) (hr : GoesOn r) : GoesOn (l ++ r) :=
  fun _ _ h => hl.unfinished (P := fun _ => True) (fun a b hr' _ => hr a b hr') h trivial

lemma GoesOn.append_within (hl : GoesOn l) (hr : GoesOnWithin r) : GoesOnWithin (l ++ r) :=
  fun _ _ h => hl.unfinished (P := (· ≠ [])) hr h

lemma goesOnWithin_of_dropLast (h : '\n' ∉ l.dropLast) : GoesOnWithin l := by
  rintro a b rfl hb ha
  rw [List.dropLast_append_of_ne_nil hb] at h
  exact absurd (List.mem_append_left _ (List.mem_of_getLast? ha)) h

/-- A line feed in a text that starts with a comment lies in the comment, or after it. -/
lemma exists_of_comment {body : List Char} (hbody : ¬ ['*', '/'] <:+: body ++ ['*'])
    (h : '/' :: '*' :: (body ++ '*' :: '/' :: r) = a ++ b) (ha : a.getLast? = some '\n') :
    (∃ y, a = '/' :: '*' :: y ∧ ¬ ['*', '/'] <:+: y) ∨
      ∃ a', a = '/' :: '*' :: (body ++ ['*', '/']) ++ a' ∧ r = a' ++ b ∧
        a'.getLast? = some '\n' := by
  have hnot {y : List Char} (hy : y <+: body) : ¬ ['*', '/'] <:+: y :=
    fun hclosed => hbody ((hclosed.trans hy.isInfix).trans (List.prefix_append _ _).isInfix)
  have hopen : ['/', '*'] ++ (body ++ '*' :: '/' :: r) = a ++ b := h
  obtain ⟨y, rfl, hy, hlast⟩ := exists_append_of_newline hopen (by decide) ha
  rcases List.append_eq_append_iff.mp hy with ⟨z, rfl, hz⟩ | ⟨z, hz, -⟩
  · by_cases hnil : z = []
    · rw [hnil, List.append_nil]
      exact .inl ⟨body, rfl, hnot (List.prefix_refl _)⟩
    · rw [List.getLast?_append_of_ne_nil _ hnil] at hlast
      have hclose : ['*', '/'] ++ r = z ++ b := hz
      obtain ⟨a', rfl, rfl, ha'⟩ := exists_append_of_newline hclose (by decide) hlast
      exact .inr ⟨a', by simp, rfl, ha'⟩
  · exact .inl ⟨y, rfl, hnot ⟨z, hz.symm⟩⟩

/-! ### Arguments -/

/-- Of a text, some characters are kept, backwards.  A backslash after which only blanks and other
backslashes are kept stands in the text, too. -/
def Kept (p kept : List Char) : Prop :=
  ∀ u joined, kept = u ++ '\\' :: joined → (∀ ch ∈ u, isBlank ch = true ∨ ch = '\\') →
    ∃ l gap, p = l ++ '\\' :: gap ∧ Filler gap

lemma kept_nil : Kept p [] := by
  intro u joined h
  simp at h

lemma Kept.char (h : Kept p kept) (ch : Char) : Kept (p ++ [ch]) (ch :: kept) := by
  intro u joined hkept hu
  cases u with
  | nil =>
      obtain rfl := (List.cons.inj hkept).1
      exact ⟨p, [], rfl, .nil⟩
  | cons d u =>
      obtain ⟨hch, htail⟩ := List.cons.inj hkept
      obtain ⟨l, gap, rfl, hgap⟩ := h u joined htail fun x hx => hu x (List.mem_cons_of_mem _ hx)
      exact ⟨l, gap ++ [ch], by simp, .char hgap (hu ch (hch ▸ List.mem_cons_self))⟩

lemma Kept.comment {body : List Char} (h : Kept p kept) (hbody : ¬ ['*', '/'] <:+: body ++ ['*']) :
    Kept (p ++ '/' :: '*' :: (body ++ ['*', '/'])) (' ' :: kept) := by
  intro u joined hkept hu
  cases u with
  | nil => exact absurd (List.cons.inj hkept).1 (by decide)
  | cons d u =>
      obtain ⟨l, gap, rfl, hgap⟩ := h u joined (List.cons.inj hkept).2 fun x hx =>
        hu x (List.mem_cons_of_mem _ hx)
      exact ⟨l, gap ++ '/' :: '*' :: (body ++ ['*', '/']), by simp, .comment hgap hbody⟩

lemma Kept.quoted {q : List Char} (hq : Quoted q) : Kept p (q.reverse ++ '"' :: kept) := by
  obtain ⟨q', rfl⟩ := List.getLast?_eq_some_iff.mp hq.getLast?
  intro u joined hkept hu
  rw [List.reverse_append, List.reverse_singleton, List.singleton_append, List.cons_append] at hkept
  cases u with
  | nil => exact absurd (List.cons.inj hkept).1 (by decide)
  | cons d u =>
      obtain rfl := (List.cons.inj hkept).1
      exact absurd (hu '"' List.mem_cons_self) (by decide)

/-- A line feed that a backslash takes away. -/
lemma Kept.joined {joined : List Char} (h : Kept p kept)
    (hjoined : kept.dropWhile isBlank = '\\' :: joined) :
    Unfinished (p ++ ['\n']) ∧ Kept (p ++ ['\n']) (' ' :: joined) := by
  have hsplit : kept = kept.takeWhile isBlank ++ '\\' :: joined := by
    rw [← hjoined, List.takeWhile_append_dropWhile]
  have hblank : ∀ ch ∈ kept.takeWhile isBlank, isBlank ch = true ∨ ch = '\\' :=
    fun ch hch => .inl (List.mem_takeWhile_imp hch)
  refine ⟨?_, fun u joined' hkept hu => ?_⟩
  · obtain ⟨l, gap, rfl, hgap⟩ := h _ joined hsplit hblank
    rw [List.append_assoc]
    exact .backslash hgap
  · cases u with
    | nil => exact absurd (List.cons.inj hkept).1 (by decide)
    | cons d u =>
        obtain ⟨-, rfl⟩ := List.cons.inj hkept
        -- The backslash before this one has become a blank, which may stand in between as well.
        obtain ⟨l, gap, rfl, hgap⟩ := h (kept.takeWhile isBlank ++ '\\' :: u) joined'
          (by rw [List.append_assoc]; exact hsplit) fun x hx => by
            rcases List.mem_append.mp hx with hx | hx
            · exact hblank x hx
            · rcases List.mem_cons.mp hx with rfl | hx
              · exact .inr rfl
              · exact hu x (List.mem_cons_of_mem _ hx)
        exact ⟨l, gap ++ ['\n'], by simp, .char hgap (.inl (by decide))⟩

/-- Arguments go on after every line feed. -/
lemma Arguments.unfinished {next : Option Char} {opened raw args : List Char}
    (h : Arguments arch next kept opened raw args) (hp : Kept p kept) (hraw : raw = a ++ b)
    (ha : a.getLast? = some '\n') : Unfinished (p ++ a) := by
  -- a character that ends no line stands in front of the line feed
  have hchar {ch : Char} {raw a : List Char} (hch : ch ≠ '\n') (hraw : ch :: raw = a ++ b)
      (ha : a.getLast? = some '\n') : ∃ a', a = ch :: a' ∧ raw = a' ++ b ∧
        a'.getLast? = some '\n' :=
    exists_append_of_newline (l := [ch]) hraw (by simpa using Ne.symm hch) ha
  -- along the arguments, up to the part that the text ends in
  induction h generalizing p a with
  | stop =>
      obtain ⟨rfl, -⟩ := List.append_eq_nil_iff.mp hraw.symm
      cases ha
  | @joined kept joined opened raw args bracket hjoined _ ih =>
      obtain ⟨hunfinished, hkept⟩ := hp.joined hjoined
      cases a with
      | nil => cases ha
      | cons ch a =>
          obtain ⟨rfl, rfl⟩ := List.cons.inj hraw
          cases a with
          | nil => exact hunfinished
          | cons d a =>
              have hrest := ih hkept rfl (by rwa [List.getLast?_cons_cons] at ha)
              rwa [List.append_assoc] at hrest
  | @comment kept opened body raw args hbody _ ih =>
      rcases exists_of_comment hbody hraw ha with ⟨y, rfl, hy⟩ | ⟨a', rfl, rfl, ha'⟩
      · exact .comment hy
      · have hrest := ih (hp.comment hbody) rfl ha'
        rwa [List.append_assoc] at hrest
  | @quoted kept opened q raw args hq _ ih =>
      have hnot : '\n' ∉ '"' :: q := by
        simpa using hq.newline_notMem
      obtain ⟨a', rfl, rfl, ha'⟩ := exists_append_of_newline (l := '"' :: q) hraw hnot ha
      have hrest := ih (p := p ++ '"' :: q) (Kept.quoted hq) rfl ha'
      rwa [List.append_assoc] at hrest
  | @opening kept opened raw args ch hch _ ih =>
      obtain ⟨a', rfl, rfl, ha'⟩ := hchar (by rcases hch with rfl | rfl | rfl <;> decide) hraw ha
      have hrest := ih (hp.char ch) rfl ha'
      rwa [List.append_assoc] at hrest
  | @closing kept opened raw args ch hch _ ih =>
      obtain ⟨a', rfl, rfl, ha'⟩ := hchar (by rcases hch with rfl | rfl | rfl <;> decide) hraw ha
      have hrest := ih (hp.char ch) rfl ha'
      rwa [List.append_assoc] at hrest
  | @char kept opened raw args ch hch _ _ _ ih =>
      have hline : ch ≠ '\n' := by
        rintro rfl
        exact hch List.mem_cons_self
      obtain ⟨a', rfl, rfl, ha'⟩ := hchar hline hraw ha
      have hrest := ih (hp.char ch) rfl ha'
      rwa [List.append_assoc] at hrest

lemma Arguments.goesOn {next : Option Char} {raw args : List Char}
    (h : Arguments arch next [] [] raw args) : GoesOn raw :=
  fun _ _ hraw ha => h.unfinished (p := []) kept_nil hraw ha

/-! ### Statements -/

lemma Spacing.goesOn (h : Spacing l) : GoesOn l := by
  intro a b hl ha
  induction h generalizing a with
  | nil =>
      obtain ⟨rfl, -⟩ := List.append_eq_nil_iff.mp hl.symm
      cases ha
  | @blank c l hc _ ih =>
      have hnot : '\n' ∉ [c] := by
        rw [List.mem_singleton]
        rintro rfl
        exact absurd hc (by decide)
      obtain ⟨a', rfl, rfl, ha'⟩ := exists_append_of_newline (l := [c]) hl hnot ha
      exact (ih _ rfl ha').append_left [c]
  | @comment body l hbody _ ih =>
      rcases exists_of_comment hbody hl ha with ⟨y, rfl, hy⟩ | ⟨a', rfl, rfl, ha'⟩
      · exact .comment (l := []) hy
      · exact (ih _ rfl ha').append_left _

lemma IsWord.newline_notMem {w : List Char} (h : IsWord w) : '\n' ∉ w :=
  fun hmem => absurd (h.forall_mem _ hmem) (by decide)

lemma Words.goesOn {words : List String} {m : String} (h : Words arch l words m) : GoesOn l := by
  induction h with
  | single hw => exact goesOn_of_notMem hw.newline_notMem
  | cons _ hw _ hgap _ _ ih =>
      exact (goesOn_of_notMem hw.newline_notMem).append (hgap.goesOn.append ih)

lemma Terminator.newline_notMem {stop : List Char} (h : Terminator arch stop) :
    '\n' ∉ stop.dropLast := by
  cases h with
  | line | semicolon => decide
  | @comment lead text hlead htext =>
      rw [← List.append_assoc, List.dropLast_concat, List.mem_append, not_or]
      exact ⟨hlead.newline_notMem, htext⟩

lemma isSymbolChar_of_isNumericChar {ch : Char} (h : isNumericChar ch = true) :
    isSymbolChar ch = true := by
  simp only [isNumericChar, Bool.or_eq_true, beq_iff_eq] at h
  rcases h with h | rfl
  · simp [isSymbolChar, Char.isAlphanum, h]
  · decide

lemma LabelName.forall_mem {name : List Char} (h : LabelName name) :
    ∀ ch ∈ name, isSymbolChar ch = true := by
  cases name with
  | nil => exact h.elim
  | cons ch name =>
      intro d hd
      rcases List.mem_cons.mp hd with rfl | hd
      · exact h.elim (fun h => isSymbolChar_of_isNumericChar (by simp [isNumericChar, h.1]))
          fun h => isSymbolChar_of_isSymbolStart h.1
      · exact h.elim (fun h => isSymbolChar_of_isNumericChar (h.2 d hd)) fun h => h.2 d hd

lemma newline_notMem_of_isSymbolChar (h : ∀ ch ∈ l, isSymbolChar ch = true) : '\n' ∉ l :=
  fun hmem => absurd (h _ hmem) (by decide)

lemma Body.goesOnWithin {kind : Statement.Kind} (h : Body arch l kind) : GoesOnWithin l := by
  cases h with
  | blank => exact goesOnWithin_of_dropLast (List.not_mem_nil)
  | @comment lead text hlead htext =>
      refine goesOnWithin_of_dropLast ?_
      rw [← List.append_assoc, List.dropLast_concat, List.mem_append, not_or]
      exact ⟨hlead.newline_notMem, htext⟩
  | @label name hname =>
      refine goesOnWithin_of_dropLast ?_
      rw [List.dropLast_concat]
      exact newline_notMem_of_isSymbolChar hname.forall_mem
  | @directive name gap raw args stop kind _ hname _ hgap _ hraw hstop _ =>
      have hdot : '\n' ∉ '.' :: name :=
        List.not_mem_cons_of_ne_of_not_mem (by decide) (newline_notMem_of_isSymbolChar hname)
      exact (goesOn_of_notMem hdot).append_within (hgap.goesOn.append_within
        (hraw.goesOn.append_within (goesOnWithin_of_dropLast hstop.newline_notMem)))
  | instruction hwords _ _ hgap _ hraw hstop _ =>
      exact hwords.goesOn.append_within (hgap.goesOn.append_within
        (hraw.goesOn.append_within (goesOnWithin_of_dropLast hstop.newline_notMem)))

namespace Statement

/-- A statement goes on after every line feed but one at its end. -/
lemma Shape.goesOnWithin {kind : Kind} (h : Shape arch l kind) : GoesOnWithin l := by
  obtain ⟨lead, body, hlead, hbody, rfl⟩ := h
  exact hlead.goesOn.append_within hbody.goesOnWithin

lemma goesOnWithin_of_ofCursor {c d : Cursor Char} {s : Statement}
    (h : ofCursor arch c = .ok (s, d)) : GoesOnWithin s.text.toList := by
  rcases shape_of_ofCursor h with hshape | ⟨-, -, hshape⟩
  · exact hshape.goesOnWithin
  · intro a b hs _ ha
    rw [hs, List.append_assoc] at hshape
    exact hshape.goesOnWithin a _ rfl (List.append_ne_nil_of_right_ne_nil _ (List.cons_ne_nil _ _))
      ha

/-- A place in a text is where a statement starts, or within one. -/
lemma exists_of_listed_append {c : Cursor Char} {statements : List Statement}
    {before rest : List Char} (h : Listed arch c statements) (hc : c.rest = before ++ rest)
    (hrest : rest ≠ []) :
    (∃ done others d, statements = done ++ others ∧ done.flatMap (·.text.toList) = before ∧
      Listed arch d others ∧ d.rest = rest) ∨
    ∃ done s others a b, statements = done ++ s :: others ∧ s.text.toList = a ++ b ∧ a ≠ [] ∧
      b ≠ [] ∧ done.flatMap (·.text.toList) ++ a = before ∧ GoesOnWithin s.text.toList := by
  -- by the statements: the place is before the first, within it or behind it
  induction h generalizing before with
  | nil hnil => exact absurd (List.append_eq_nil_iff.mp (hc.symm.trans hnil)).2 hrest
  | @cons c d s statements hne hs hlisted ih =>
      by_cases hbefore : before = []
      · subst hbefore
        exact .inl ⟨[], _, c, rfl, rfl, .cons hne hs hlisted, hc⟩
      have htext := (between_of_ofCursor hs).rest.symm.trans hc
      rcases List.append_eq_append_iff.mp htext with ⟨front, rfl, hd⟩ | ⟨b, hb, rfl⟩
      · rcases ih hd with ⟨done, others, e, rfl, rfl, hothers, he⟩ |
          ⟨done, t, others, a, b, rfl, ht, ha, hb, rfl, hgoes⟩
        · exact .inl ⟨s :: done, others, e, rfl, List.flatMap_cons, hothers, he⟩
        · exact .inr ⟨s :: done, t, others, a, b, rfl, ht, ha, hb, by
            rw [List.flatMap_cons, List.append_assoc], hgoes⟩
      · by_cases hnil : b = []
        · subst hnil
          rw [List.append_nil] at hb
          exact .inl ⟨[s], statements, d, rfl, by simp [hb], hlisted, rfl⟩
        · exact .inr ⟨[], s, statements, before, b, rfl, hb, hbefore, hnil, rfl,
            goesOnWithin_of_ofCursor hs⟩

end Statement

end Hermetic

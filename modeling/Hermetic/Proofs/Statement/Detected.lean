/-
The line that tells the architecture of a text, and the statement on it.

* `Arch.FirstTelling`, `Arch.exists_firstTelling`: the first line of a text that tells an
  architecture;
* `Arch.exists_of_ofLine`: what stands on such a line: a word that only one architecture has, after
  a label if there is one;
* `Body.of_run`, `Statement.Shape.of_run`: a name at the start of a statement is a label or a
  mnemonic;
* `Statement.detect_sound`: the word is the mnemonic of an instruction, unless the line starts
  within a statement;
* `Statement.exists_detect_in_comment`: a line in a comment.
-/
import Hermetic.Proofs.Operand.Pieces
import Hermetic.Proofs.Statement.Continued
import Mathlib.Data.List.TakeDrop

namespace Hermetic

open Text (isBlank ended)

/-! ### Lines that tell -/

namespace Arch

variable {arch : Arch} {line : List Char}

/-- The first line of a text that tells an architecture, and what stands before and after it. -/
structure FirstTelling (arch : Arch) (l before line after : List Char) : Prop where
  text : l = before ++ (line ++ after)
  starts : before = [] ∨ before.getLast? = some '\n'
  newline_notMem : '\n' ∉ line
  ends : ∀ ch, after.head? = some ch → ch = '\n'
  tells : ofLine line = some arch
  first : detect (String.ofList before) = none

/-- A text that tells an architecture has a first line that does. -/
lemma exists_firstTelling {text : String} (h : detect text = some arch) :
    ∃ before line after, FirstTelling arch text.toList before line after := by
  obtain ⟨front, line, back, hlines, htells, hfirst⟩ := List.findSome?_eq_some_iff.mp h
  have hparts : ∀ p ∈ front ++ line :: back, '\n' ∉ p := by
    rw [← hlines]
    exact Text.not_mem_of_mem_splitOn
  obtain ⟨after, hafter, hhead⟩ := Text.exists_intercalate '\n' front back line
  refine ⟨ended '\n' front, line, after, ?_, ?_, hparts line (by simp), hhead, htells, ?_⟩
  · rw [← hafter, ← hlines]
    exact (List.intercalate_splitOn '\n').symm
  · rcases List.eq_nil_or_concat front with rfl | ⟨first, last, rfl⟩
    · exact .inl rfl
    · exact .inr (by simp [ended])
  · have hempty : [[]].findSome? ofLine = none := by decide +kernel
    have hbefore : Text.lines (ended '\n' front) = front ++ [[]] :=
      Text.splitOn_ended fun p hp => hparts p (List.mem_append_left _ hp)
    rw [detect, String.toList_ofList, hbefore, List.findSome?_append, hempty, Option.or_none,
      List.findSome?_eq_none_iff]
    exact hfirst

lemma mem_telling_of_ofMnemonic {word : String} (h : ofMnemonic word = some arch) :
    word ∈ arch.telling := by
  unfold ofMnemonic at h
  split at h
  · next hmem =>
      cases h
      exact hmem
  · split at h
    · next hmem =>
        cases h
        exact hmem
    · cases h

/-- A word after blanks, and after a label with its colon. -/
inductive Led : List Char → List Char → Prop
  | word {lead rest : List Char} : (∀ ch ∈ lead, isBlank ch = true) → Led (lead ++ rest) rest
  | label {lead name gap rest : List Char} : (∀ ch ∈ lead, isBlank ch = true) → name ≠ [] →
      (∀ ch ∈ name, isSymbolChar ch = true) → (∀ ch ∈ gap, isBlank ch = true) →
      Led (lead ++ (name ++ ':' :: (gap ++ rest))) rest

/-- The label at the start of a line. -/
lemma exists_of_withoutLabel (l : List Char) : withoutLabel l = l ∨
    ∃ name tail, l = name ++ ':' :: tail ∧ name ≠ [] ∧ (∀ ch ∈ name, isSymbolChar ch = true) ∧
      withoutLabel l = Text.trimStart tail := by
  obtain ⟨head, rest, rfl, hhead, hrest, -, hcolon⟩ := exists_span (· != ':') l
  have hspan : (head ++ rest).span (· != ':') = (head, rest) := by
    rw [List.span_eq_takeWhile_dropWhile, hhead, hrest]
  cases rest with
  | nil => exact .inl (by rw [withoutLabel, hspan])
  | cons ch tail =>
      obtain rfl : ch = ':' := by simpa using hcolon ch rfl
      have hout : withoutLabel (head ++ ':' :: tail) =
          if !head.isEmpty && head.all isSymbolChar then Text.trimStart tail
          else head ++ ':' :: tail := by
        rw [withoutLabel, hspan]
        rfl
      rw [hout]
      split
      · next hname =>
          rw [Bool.and_eq_true, Bool.not_eq_true', List.isEmpty_eq_false_iff,
            List.all_eq_true] at hname
          exact .inr ⟨head, tail, rfl, hname.1, hname.2, rfl⟩
      · exact .inl rfl

/-- The first word of a text, where only blanks follow the text. -/
lemma exists_of_ofMnemonic {code after : List Char}
    (h : ofMnemonic (String.ofList (code.takeWhile fun c => !isBlank c)) = some arch)
    (hafter : ∀ ch ∈ after, isBlank ch = true) :
    ∃ w tail, code ++ after = w ++ tail ∧ String.ofList w ∈ arch.telling ∧
      ∀ ch, tail.head? = some ch → isBlank ch = true := by
  obtain ⟨w, rest, rfl, hw, -, -, hrest⟩ := exists_span (fun c => !isBlank c) code
  rw [hw] at h
  refine ⟨w, rest ++ after, List.append_assoc .., mem_telling_of_ofMnemonic h, fun ch hch => ?_⟩
  cases rest with
  | nil => exact hafter ch (List.mem_of_mem_head? hch)
  | cons d rest =>
      cases hch
      simpa using hrest ch rfl

/-- A line that tells an architecture has a word that does, before a blank or at its end. -/
lemma exists_of_ofLine (h : ofLine line = some arch) :
    ∃ w tail, Led line (w ++ tail) ∧ String.ofList w ∈ arch.telling ∧
      ∀ ch, tail.head? = some ch → isBlank ch = true := by
  obtain ⟨after, hline, hafter⟩ := Piece.exists_append_trim line
  have hlead : ∀ ch ∈ line.takeWhile isBlank, isBlank ch = true :=
    fun ch hch => List.mem_takeWhile_imp hch
  have hcode : ofMnemonic (String.ofList
      ((withoutLabel (Text.trim line)).takeWhile fun c => !isBlank c)) = some arch := by
    unfold ofLine at h
    dsimp only at h
    split at h
    · cases h
    · exact h
  obtain ⟨w, tail, htail, hw, hhead⟩ := exists_of_ofMnemonic hcode hafter
  refine ⟨w, tail, ?_, hw, hhead⟩
  -- the word stands in front, or behind a label
  rcases exists_of_withoutLabel (Text.trim line) with heq | ⟨name, rest, htrim, hne, hname, heq⟩
  · rw [heq] at htail
    rw [hline, htail]
    exact .word hlead
  · rw [heq] at htail
    have hgap : ∀ ch ∈ rest.takeWhile isBlank, isBlank ch = true :=
      fun ch hch => List.mem_takeWhile_imp hch
    have hrest : rest = rest.takeWhile isBlank ++ Text.trimStart rest :=
      List.takeWhile_append_dropWhile.symm
    have hafterLabel : Text.trim line ++ after =
        name ++ ':' :: (rest.takeWhile isBlank ++ (w ++ tail)) := by
      rw [← htail, ← List.append_assoc (rest.takeWhile isBlank), ← hrest, htrim]
      simp
    rw [hline, hafterLabel]
    exact .label hlead hne hname hgap

/-- The words that tell an architecture. -/
lemma telling_word {word : String} (h : word ∈ arch.telling) :
    word.toList ≠ [] ∧ (∀ ch ∈ word.toList, isSymbolChar ch = true) ∧
      word.toList.head? ≠ some '.' ∧ word.toLower ∉ Statement.modifierWords := by
  have hall : arch.telling.all fun word => !word.toList.isEmpty && word.toList.all isSymbolChar &&
      word.toList.head? != some '.' && !Statement.modifierWords.contains word.toLower := by
    cases arch <;> decide +kernel
  simpa [and_assoc] using List.all_eq_true.mp hall word h

end Arch

/-! ### Names at the start of a statement -/

variable {arch : Arch} {l r lead name rest : List Char} {kind : Statement.Kind}

/-- A statement that starts with a name is a label, or a directive or an instruction of this name.
The name may also be a word that changes a mnemonic. -/
lemma Body.of_run (h : Body arch l kind) (hl : l ++ r = name ++ rest) (hne : name ≠ [])
    (hname : ∀ ch ∈ name, isSymbolChar ch = true)
    (hrest : ∀ ch, rest.head? = some ch → isSymbolChar ch = false) :
    (∃ label, kind = .label label ∧ l = name ++ [':']) ∨
      rest.head? ≠ some ':' ∧ (name.head? = some '.' ∨ ∃ i, kind = .instruction i ∧
        (i.modifiers = [] ∧ i.mnemonic = String.ofList name ∨
          (String.ofList name).toLower ∈ Statement.modifierWords)) := by
  have hfirst {ch : Char} {t : List Char} (hcons : ch :: t = name ++ rest) :
      isSymbolChar ch = true := by
    obtain ⟨d, name', rfl⟩ := List.exists_cons_of_ne_nil hne
    obtain rfl := (List.cons.inj hcons).1
    exact hname ch List.mem_cons_self
  -- a run of the same characters as the name that ends where it may is the name
  have hrun {a x : List Char} (hsplit : a ++ x = name ++ rest)
      (ha : ∀ ch ∈ a, isSymbolChar ch = true)
      (hx : ∀ ch, x.head? = some ch → isSymbolChar ch = false ∧ ch ≠ ':') :
      a = name ∧ rest.head? ≠ some ':' := by
    obtain ⟨rfl, rfl⟩ :=
      append_inj_of_stop hsplit ha (fun ch hch => (hx ch hch).1) hname hrest
    exact ⟨rfl, fun hcolon => (hx ':' hcolon).2 rfl⟩
  cases h with
  | blank hch =>
      have hsymbol := hfirst hl
      rcases hch with rfl | rfl <;> exact absurd hsymbol (by decide)
  | comment hlead =>
      rcases hlead with ⟨rfl, -⟩ | ⟨rfl, -⟩ <;> exact absurd (hfirst hl) (by decide)
  | label hlabel =>
      rw [List.append_assoc] at hl
      have hstop : ∀ ch, ([':'] ++ r).head? = some ch → isSymbolChar ch = false := by
        rintro ch ⟨⟩
        decide
      obtain ⟨rfl, -⟩ := append_inj_of_stop hl hlabel.forall_mem hstop hname hrest
      exact .inl ⟨_, rfl, rfl⟩
  | @directive name' gap raw args stop _ _ hdirective hhead _ _ _ hstop _ =>
      have hafter : ∀ ch, (gap ++ (raw ++ (stop ++ r))).head? = some ch →
          isSymbolChar ch = false ∧ ch ≠ ':' := by
        intro ch hch
        rw [← List.append_assoc, head?_append_terminator hstop, List.append_assoc] at hch
        exact hhead ch hch
      have hdot : ∀ ch ∈ '.' :: name', isSymbolChar ch = true :=
        List.forall_mem_cons.mpr ⟨by decide, hdirective⟩
      obtain ⟨rfl, hcolon⟩ := hrun (by rw [← hl]; simp) hdot hafter
      exact .inr ⟨hcolon, .inl rfl⟩
  | @instruction text gap raw args stop modifiers mnemonic operands hwords hends _ _ _ _ hstop _ =>
      have hafter : ∀ ch, (gap ++ (raw ++ (stop ++ r))).head? = some ch →
          isSymbolChar ch = false ∧ ch ≠ ':' := by
        intro ch hch
        rw [← List.append_assoc] at hends hch
        rw [head?_append_terminator hstop] at hch
        exact hends.head hch
      have hword {w : List Char} (hw : IsWord w) : ∀ ch ∈ w, isSymbolChar ch = true :=
        fun ch hch => isSymbolChar_of_isWordChar (hw.forall_mem ch hch)
      cases hwords with
      | single hw =>
          obtain ⟨rfl, hcolon⟩ := hrun (by rw [← hl]; simp) (hword hw) hafter
          exact .inr ⟨hcolon, .inr ⟨_, rfl, .inl ⟨rfl, rfl⟩⟩⟩
      | @cons w space text' words _ _ hw hmodifier hspace hspaceNe _ =>
          -- the name is the first of several words
          have hhead : ∀ ch, (space ++ (text' ++ (gap ++ (raw ++ (stop ++ r))))).head? = some ch →
              isSymbolChar ch = false ∧ ch ≠ ':' := by
            intro ch hch
            rw [List.head?_append_of_ne_nil _ hspaceNe] at hch
            exact hspace.head hch
          obtain ⟨rfl, hcolon⟩ := hrun (by rw [← hl]; simp) (hword hw) hhead
          exact .inr ⟨hcolon, .inr ⟨_, rfl, .inr hmodifier⟩⟩

/-- A statement that is spelled starts with a line feed, if with a blank. -/
lemma Body.head (h : Body arch l kind) : ∃ ch t, l = ch :: t ∧ (isBlank ch = true → ch = '\n') := by
  cases h with
  | blank hch =>
      rcases hch with rfl | rfl
      · exact ⟨_, _, rfl, fun _ => rfl⟩
      · exact ⟨_, _, rfl, by decide⟩
  | comment hlead =>
      rcases hlead with ⟨rfl, -⟩ | ⟨rfl, -⟩
      all_goals exact ⟨_, _, rfl, by decide⟩
  | @label name hname =>
      cases name with
      | nil => exact hname.elim
      | cons ch name =>
          have hch := not_isBlank_of_isSymbolChar (hname.forall_mem ch List.mem_cons_self)
          exact ⟨ch, _, rfl, fun hblank => (hch hblank).elim⟩
  | directive => exact ⟨_, _, rfl, by decide⟩
  | instruction hwords =>
      obtain ⟨ch, w, rfl, halpha⟩ := hwords.exists_cons
      have hch := not_isBlank_of_isAlphanum (isAlphanum_of_isAlpha halpha)
      exact ⟨ch, _, rfl, fun hblank => (hch hblank).elim⟩

/-- Blanks in front of a name are the spacing in front of it. -/
lemma Spacing.eq_of_blanks {gap x y : List Char} (h : Spacing gap) (heq : gap ++ x = lead ++ y)
    (hlead : ∀ ch ∈ lead, isBlank ch = true ∧ ch ≠ '\n')
    (hx : ∀ ch, x.head? = some ch → isBlank ch = true → ch = '\n')
    (hy : ∃ ch t, y = ch :: t ∧ isSymbolChar ch = true) : gap = lead ∧ x = y := by
  obtain ⟨d, t, rfl, hd⟩ := hy
  -- neither of the two has a comment, and what follows starts with no blank
  induction h generalizing lead with
  | nil =>
      cases lead with
      | nil => exact ⟨rfl, heq⟩
      | cons ch lead =>
          obtain ⟨hblank, hline⟩ := hlead ch List.mem_cons_self
          rw [List.nil_append] at heq
          exact absurd (hx ch (by rw [heq]; rfl) hblank) hline
  | @blank c gap hc _ ih =>
      cases lead with
      | nil =>
          obtain rfl := (List.cons.inj heq).1
          simp only [Cursor.isSpace, Bool.or_eq_true, beq_iff_eq] at hc
          rcases hc with ((rfl | rfl) | rfl) | rfl <;> exact absurd hd (by decide)
      | cons ch lead =>
          obtain ⟨rfl, htail⟩ := List.cons.inj heq
          obtain ⟨rfl, rfl⟩ := ih (fun e he => hlead e (List.mem_cons_of_mem _ he)) htail
          exact ⟨rfl, rfl⟩
  | comment =>
      cases lead with
      | nil =>
          obtain rfl := (List.cons.inj heq).1
          exact absurd hd (by decide)
      | cons ch lead =>
          obtain rfl := (List.cons.inj heq).1
          exact absurd (hlead _ List.mem_cons_self).1 (by decide)

namespace Statement

open Cursor

/-- What a statement is that starts with a name, after blanks. -/
lemma Shape.of_run (h : Shape arch l kind) (hl : l ++ r = lead ++ (name ++ rest))
    (hlead : ∀ ch ∈ lead, isBlank ch = true ∧ ch ≠ '\n') (hne : name ≠ [])
    (hname : ∀ ch ∈ name, isSymbolChar ch = true)
    (hrest : ∀ ch, rest.head? = some ch → isSymbolChar ch = false) :
    (∃ label, kind = .label label ∧ l = lead ++ (name ++ [':'])) ∨
      rest.head? ≠ some ':' ∧ (name.head? = some '.' ∨ ∃ i, kind = .instruction i ∧
        (i.modifiers = [] ∧ i.mnemonic = String.ofList name ∨
          (String.ofList name).toLower ∈ modifierWords)) := by
  obtain ⟨gap, body, hgap, hbody, rfl⟩ := h
  rw [List.append_assoc] at hl
  have hhead : ∀ ch, (body ++ r).head? = some ch → isBlank ch = true → ch = '\n' := by
    obtain ⟨ch, t, rfl, hch⟩ := hbody.head
    rintro d ⟨⟩
    exact hch
  have hfirst : ∃ ch t, name ++ rest = ch :: t ∧ isSymbolChar ch = true := by
    obtain ⟨ch, t, rfl⟩ := List.exists_cons_of_ne_nil hne
    exact ⟨ch, _, rfl, hname ch List.mem_cons_self⟩
  obtain ⟨rfl, hbodyRest⟩ := hgap.eq_of_blanks hl hlead hhead hfirst
  refine (hbody.of_run hbodyRest hne hname hrest).imp_left ?_
  rintro ⟨label, hkind, rfl⟩
  exact ⟨label, hkind, rfl⟩

variable {w tail : List Char} {c : Cursor Char} {statements : List Statement}

/-- Where a text starts with a word that tells an architecture, an instruction is read. -/
lemma exists_of_word (h : Listed arch c statements) (hc : c.rest = lead ++ (w ++ tail))
    (hlead : ∀ ch ∈ lead, isBlank ch = true ∧ ch ≠ '\n') (hw : String.ofList w ∈ arch.telling)
    (htail : ∀ ch, tail.head? = some ch → isBlank ch = true) :
    ∃ s others i, statements = s :: others ∧ s.kind = .instruction i ∧ i.modifiers = [] ∧
      i.mnemonic ∈ arch.telling := by
  obtain ⟨hne, hname, hdot, hmodifier⟩ := Arch.telling_word hw
  rw [String.toList_ofList] at hne hname hdot
  have hstop {x : List Char} (hx : ∀ ch, x.head? = some ch → isBlank ch = true) (ch : Char)
      (hch : x.head? = some ch) : isSymbolChar ch = false := by
    cases hsymbol : isSymbolChar ch with
    | false => rfl
    | true => exact absurd (hx ch hch) (not_isBlank_of_isSymbolChar hsymbol)
  cases h with
  | nil hnil => simp [hnil, hne] at hc
  | @cons _ d s others _ hs _ =>
      -- what is read starts with the word, also if the text ends without a line feed
      obtain ⟨l, r, x, hshape, hl, hx⟩ : ∃ l r x, Shape arch l s.kind ∧
          l ++ r = lead ++ (w ++ x) ∧ ∀ ch, x.head? = some ch → isBlank ch = true := by
        have htext := (between_of_ofCursor hs).rest.symm.trans hc
        rcases shape_of_ofCursor hs with hshape | ⟨hnil, -, hshape⟩
        · exact ⟨_, _, tail, hshape, htext, htail⟩
        · rw [hnil, List.append_nil] at htext
          refine ⟨_, [], tail ++ ['\n'], hshape, by rw [htext]; simp, fun ch hch => ?_⟩
          cases tail with
          | nil =>
              cases hch
              decide
          | cons d tail => exact htail ch hch
      -- it is no label, no directive and no modifier, so that it is a mnemonic
      rcases hshape.of_run hl hlead hne hname (hstop hx) with ⟨label, -, rfl⟩ | ⟨-, hkind⟩
      · have hcolon : x.head? = some ':' := by
          have hx' : ':' :: r = x := by simpa using hl
          rw [← hx']
          rfl
        exact absurd (hx _ hcolon) (by decide)
      · rcases hkind with hpoint | ⟨i, hkind, ⟨hnone, hmnemonic⟩ | hword⟩
        · exact absurd hpoint hdot
        · exact ⟨s, others, i, rfl, hkind, hnone, hmnemonic ▸ hw⟩
        · exact absurd hword hmodifier

/-- Where a text starts with a name and a colon, a label is read. -/
lemma exists_of_label (h : Listed arch c statements)
    (hc : c.rest = lead ++ (name ++ ':' :: tail))
    (hlead : ∀ ch ∈ lead, isBlank ch = true ∧ ch ≠ '\n') (hne : name ≠ [])
    (hname : ∀ ch ∈ name, isSymbolChar ch = true) :
    ∃ s others d label, statements = s :: others ∧ s.kind = .label label ∧
      s.text.toList = lead ++ (name ++ [':']) ∧ Listed arch d others ∧ d.rest = tail := by
  have hstop : ∀ x ch, (':' :: x).head? = some ch → isSymbolChar ch = false := by
    rintro x ch ⟨⟩
    decide
  cases h with
  | nil hnil => simp [hnil] at hc
  | @cons _ d s others _ hs hothers =>
      have htext := (between_of_ofCursor hs).rest.symm.trans hc
      rcases shape_of_ofCursor hs with hshape | ⟨hnil, -, hshape⟩
      · rcases hshape.of_run htext hlead hne hname (hstop _) with ⟨label, hkind, hs'⟩ | ⟨hcolon, -⟩
        · refine ⟨s, others, d, label, rfl, hkind, hs', hothers, ?_⟩
          simpa [hs'] using htext
        · exact absurd rfl hcolon
      · rw [hnil, List.append_nil] at htext
        have hline : s.text.toList ++ ['\n'] ++ [] = lead ++ (name ++ ':' :: (tail ++ ['\n'])) := by
          rw [htext]
          simp
        rcases hshape.of_run hline hlead hne hname (hstop _) with ⟨label, -, hs'⟩ | ⟨hcolon, -⟩
        · -- the label would end in the line feed that the text does not have
          have hlast := congrArg List.getLast? hs'
          rw [← List.append_assoc, List.getLast?_concat, List.getLast?_concat] at hlast
          cases hlast
        · exact absurd rfl hcolon

/-! ### Detection -/

/-- The statements from a line on start on this line with an instruction whose mnemonic tells an
architecture, after a label if there is one. -/
def TellsFrom (arch : Arch) (line : List Char) (statements : List Statement) : Prop :=
  ∃ labels s others i, statements = labels ++ s :: others ∧
    (∀ t ∈ labels, ∃ label, t.kind = .label label) ∧
    labels.flatMap (·.text.toList) <+: line ∧
    s.kind = .instruction i ∧ i.modifiers = [] ∧ i.mnemonic ∈ arch.telling

/-- A line that tells an architecture, where a statement starts. -/
lemma tellsFrom_of_ofLine {line after : List Char} (h : Listed arch c statements)
    (hc : c.rest = line ++ after) (hline : '\n' ∉ line)
    (hafter : ∀ ch, after.head? = some ch → ch = '\n') (htells : Arch.ofLine line = some arch) :
    TellsFrom arch line statements := by
  obtain ⟨w, tail, hled, hw, htail⟩ := Arch.exists_of_ofLine htells
  -- behind the word stands a blank, or the end of the line
  have hend : ∀ ch, (tail ++ after).head? = some ch → isBlank ch = true := by
    intro ch hch
    cases tail with
    | nil =>
        obtain rfl := hafter ch hch
        decide
    | cons d tail => exact htail ch hch
  have hblank {l : List Char} (hl : ∀ ch ∈ l, isBlank ch = true) (hsub : l ⊆ line) :
      ∀ ch ∈ l, isBlank ch = true ∧ ch ≠ '\n' := by
    refine fun ch hch => ⟨hl ch hch, ?_⟩
    rintro rfl
    exact hline (hsub hch)
  -- the word starts the statement, or the one behind a label
  generalize hx : w ++ tail = x at hled
  cases hled with
  | @word lead _ hlead =>
      subst hx
      rw [List.append_assoc, List.append_assoc] at hc
      obtain ⟨s, others, i, rfl, hkind, hnone, hmnemonic⟩ :=
        exists_of_word h hc (hblank hlead (List.subset_append_left _ _)) hw hend
      exact ⟨[], s, others, i, rfl, nofun, List.nil_prefix, hkind, hnone, hmnemonic⟩
  | @label lead name gap _ hlead hne hname hgap =>
      subst hx
      have hc' : c.rest = lead ++ (name ++ ':' :: (gap ++ (w ++ (tail ++ after)))) := by
        rw [hc]
        simp
      obtain ⟨t, others, d, label, rfl, hlabel, ht, hothers, hd⟩ :=
        exists_of_label h hc' (hblank hlead (List.subset_append_left _ _)) hne hname
      obtain ⟨s, others, i, rfl, hkind, hnone, hmnemonic⟩ :=
        exists_of_word hothers hd (hblank hgap fun ch hch => by simp [hch]) hw hend
      refine ⟨[t], s, others, i, rfl, ?_, ⟨gap ++ (w ++ tail), ?_⟩, hkind, hnone, hmnemonic⟩
      · exact fun u hu => ⟨label, List.mem_singleton.mp hu ▸ hlabel⟩
      · simp [ht]

/-- The first line that tells an architecture has an instruction whose mnemonic does, or it starts
within a statement: in a comment that is open, or after a backslash.  Nothing else that stands in
comments, strings or directives tells an architecture. -/
theorem detect_sound {text : String} (hd : Arch.detect text = some arch)
    (hp : parse arch text = .ok statements) :
    ∃ before line after, Arch.FirstTelling arch text.toList before line after ∧
      ((∃ done others, statements = done ++ others ∧ done.flatMap (·.text.toList) = before ∧
          TellsFrom arch line others) ∨
        ∃ done s others a b, statements = done ++ s :: others ∧ s.text.toList = a ++ b ∧ b ≠ [] ∧
          done.flatMap (·.text.toList) ++ a = before ∧ Unfinished a) := by
  obtain ⟨before, line, after, hfirst⟩ := Arch.exists_firstTelling hd
  refine ⟨before, line, after, hfirst, ?_⟩
  have hne : line ++ after ≠ [] := by
    intro hnil
    have htells := hfirst.tells
    rw [(List.append_eq_nil_iff.mp hnil).1] at htells
    exact absurd htells (by cases arch <;> decide +kernel)
  have hrest : (Cursor.ofString text : Cursor Char).rest = before ++ (line ++ after) := hfirst.text
  rcases exists_of_listed_append (parse_eq_ok_iff.mp hp) hrest hne with
    ⟨done, others, d, rfl, hdone, hothers, hd'⟩ |
      ⟨done, s, others, a, b, rfl, hs, ha, hb, rfl, hgoes⟩
  · exact .inl ⟨done, others, rfl, hdone,
      tellsFrom_of_ofLine hothers hd' hfirst.newline_notMem hfirst.ends hfirst.tells⟩
  · refine .inr ⟨done, s, others, a, b, rfl, hs, hb, rfl, hgoes a b hs hb ?_⟩
    have hstarts := hfirst.starts.resolve_left fun hnil => ha (List.append_eq_nil_iff.mp hnil).2
    rwa [List.getLast?_append_of_ne_nil _ ha] at hstarts

/-- A comment before a directive, and an instruction after a label. -/
theorem detect_sound_label : ∃ text statements, text = "/* ldr */ .text\na:\tmovq b, %rax\n" ∧
    Arch.detect text = some .x86_64 ∧ parse .x86_64 text = .ok statements ∧
      ∃ before line after, Arch.FirstTelling .x86_64 text.toList before line after ∧
        ((∃ done others, statements = done ++ others ∧ done.flatMap (·.text.toList) = before ∧
            TellsFrom .x86_64 line others) ∨
          ∃ done s others a b, statements = done ++ s :: others ∧ s.text.toList = a ++ b ∧ b ≠ [] ∧
            done.flatMap (·.text.toList) ++ a = before ∧ Unfinished a) := by
  have htells : Arch.detect "/* ldr */ .text\na:\tmovq b, %rax\n" = some .x86_64 := by
    decide +kernel
  have hok : (parse .x86_64 "/* ldr */ .text\na:\tmovq b, %rax\n").isOk = true := by
    decide +kernel
  cases h : parse .x86_64 "/* ldr */ .text\na:\tmovq b, %rax\n" with
  | error e =>
      rw [h] at hok
      cases hok
  | ok statements => exact ⟨_, statements, rfl, htells, h, detect_sound htells h⟩

/-- A line in a comment tells an architecture to which the text has no instruction. -/
theorem exists_detect_in_comment : ∃ text statements, text = "/*\nmovq\n*/\n" ∧
    Arch.detect text = some .x86_64 ∧ parse .x86_64 text = .ok statements ∧
      ∀ s ∈ statements, ∀ i, s.kind ≠ .instruction i := by
  have hkinds : (parse .x86_64 "/*\nmovq\n*/\n").toOption.map (·.map Statement.kind) =
      some [.blank] := by decide +kernel
  cases h : parse .x86_64 "/*\nmovq\n*/\n" with
  | error e =>
      rw [h] at hkinds
      cases hkinds
  | ok statements =>
      rw [h] at hkinds
      have hblank : statements.map Statement.kind = [.blank] := Option.some.inj hkinds
      refine ⟨_, statements, rfl, by decide +kernel, h, fun s hs i hkind => ?_⟩
      have hmem : s.kind ∈ statements.map Statement.kind := List.mem_map_of_mem hs
      rw [hblank, hkind] at hmem
      simp at hmem

end Statement

end Hermetic

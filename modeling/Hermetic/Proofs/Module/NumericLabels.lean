/-
The numeric labels of a module, which are found by their place.

A reference to a numeric label goes to the nearest label of its number, after it or before it.  The
output has labels of its own between those of the source, so that what is nearest could change.

* `Mark.tagged`, `Mark.nearest`: the marks of some statements in a row, and the rule by which a
  reference finds its label, with `Mark.nearest_eq_some_iff`;
* `KeepsAll`, `Resolves`, `KeepsAll.resolves`: where what is written for statements has their marks,
  the references go to the same statements;
* `Statement.readsMarks_emission`: what is written for a statement is read with its marks;
* `sealed_numericLabels`: the references of a module to numeric labels go to the same labels, except
  those with the number that is put in;
* `exists_reference_captured`: why that number is an exception.
-/
import Hermetic.Proofs.Module.LocalNames
import Hermetic.Proofs.Module.Separate
import Hermetic.Proofs.Sealing.Numeric
import Hermetic.Proofs.Statement.LastLine

namespace Hermetic

open Statement (Kind)

/-! ### The nearest label -/

namespace Mark

/-- The marks of some statements, each with the number of its statement, where the first statement
has a given one. -/
def tagged (first : ℕ) : List (List Mark) → List (ℕ × Mark)
  | [] => []
  | marks :: rest => marks.map (first, ·) ++ tagged (first + 1) rest

/-- The statement that has the nearest label of a number, behind a place or before it. -/
def nearest (before after : List (ℕ × Mark)) (number : List Char) (forward : Bool) : Option ℕ :=
  ((if forward then after else before.reverse).find? (·.2 = .label number)).map Prod.fst

/-- Whether a statement stands behind another, or before it. -/
def Beyond (forward : Bool) (i j : ℕ) : Prop :=
  if forward then i < j else j < i

lemma mem_tagged {first k : ℕ} {lists : List (List Mark)} {mark : Mark} :
    (k, mark) ∈ tagged first lists ↔
      ∃ i marks, lists[i]? = some marks ∧ mark ∈ marks ∧ k = first + i := by
  induction lists generalizing first with
  | nil => simp [tagged]
  | cons marks lists ih =>
      rw [tagged, List.mem_append, ih]
      constructor
      · rintro (h | ⟨i, marks, hi, hmark, rfl⟩)
        · obtain ⟨mark, hmark, heq⟩ := List.mem_map.mp h
          cases heq
          exact ⟨0, marks, rfl, hmark, rfl⟩
        · exact ⟨i + 1, marks, hi, hmark, by omega⟩
      · rintro ⟨i, own, hi, hmark, rfl⟩
        cases i with
        | zero =>
            cases hi
            exact .inl (List.mem_map_of_mem hmark)
        | succ i => exact .inr ⟨i, own, hi, hmark, by omega⟩

/-- The numbers of the statements do not decrease. -/
lemma pairwise_tagged (first : ℕ) (lists : List (List Mark)) :
    (tagged first lists).Pairwise (·.1 ≤ ·.1) := by
  induction lists generalizing first with
  | nil => exact .nil
  | cons marks lists ih =>
      refine List.pairwise_append.mpr ⟨?_, ih _, fun a ha b hb => ?_⟩
      · exact List.pairwise_map.mpr (List.pairwise_of_forall fun _ _ => le_refl first)
      · obtain ⟨mark, -, rfl⟩ := List.mem_map.mp ha
        obtain ⟨i, own, -, -, hi⟩ := mem_tagged.mp (show (b.1, b.2) ∈ _ from hb)
        change first ≤ b.1
        omega

section Nearest

variable {before after : List (ℕ × Mark)} {number : List Char} {forward : Bool} {i j : ℕ}
variable {mark : Mark}

/-- The first label of a number in a list is the one with the least number of a statement, or with
the greatest. -/
lemma find?_label_eq_some_iff {side : List (ℕ × Mark)}
    (h : side.Pairwise fun a b => ¬ Beyond forward b.1 a.1) :
    (side.find? (·.2 = .label number)).map Prod.fst = some j ↔
      (j, .label number) ∈ side ∧
        ∀ k, (k, .label number) ∈ side → ¬ Beyond forward k j := by
  induction side with
  | nil => simp
  | cons a side ih =>
      obtain ⟨hfirst, hrest⟩ := List.pairwise_cons.mp h
      obtain ⟨k, mark⟩ := a
      -- the first mark is the label, or is not looked for
      by_cases hmark : mark = .label number
      · subst hmark
        rw [List.find?_cons_of_pos (by simp), Option.map_some, Option.some_inj]
        constructor
        · rintro rfl
          refine ⟨List.mem_cons_self, fun l hl => ?_⟩
          rcases List.mem_cons.mp hl with heq | hl
          · cases heq
            cases forward <;> simp [Beyond]
          · exact hfirst _ hl
        · rintro ⟨hmem, hleast⟩
          have hle := hleast k List.mem_cons_self
          rcases List.mem_cons.mp hmem with heq | hmem
          · cases heq
            rfl
          · have hge := hfirst _ hmem
            cases forward with
            | true => exact le_antisymm (Nat.le_of_not_lt hge) (Nat.le_of_not_lt hle)
            | false => exact le_antisymm (Nat.le_of_not_lt hle) (Nat.le_of_not_lt hge)
      · have hne {l : ℕ} : (l, Mark.label number) = (k, mark) ↔ False :=
          ⟨fun heq => hmark (congrArg Prod.snd heq).symm, False.elim⟩
        rw [List.find?_cons_of_neg (by simpa using hmark), ih hrest]
        simp only [List.mem_cons, hne, false_or]

/-- The nearest label behind a reference, or before it, if the statement of the reference has no
such label itself. -/
lemma nearest_eq_some_iff (h : (before ++ (i, mark) :: after).Pairwise (·.1 ≤ ·.1))
    (hown : (i, .label number) ∉ before ++ (i, mark) :: after) :
    nearest before after number forward = some j ↔
      (j, .label number) ∈ before ++ (i, mark) :: after ∧ Beyond forward i j ∧
        ∀ k, (k, .label number) ∈ before ++ (i, mark) :: after → Beyond forward i k →
          ¬ Beyond forward k j := by
  obtain ⟨hbefore, hafter, hacross⟩ := List.pairwise_append.mp h
  obtain ⟨hfirst, hafter⟩ := List.pairwise_cons.mp hafter
  -- numbers of statements do not fall, so that each side has what lies beyond the reference
  have hside {k : ℕ} : (k, .label number) ∈ (if forward then after else before.reverse) ↔
      (k, .label number) ∈ before ++ (i, mark) :: after ∧ Beyond forward i k := by
    rw [List.mem_append, List.mem_cons] at hown
    rw [List.mem_append, List.mem_cons]
    constructor
    · intro hk
      cases forward with
      | true =>
          refine ⟨.inr (.inr hk), lt_of_le_of_ne (hfirst _ hk) ?_⟩
          rintro rfl
          exact hown (.inr (.inr hk))
      | false =>
          have hk := List.mem_reverse.mp hk
          refine ⟨.inl hk, lt_of_le_of_ne (hacross _ hk _ List.mem_cons_self) ?_⟩
          rintro rfl
          exact hown (.inl hk)
    · rintro ⟨hk | hk | hk, hbeyond⟩
      · cases forward with
        | true => exact absurd (hacross _ hk _ List.mem_cons_self) (Nat.not_le_of_lt hbeyond)
        | false => exact List.mem_reverse.mpr hk
      · cases hk
        exact (hown (.inr (.inl rfl))).elim
      · cases forward with
        | true => exact hk
        | false => exact absurd (hfirst _ hk) (Nat.not_le_of_lt hbeyond)
  -- either side starts with the nearest mark
  have hsorted : (if forward then after else before.reverse).Pairwise
      fun a b => ¬ Beyond forward b.1 a.1 := by
    cases forward with
    | true => exact hafter.imp fun hle => Nat.not_lt_of_le hle
    | false => exact List.pairwise_reverse.mpr (hbefore.imp fun hle => Nat.not_lt_of_le hle)
  rw [nearest, find?_label_eq_some_iff hsorted, hside, and_assoc]
  simp only [hside, and_imp]

end Nearest

end Mark

/-! ### Statements in a row -/

open Mark (tagged nearest Beyond)

/-- What is written for statements has their marks, where the first statement has a given number. -/
def KeepsAll (first : ℕ) (statements : List Statement) (emissions : List Emission) : Prop :=
  ∀ i s, statements[i]? = some s → ∃ e, emissions[first + i]? = some e ∧ s.KeepsMarks e

section Kept

variable {first i j k : ℕ} {statements : List Statement} {emissions : List Emission}
variable {number other : List Char} {forward : Bool} {mark : Mark}

/-- The marks of statements. -/
def marksRead (first : ℕ) (statements : List Statement) : List (ℕ × Mark) :=
  tagged first (statements.map (·.kind.marks))

/-- The marks of what is written for statements. -/
def marksWritten (emissions : List Emission) : List (ℕ × Mark) :=
  tagged 0 (emissions.map Emission.marks)

lemma mem_marksRead : (k, mark) ∈ marksRead first statements ↔
    ∃ i s, statements[i]? = some s ∧ mark ∈ s.kind.marks ∧ k = first + i := by
  rw [marksRead, Mark.mem_tagged]
  refine exists_congr fun i => ?_
  rw [List.getElem?_map]
  simp only [Option.map_eq_some_iff]
  constructor
  · rintro ⟨-, ⟨s, hs, rfl⟩, hmark, rfl⟩
    exact ⟨s, hs, hmark, rfl⟩
  · rintro ⟨s, hs, hmark, rfl⟩
    exact ⟨_, ⟨s, hs, rfl⟩, hmark, rfl⟩

lemma mem_marksWritten : (k, mark) ∈ marksWritten emissions ↔
    ∃ e, emissions[k]? = some e ∧ mark ∈ e.marks := by
  rw [marksWritten, Mark.mem_tagged]
  constructor
  · rintro ⟨i, marks, hi, hmark, rfl⟩
    rw [List.getElem?_map] at hi
    obtain ⟨e, he, rfl⟩ := Option.map_eq_some_iff.mp hi
    exact ⟨e, by rwa [Nat.zero_add], hmark⟩
  · rintro ⟨e, he, hmark⟩
    exact ⟨k, e.marks, by rw [List.getElem?_map, he, Option.map_some], hmark,
      (Nat.zero_add k).symm⟩

lemma map_snd_marksWritten :
    (marksWritten emissions).map Prod.snd = emissions.flatMap Emission.marks := by
  have htagged (first : ℕ) (lists : List (List Mark)) :
      (tagged first lists).map Prod.snd = lists.flatten := by
    induction lists generalizing first with
    | nil => rfl
    | cons marks lists ih =>
        rw [tagged, List.map_append, ih, List.flatten_cons, List.map_map]
        exact congrArg (· ++ lists.flatten) (List.map_id _)
  rw [marksWritten, htagged, List.flatMap_def]

lemma lt_of_mem_marksRead (h : (k, mark) ∈ marksRead first statements) :
    first ≤ k ∧ k < first + statements.length := by
  obtain ⟨i, s, hs, -, rfl⟩ := mem_marksRead.mp h
  obtain ⟨hi, -⟩ := List.getElem?_eq_some_iff.mp hs
  omega

namespace KeepsAll

variable (h : KeepsAll first statements emissions)

include h

lemma mem_marksWritten (hmark : (k, mark) ∈ marksRead first statements) :
    (k, mark) ∈ marksWritten emissions := by
  obtain ⟨i, s, hs, hown, rfl⟩ := mem_marksRead.mp hmark
  obtain ⟨e, he, hkeeps⟩ := h i s hs
  exact Hermetic.mem_marksWritten.mpr ⟨e, he, hkeeps.mem _ hown⟩

/-- A statement that refers to a label is written without labels. -/
lemma label_notMem (hmark : (k, .reference number forward) ∈ marksRead first statements) :
    (k, .label other) ∉ marksWritten emissions := by
  intro hlabel
  obtain ⟨i, s, hs, hown, rfl⟩ := mem_marksRead.mp hmark
  obtain ⟨e, he, hkeeps⟩ := h i s hs
  obtain ⟨e', he', hwritten⟩ := Hermetic.mem_marksWritten.mp hlabel
  obtain rfl : e = e' := Option.some.inj (he.symm.trans he')
  exact hkeeps.apart hown hwritten

/-- A label that is written for one of the statements is its own, or it is put in. -/
lemma mem_or_skipsLoad (hlabel : (k, .label number) ∈ marksWritten emissions) (hle : first ≤ k)
    (hlt : k < first + statements.length) : (k, .label number) ∈ marksRead first statements ∨
      number = skipNumber ∧ ∃ i s, statements[i]? = some s ∧ k = first + i ∧ s.SkipsLoad := by
  obtain ⟨i, rfl⟩ := Nat.exists_eq_add_of_le hle
  have hi : i < statements.length := by omega
  obtain ⟨e, he, hkeeps⟩ := h i _ (List.getElem?_eq_getElem hi)
  obtain ⟨e', he', hwritten⟩ := Hermetic.mem_marksWritten.mp hlabel
  obtain rfl : e = e' := Option.some.inj (he.symm.trans he')
  rcases hkeeps.own hwritten with hown | ⟨hnumber, hskips⟩
  · exact .inl (mem_marksRead.mpr ⟨i, _, List.getElem?_eq_getElem hi, hown, rfl⟩)
  · exact .inr ⟨hnumber, i, _, List.getElem?_eq_getElem hi, rfl, hskips⟩

end KeepsAll

/-- Whether the references of a statement to a number are there and go to a statement. -/
def Resolves (marks : List (ℕ × Mark)) (i : ℕ) (number : List Char) (forward : Bool) (j : ℕ) :
    Prop :=
  (i, .reference number forward) ∈ marks ∧
    ∀ before after, marks = before ++ (i, .reference number forward) :: after →
      nearest before after number forward = some j

/-- A reference goes to the same statement in what is written, unless its number is the one that is
put in and a label with this number is put in on the way. -/
lemma KeepsAll.resolves (h : KeepsAll first statements emissions)
    {before after : List (ℕ × Mark)}
    (hread : marksRead first statements = before ++ (i, .reference number forward) :: after)
    (hnearest : nearest before after number forward = some j)
    (hskips : number = skipNumber → ∀ k s, statements[k]? = some s →
      Beyond forward i (first + k) → Beyond forward (first + k) j → ¬ s.SkipsLoad) :
    Resolves (marksWritten emissions) i number forward j := by
  have hreference : (i, .reference number forward) ∈ marksRead first statements :=
    hread ▸ List.mem_append_right _ List.mem_cons_self
  have hsorted : (marksRead first statements).Pairwise (·.1 ≤ ·.1) := Mark.pairwise_tagged ..
  have hown : (i, .label number) ∉ marksRead first statements :=
    fun hlabel => h.label_notMem hreference (h.mem_marksWritten hlabel)
  rw [hread] at hsorted hown
  obtain ⟨hlabel, hbeyond, hleast⟩ := (Mark.nearest_eq_some_iff hsorted hown).mp hnearest
  rw [← hread] at hlabel hleast
  refine ⟨h.mem_marksWritten hreference, fun before' after' hwritten => ?_⟩
  have hsorted' : (marksWritten emissions).Pairwise (·.1 ≤ ·.1) := Mark.pairwise_tagged ..
  have hown' : (i, .label number) ∉ marksWritten emissions := h.label_notMem hreference
  rw [hwritten] at hsorted' hown'
  refine (Mark.nearest_eq_some_iff hsorted' hown').mpr
    ⟨hwritten ▸ h.mem_marksWritten hlabel, hbeyond, fun k hk hik hkj => ?_⟩
  -- what lies between two statements of the file belongs to the file
  rw [← hwritten] at hk
  obtain ⟨hi, hi'⟩ := lt_of_mem_marksRead hreference
  obtain ⟨hj, hj'⟩ := lt_of_mem_marksRead hlabel
  have hk' : first ≤ k ∧ k < first + statements.length := by
    cases forward with
    | true => exact ⟨hi.trans (le_of_lt hik), lt_trans hkj hj'⟩
    | false => exact ⟨hj.trans (le_of_lt hkj), lt_trans hik hi'⟩
  rcases h.mem_or_skipsLoad hk hk'.1 hk'.2 with hmem | ⟨hnumber, k₀, s, hs, rfl, hskip⟩
  · exact hleast k hmem hik hkj
  · exact hskips hnumber k₀ s hs hik hkj hskip

end Kept

/-! ### What is read of what is written -/

/-- The marks of a piece, as its text is read. -/
def Chunk.textMarks : Chunk → List Mark
  | .copied text => Statement.textMarks .x86_64 text
  | .quoted _ => []
  | .line l => Statement.textMarks .x86_64 l.text
  | .openLabel name => Statement.textMarks .x86_64 ("\n" ++ name ++ ":")

lemma Chunk.Adds.flatMap_marks {c : Chunk} {kinds : List Kind} (h : c.Adds .x86_64 kinds)
    (hquoted : c.isQuoted = false) : kinds.flatMap Kind.marks = c.textMarks := by
  obtain ⟨t, ht, hsays⟩ := h {}
  rw [← Statement.textMarks_eq_flatMap hsays]
  cases c with
  | quoted => cases hquoted
  | copied | line | openLabel =>
      rw [(String.append_right_inj _).mp ht.symm]
      rfl

/-- The statements that are read of some pieces have the marks of the pieces. -/
lemma Writes.flatMap_marks {chunks : List Chunk} {kinds : List Kind}
    (h : Writes .x86_64 chunks kinds) :
    kinds.flatMap Kind.marks = chunks.flatMap Chunk.textMarks := by
  induction h with
  | nil => rfl
  | quoted _ ih => rw [ih]; rfl
  | cons hquoted hc _ ih =>
      rw [List.flatMap_append, List.flatMap_cons, hc.flatMap_marks hquoted, ih]

namespace Statement

variable {scope : Scope} {s : Statement} {e : Emission}

lemma textMarks_of_parse {arch : Arch} {text : String} {statements : List Statement}
    (h : parse arch text = .ok statements) :
    textMarks arch text = statements.flatMap (·.kind.marks) := by
  obtain ⟨statements', hparse, hadded⟩ := exists_parse_line h
  have hmap := hadded.map_eq (f := (·.kind.marks)) fun s t hkind => congrArg Kind.marks hkind
  rw [textMarks, hparse]
  dsimp only
  rw [List.flatMap_def, List.flatMap_def]
  rcases hmap with hmap | ⟨t, ht, hmap⟩
  · rw [hmap]
  · rw [hmap, ht, List.flatten_append]
    exact List.append_nil _

/-- The lines in the place of a directive are read without marks. -/
lemma FollowsNames.textMarks {kind : Kind} {chunks : List Chunk} {line : Line}
    (h : s.FollowsNames .x86_64 scope kind chunks) (hline : .line line ∈ chunks) :
    Statement.textMarks .x86_64 line.text = [] := by
  have hparse {line : Line} {t : Statement} (h : parse .x86_64 line.text = .ok [t])
      (hmarks : t.kind.marks = []) : Statement.textMarks .x86_64 line.text = [] := by
    rw [textMarks_of_parse h, List.flatMap_singleton, hmarks]
  have hbecomes {kind : Kind} {chunks : List Chunk} (h : Becomes .x86_64 s kind chunks)
      (hkind : kind.marks = []) (hline : .line line ∈ chunks) :
      Statement.textMarks .x86_64 line.text = [] := by
    cases h with
    | copied => cases List.mem_singleton.mp hline
    | line h ht =>
        obtain rfl : line = _ := by simpa using hline
        exact hparse h (ht ▸ hkind)
  cases h with
  | visibility | lineInfo | commonCopied | other => cases List.mem_singleton.mp hline
  | data h => exact hbecomes h rfl hline
  | binding _ h => exact hbecomes h rfl hline
  | «alias» _ h halias ht =>
      rcases List.mem_append.mp hline with hline | hline
      · exact hbecomes h rfl hline
      · cases List.mem_singleton.mp hline
        exact hparse halias (by rw [ht]; rfl)
  | common _ _ h => exact hbecomes h rfl hline
  | code =>
      obtain rfl : line = .plain ".text" [] := by simpa using hline
      decide +kernel

/-- A piece whose text is read with its marks. -/
def ReadsMarks (c : Chunk) : Prop :=
  c.textMarks = c.marks

lemma readsMarks_copy : ∀ c ∈ (Emission.copy s).chunks, ReadsMarks c :=
  List.forall_mem_singleton.mpr rfl

/-- The conditions under which the lines in the place of an instruction are read. -/
def IsLegible (scope : Scope) (s : Statement) : Prop :=
  ∀ insn, s.kind = .instruction insn → ¬ X86.FillsNumbered scope insn ∧
    (X86.HidesMnemonic insn → X86.sealInstruction scope s insn = .ok (.copy s))

lemma readsMarks_sealInstruction {insn : Instruction} (hkind : s.kind = .instruction insn)
    (hinsn : X86.IsInstruction insn) (hwritten : IsLegible scope s)
    (h : X86.sealInstruction scope s insn = .ok e) : ∀ c ∈ e.chunks, ReadsMarks c := by
  obtain ⟨hfills, hhides⟩ := hwritten insn hkind
  obtain ⟨changes, hsealed, ⟨-, rfl⟩ | ⟨-, rfl⟩⟩ := X86.sealInstruction_eq_ok h
  · exact readsMarks_copy
  · have hlines := X86.readable_changedLines hinsn hsealed hfills
      fun hmem => by cases h.symm.trans (hhides hmem)
    refine List.forall_mem_cons.mpr ⟨rfl, List.forall_mem_map.mpr fun line hline => ?_⟩
    obtain ⟨kinds, hsays, hmarks⟩ := hlines line hline
    exact (textMarks_eq_flatMap hsays).trans hmarks

/-- What is written for a label is read with its marks. -/
lemma readsMarks_label {label : Label} {inBss : Bool} (hkind : s.kind = .label label)
    (hshape : Shape .x86_64 s.text.toList (.label label))
    (h : s.emission .x86_64 scope inBss = .ok e) : ∀ c ∈ e.chunks, ReadsMarks c := by
  cases label with
  -- a public label stands as it is, and its alias is no numeric label
  | symbol name =>
      have hname := isName_of_shape_label hshape
      unfold emission at h
      rw [hkind] at h
      cases inBss with
      | true =>
          cases h
          refine List.forall_mem_cons.mpr ⟨rfl, List.forall_mem_singleton.mpr ?_⟩
          have hread : (Chunk.openLabel (Symbol.localAlias name)).textMarks = [] :=
            ((adds_openAlias hname).flatMap_marks rfl).symm
          rw [ReadsMarks, hread, Chunk.marks, mark?_labelOf_localAlias]
          rfl
      | false =>
          simp only [sealCode, hkind] at h
          cases h
          refine List.forall_mem_cons.mpr ⟨?_, List.forall_mem_singleton.mpr rfl⟩
          have hread : (Chunk.line (.label (Symbol.localAlias name))).textMarks = [] :=
            ((Chunk.adds_line (says_aliasLine hname)).flatMap_marks rfl).symm
          change _ = (labelOf (Symbol.localAlias name).toList).mark?.toList
          rw [hread, mark?_labelOf_localAlias]
          rfl
  | dotLocal name =>
      rw [emission_of_dotLocal hkind] at h
      cases h
      exact List.forall_mem_singleton.mpr rfl
  | numeric name =>
      unfold emission at h
      rw [hkind] at h
      have hcopy : Emission.copy s = e := by
        cases inBss <;> simpa only [sealCode, hkind, sealLabel, Except.ok.injEq] using h
      exact hcopy ▸ readsMarks_copy

/-- What is written for a statement is read with its marks. -/
lemma readsMarks_emission {text : String} {statements : List Statement} {inBss : Bool}
    (hparse : parse .x86_64 text = .ok statements) (hs : s ∈ statements)
    (hshape : Shape .x86_64 s.text.toList s.kind) (hwritten : IsLegible scope s)
    (h : s.emission .x86_64 scope inBss = .ok e) : ∀ c ∈ e.chunks, ReadsMarks c := by
  cases hkind : s.kind with
  | label label => exact readsMarks_label hkind (hkind ▸ hshape) h
  | instruction insn =>
      exact readsMarks_sealInstruction hkind (X86.isInstruction_of_shape (hkind ▸ hshape)) hwritten
        (sealInstruction_of_emission hkind h).2
  | blank | comment =>
      unfold emission at h
      rw [hkind] at h
      simp only [sealCode, hkind] at h
      cases h
      exact readsMarks_copy
  | visibility | lineInfo | symbolic | binding | directive =>
      have hdirective : s.kind.isDirective = true := by rw [hkind]; rfl
      have hfollows := followsNames_of_emission (directiveIn_of_parse hparse hs hdirective)
        hdirective h
      intro c hc
      rcases isPlainChunk_emission (by simp [hkind]) (by simp [hkind]) h c hc with
        rfl | rfl | ⟨_, _, _, _, rfl⟩
      · rfl
      · rfl
      · exact hfollows.textMarks hc

end Statement

/-! ### Modules -/

section Emissions

variable {arch : Arch} {symbols : SymbolTable} {marker : String} {scope : Scope}

lemma Emits.length_eq {inBss : Bool} {statements : List Statement} {emissions : List Emission}
    (h : Emits arch scope inBss statements emissions) : emissions.length = statements.length := by
  induction h with
  | nil => rfl
  | cons _ _ ih => exact congrArg Nat.succ ih

lemma EmitsAll.length_eq {files : List SourceFile} {emissions : List Emission}
    (h : EmitsAll arch symbols marker files emissions) :
    emissions.length = (files.flatMap (·.statements)).length := by
  induction h with
  | nil => rfl
  | cons hfile _ ih =>
      rw [List.length_append, List.flatMap_cons, List.length_append, hfile.length_eq, ih]

/-- What is written for a statement has its place. -/
lemma Emits.exists_getElem? {inBss : Bool} {statements : List Statement}
    {emissions : List Emission} (h : Emits arch scope inBss statements emissions) {i : ℕ}
    {s : Statement} (hs : statements[i]? = some s) :
    ∃ e, emissions[i]? = some e ∧ ∃ b, s.emission arch scope b = .ok e := by
  induction h generalizing i with
  | nil => cases hs
  | cons he _ ih =>
      cases i with
      | zero =>
          cases hs
          exact ⟨_, rfl, _, he⟩
      | succ i => exact ih hs

end Emissions

namespace CodeModule

variable {m : CodeModule} {r : Sealed} {files : List SourceFile} {symbols : SymbolTable}
variable {emissions : List Emission}

/-- What is written for a file has the marks of the file. -/
lemma SealedFrom.keepsAll (h : SealedFrom m r files symbols emissions) (harch : r.arch = .x86_64)
    {before after : List SourceFile} {file : SourceFile}
    (hfiles : files = before ++ file :: after) :
    KeepsAll (before.flatMap (·.statements)).length file.statements emissions := by
  have hf : file ∈ files := hfiles ▸ List.mem_append_right _ List.mem_cons_self
  obtain ⟨input, -, hparse⟩ := exists_parse_of_readFrom h.read hf
  have hemits := h.emits
  rw [hfiles] at hemits
  obtain ⟨first, rest, hfirst, hrest, rfl⟩ := hemits.exists_of_append
  cases hrest with
  | cons hfile _ =>
      intro i s hs
      obtain ⟨e, he, b, hemission⟩ := hfile.exists_getElem? hs
      obtain ⟨hi, -⟩ := List.getElem?_eq_some_iff.mp he
      refine ⟨e, ?_, ?_⟩
      · rw [List.getElem?_append_right (by rw [hfirst.length_eq]; omega), hfirst.length_eq,
          Nat.add_sub_cancel_left, List.getElem?_append_left hi, he]
      · rw [harch] at hparse hemission
        exact Statement.keepsMarks_of_emission hparse (List.mem_of_getElem? hs) hemission

lemma flatMap_marks_of_alone {kinds : List (List Kind)}
    (h : List.Forall₂ (fun e kinds => liveKinds .x86_64 (Chunk.textAll .x86_64 e.chunks) =
      .ok kinds) emissions kinds)
    (hwrites : ∀ e ∈ emissions, ∃ kinds, Writes .x86_64 e.chunks kinds)
    (hmarks : ∀ e ∈ emissions, ∀ c ∈ e.chunks, Statement.ReadsMarks c) :
    kinds.flatten.flatMap Kind.marks = emissions.flatMap Emission.marks := by
  induction h with
  | nil => rfl
  | @cons e own emissions kinds he _ ih =>
      obtain ⟨own', hown⟩ := hwrites e List.mem_cons_self
      obtain rfl : own' = own := Except.ok.inj ((liveKinds_textAll hown).symm.trans he)
      rw [List.flatten_cons, List.flatMap_append, List.flatMap_cons, hown.flatMap_marks,
        ih (fun f hf => hwrites f (List.mem_cons_of_mem _ hf))
          fun f hf => hmarks f (List.mem_cons_of_mem _ hf)]
      congr 1
      exact List.flatMap_congr fun c hc => hmarks e List.mem_cons_self c hc

/-- The text between the boundaries is read with the marks that are written. -/
lemma SealedFrom.exists_reads (h : SealedFrom m r files symbols emissions)
    (harch : r.arch = .x86_64) (hended : ∀ input ∈ m.inputs, input.IsEnded)
    (hwritten : ∀ file ∈ files, ∀ s ∈ file.statements,
      s.IsLegible ⟨symbols, m.marker, file.index⟩) :
    ∃ body kinds, IsBody m r files body ∧ liveKinds .x86_64 body = .ok kinds ∧
      kinds.flatMap Kind.marks = emissions.flatMap Emission.marks := by
  have hemission {e : Emission} (he : e ∈ emissions) :
      (∃ kinds, Writes .x86_64 e.chunks kinds) ∧ ∀ c ∈ e.chunks, Statement.ReadsMarks c := by
    obtain ⟨file, hf, s, hs, inBss, hemission⟩ := h.emits.exists_of_mem he
    have hshape := h.shape hended hf hs
    obtain ⟨input, -, hparse⟩ := exists_parse_of_readFrom h.read hf
    rw [harch] at hemission hshape hparse
    refine ⟨Statement.exists_writes_emission hshape hemission fun insn hinsn hsealed => ?_,
      Statement.readsMarks_emission hparse hs hshape (hwritten file hf s hs) hemission⟩
    obtain ⟨hfills, hhides⟩ := hwritten file hf s hs insn hinsn
    exact X86.exists_writes_sealInstruction (hinsn ▸ hshape) hsealed hfills fun hmem =>
      Except.ok.inj (hsealed.symm.trans (hhides hmem))
  obtain ⟨body, kinds, hbody, hseparate⟩ := h.exists_separate fun e he => by
    rw [harch]
    exact (hemission he).1
  rw [harch] at hseparate
  exact ⟨body, kinds.flatten, hbody, hseparate.together, flatMap_marks_of_alone hseparate.alone
    (fun e he => (hemission he).1) fun e he => (hemission he).2⟩

/-- Numeric labels keep their meaning: a reference that goes to a label of its file goes to what is
written for that label, unless it is one to the number that is put in behind conditional loads, and
such a load stands between.  That is so of what is written, and of the text, where this is read. -/
theorem sealed_numericLabels (h : m.sealed = .ok r) (harch : r.arch = .x86_64) :
    ∃ files symbols emissions, SealedFrom m r files symbols emissions ∧
      (∀ before file after, files = before ++ file :: after →
        let first := (before.flatMap (·.statements)).length
        ∀ ahead i number forward behind j,
          marksRead first file.statements = ahead ++ (i, .reference number forward) :: behind →
          Mark.nearest ahead behind number forward = some j →
          (number = skipNumber → ∀ k s, file.statements[k]? = some s →
            Mark.Beyond forward i (first + k) → Mark.Beyond forward (first + k) j →
              ¬ s.SkipsLoad) →
          Resolves (marksWritten emissions) i number forward j) ∧
      ((∀ input ∈ m.inputs, input.IsEnded) →
        (∀ file ∈ files, ∀ s ∈ file.statements, s.IsLegible ⟨symbols, m.marker, file.index⟩) →
        ∃ body kinds, IsBody m r files body ∧ liveKinds .x86_64 body = .ok kinds ∧
          kinds.flatMap Kind.marks = (marksWritten emissions).map Prod.snd) := by
  obtain ⟨files, symbols, emissions, hfrom⟩ := exists_sealedFrom h
  refine ⟨files, symbols, emissions, hfrom, ?_, fun hended hwritten => ?_⟩
  · intro before file after hfiles first ahead i number forward behind j hread hnearest hskips
    exact (hfrom.keepsAll harch hfiles).resolves hread hnearest hskips
  · rw [map_snd_marksWritten]
    exact hfrom.exists_reads harch hended hwritten

/-- A jump back, over a load from the offset table. -/
theorem sealed_numericLabels_jump :
    let m := single .x86_64 "1:\n\tcmovneq f@GOTPCREL(%rip), %rax\n\tjmp 1b\n"
    ∃ r files symbols emissions, m.sealed = .ok r ∧ r.arch = .x86_64 ∧
      SealedFrom m r files symbols emissions ∧
      Resolves (marksWritten emissions) 3 ['1'] false 0 := by
  intro m
  have hok : m.sealed.toOption.any (fun r => r.arch = .x86_64) = true := by decide +kernel
  have hread : (m.files .x86_64).toOption.any (fun files =>
      files.map (fun file => marksRead 0 file.statements) =
        [[(0, .label ['1']), (3, .reference ['1'] false)]]) = true := by
    decide +kernel
  cases h : m.sealed with
  | error e =>
      rw [h] at hok
      cases hok
  | ok r =>
      rw [h] at hok
      have harch : r.arch = .x86_64 := of_decide_eq_true hok
      obtain ⟨files, symbols, emissions, hfrom, hresolves, -⟩ := sealed_numericLabels h harch
      have hfiles := hfrom.read
      rw [harch] at hfiles
      rw [hfiles] at hread
      have hmarks := of_decide_eq_true hread
      obtain ⟨file, rfl⟩ := List.length_eq_one_iff.mp (by simpa using congrArg List.length hmarks)
      refine ⟨r, _, symbols, emissions, rfl, harch, hfrom,
        hresolves [] file [] rfl [(0, .label ['1'])] 3 ['1'] false [] 0
          (List.head_eq_of_cons_eq hmarks) (by decide) fun hnumber => ?_⟩
      exact absurd hnumber (by decide)

/-- The marks of what is written for statements, if they are known for every one of them. -/
lemma map_marks_of_emits {scope : Scope} {inBss : Bool} {statements : List Statement}
    {marks : List (List Mark)} (h : Emits .x86_64 scope inBss statements emissions)
    (hmarks : List.Forall₂ (fun s own => ∀ b e, s.emission .x86_64 scope b = .ok e →
      e.marks = own) statements marks) : emissions.map Emission.marks = marks := by
  induction h generalizing marks with
  | nil =>
      cases hmarks
      rfl
  | cons he _ ih =>
      cases hmarks with
      | cons hown hrest => rw [List.map_cons, hown _ _ he, ih hrest]

/-- The first reference of some statements goes to the nearest label behind it. -/
lemma resolves_first {i j : ℕ} {number : List Char} {forward : Bool} {after : List (ℕ × Mark)}
    (hnearest : Mark.nearest [] after number forward = some j)
    (honly : (i, .reference number forward) ∉ after) :
    Resolves ((i, .reference number forward) :: after) i number forward j := by
  refine ⟨List.mem_cons_self, fun before after' h => ?_⟩
  cases before with
  | nil =>
      obtain rfl := List.tail_eq_of_cons_eq h
      exact hnearest
  | cons a before =>
      refine absurd ?_ honly
      rw [List.tail_eq_of_cons_eq h]
      exact List.mem_append_right _ List.mem_cons_self

/-- A jump forward over a conditional load to a label with the number that is put in: it ends behind
the load, before the label. -/
theorem exists_reference_captured :
    let m := single .x86_64 "\tjmp 999f\n\tcmovneq foo@GOTPCREL(%rip), %rax\n999:\n"
    ∃ r file symbols emissions, SealedFrom m r [file] symbols emissions ∧ r.arch = .x86_64 ∧
      Resolves (marksRead 0 file.statements) 0 skipNumber true 2 ∧
      Resolves (marksWritten emissions) 0 skipNumber true 1 := by
  intro m
  have hok : m.sealed.toOption.any (fun r => r.arch = .x86_64) = true := by decide +kernel
  -- the marks that are written, statement by statement
  let written : List (List Mark) := [[.reference skipNumber true],
    [.reference skipNumber true, .label skipNumber], [.label skipNumber], []]
  have hread : (m.files .x86_64).toOption.any (fun files =>
      (SymbolTable.ofFiles files).toOption.any fun symbols =>
        files.map (fun file => marksRead 0 file.statements) =
          [[(0, .reference skipNumber true), (2, .label skipNumber)]] ∧
        files.all fun file => file.statements.length = 4 ∧
          (file.statements.zip written).all fun p => [false, true].all fun b =>
            (p.1.emission .x86_64 ⟨symbols, m.marker, file.index⟩ b).toOption.all fun e =>
              e.marks = p.2) = true := by
    decide +kernel
  cases h : m.sealed with
  | error e =>
      rw [h] at hok
      cases hok
  | ok r =>
      rw [h] at hok
      have harch : r.arch = .x86_64 := of_decide_eq_true hok
      obtain ⟨files, symbols, emissions, hfrom⟩ := exists_sealedFrom h
      have hfiles := hfrom.read
      rw [harch] at hfiles
      rw [hfiles, Except.toOption, Option.any_some, hfrom.defined, Except.toOption,
        Option.any_some, decide_eq_true_eq, List.all_eq_true] at hread
      obtain ⟨hmarks, hall⟩ := hread
      obtain ⟨file, rfl⟩ := List.length_eq_one_iff.mp (by simpa using congrArg List.length hmarks)
      obtain ⟨hlength, hzip⟩ := of_decide_eq_true (hall file List.mem_cons_self)
      have hfirst : marksRead 0 file.statements =
          [(0, .reference skipNumber true), (2, .label skipNumber)] :=
        List.head_eq_of_cons_eq hmarks
      -- they do not depend on the section
      have hwritten : emissions.map Emission.marks = written := by
        cases hfrom.emits with
        | cons hfile hrest =>
            cases hrest
            rw [List.append_nil]
            rw [harch] at hfile
            refine map_marks_of_emits hfile (List.forall₂_iff_zip.mpr ⟨hlength, ?_⟩)
            intro s own hs b e he
            have hb := List.all_eq_true.mp (List.all_eq_true.mp hzip _ hs) b (by cases b <;> decide)
            rw [he] at hb
            exact of_decide_eq_true hb
      refine ⟨r, file, symbols, emissions, hfrom, harch, ?_, ?_⟩
      · rw [hfirst]
        exact resolves_first (by decide) (by decide)
      · rw [marksWritten, hwritten]
        exact resolves_first (by decide) (by decide)

end CodeModule

end Hermetic

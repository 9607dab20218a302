/-
The labels that are written for a statement.

* `Statement.textLabels`: the names that a text defines as labels, with
  `Statement.textLabels_text`: the text of a statement, read on its own, defines what the statement
  does;
* `Chunk.labels`, `Emission.labels`: the names that the pieces of an emission define as labels;
* `X86.labels_sealInstruction`, `Arm.labels_sealInstruction`: no instruction gets a label but a
  number;
* `Statement.IsPlainChunk`, `Statement.isPlainChunk_emission`: what is written for a statement
  that is neither label nor instruction;
* `Statement.writtenLabels`, `Statement.labels_emission`: what is written for a statement defines
  the alias and the name of a public label, or the name of a local label for the file.
-/
import Hermetic.Proofs.Helpers.Arm
import Hermetic.Proofs.Helpers.X86
import Hermetic.Proofs.Sealing.LocalLabels
import Hermetic.Proofs.Symbol.Claimed

namespace Hermetic

variable {arch : Arch} {scope : Scope} {s : Statement} {e : Emission}

/-! ### Labels of a text -/

/-- The name of a label, unless it is a number. -/
def Label.symbolName? : Label → Option String
  | symbol name | dotLocal name => some name
  | numeric _ => none

namespace Statement

/-- The name that a statement defines as a label, unless it is a number. -/
def labelName? (s : Statement) : Option String :=
  match s.kind with
  | .label label => label.symbolName?
  | _ => none

lemma labelName?_of_kind {label : Label} (h : s.kind = .label label) :
    s.labelName? = label.symbolName? := by
  rw [labelName?, h]

lemma labelName?_eq_none (h : ∀ label, s.kind ≠ .label label) : s.labelName? = none := by
  unfold labelName?
  split
  · next hkind => exact (h _ hkind).elim
  · rfl

/-- The names that a text defines as labels, if it is read. -/
def textLabels (arch : Arch) (text : String) : List String :=
  match parse arch text with
  | .ok statements => statements.filterMap labelName?
  | .error _ => []

lemma textLabels_of_shape {text : String} {label : Label}
    (h : Shape arch text.toList (.label label)) :
    textLabels arch text = label.symbolName?.toList := by
  obtain ⟨t, hparse, hkind⟩ := exists_parse_of_shape h
  rw [textLabels, hparse]
  dsimp only
  rw [List.filterMap_eq_flatMap_toList, List.flatMap_singleton, labelName?_of_kind hkind]

/-- The text of a statement that is read is one statement on its own, if any: a shorter one would
have been read instead. -/
lemma eq_of_listed_text {c d : Cursor Char} {t : Statement} {statements : List Statement}
    (hread : ofCursor arch c = .ok (s, d))
    (h : Listed arch (Cursor.ofString s.text) (t :: statements)) :
    statements = [] ∧ t.text = s.text := by
  cases h with
  | @cons _ e _ _ _ ht hrest =>
      have htext : s.text.toList = t.text.toList ++ e.rest := (between_of_ofCursor ht).rest
      have hnil : e.rest = [] := by
        by_contra hne
        have hshape := shape_of_ofCursor_of_line ht fun hnil => absurd hnil hne
        have hc : c.rest = t.text.toList ++ (e.rest ++ d.rest) := by
          rw [(between_of_ofCursor hread).rest, htext, List.append_assoc]
        obtain ⟨s', d', hs', -, hd'⟩ := ofCursor_of_shape hshape hc
        rw [hread] at hs'
        cases hs'
        exact hne (List.self_eq_append_left.mp hd')
      refine ⟨?_, ?_⟩
      · cases hrest with
        | nil => rfl
        | cons hne => exact (hne hnil).elim
      · rw [← String.toList_inj, htext, hnil, List.append_nil]

/-- If the text of a statement is read as a label on its own, the statement is that label. -/
lemma kind_of_parse_text {text : String} {statements ts : List Statement} {t : Statement}
    {label : Label} (h : parse arch text = .ok statements) (hs : s ∈ statements)
    (ht : parse arch s.text = .ok ts) (hmem : t ∈ ts) (hkind : t.kind = .label label) :
    s.kind = .label label := by
  obtain ⟨c, d, hread⟩ := (parse_eq_ok_iff.mp h).exists_ofCursor hs
  have hshape := shape_of_label ht hmem hkind
  cases ts with
  | nil => cases hmem
  | cons first rest =>
      obtain ⟨rfl, htext⟩ := eq_of_listed_text hread (parse_eq_ok_iff.mp ht)
      obtain rfl := List.mem_singleton.mp hmem
      rw [htext] at hshape
      obtain ⟨s', d', hs', hkind', -⟩ := ofCursor_of_shape hshape (between_of_ofCursor hread).rest
      rw [hread] at hs'
      cases hs'
      exact hkind'

/-- The text of a statement, read on its own, defines the label that the statement defines. -/
lemma textLabels_text {text : String} {statements : List Statement}
    (h : parse arch text = .ok statements) (hs : s ∈ statements) :
    textLabels arch s.text = s.labelName?.toList := by
  by_cases hlabel : ∃ label, s.kind = .label label
  · obtain ⟨label, hkind⟩ := hlabel
    rw [textLabels_of_shape (shape_of_label h hs hkind), labelName?_of_kind hkind]
  · have hnone (label : Label) : s.kind ≠ .label label := fun hkind => hlabel ⟨label, hkind⟩
    rw [labelName?_eq_none hnone, Option.toList_none]
    unfold textLabels
    split
    · next ts ht =>
        rw [List.filterMap_eq_nil_iff]
        intro t hmem
        exact labelName?_eq_none fun label hkind =>
          hnone label (kind_of_parse_text h hs ht hmem hkind)
    · rfl

end Statement

/-! ### Labels of an emission -/

/-- The names that a piece defines as labels. -/
def Chunk.labels (arch : Arch) : Chunk → List String
  | .copied text => Statement.textLabels arch text
  | .quoted _ => []
  | .line l => (Line.labels [l]).filter fun name => isSymbolName name.toList
  | .openLabel name => [name]

/-- The names that what is written for a statement defines as labels. -/
def Emission.labels (arch : Arch) (e : Emission) : List String :=
  e.chunks.flatMap (Chunk.labels arch)

lemma Emission.labels_copy : (Emission.copy s).labels arch = Statement.textLabels arch s.text :=
  List.flatMap_singleton ..

/-- Lines without names as labels define none. -/
lemma labels_lines_eq_nil {lines : List Line} (h : ∀ name ∈ Line.labels lines, ¬ IsName name) :
    (lines.map Chunk.line).flatMap (Chunk.labels arch) = [] := by
  rw [List.flatMap_map, List.flatMap_eq_nil_iff]
  intro line hline
  refine List.filter_eq_nil_iff.mpr fun name hname => h name ?_
  rw [Line.mem_labels_iff] at hname ⊢
  exact List.mem_singleton.mp hname ▸ hline

lemma Emission.labels_replace {lines : List Line} {helpers : List Helper}
    (h : ∀ name ∈ Line.labels lines, ¬ IsName name) :
    (Emission.replace s lines helpers).labels arch = [] :=
  labels_lines_eq_nil h

/-! ### Instructions -/

namespace X86

variable {insn : Instruction}

/-- The frames around an operand define no label but a number. -/
lemma OperandSealed.labels_frames {i : ℕ} {o : Operand} {change : OperandChange}
    (h : OperandSealed scope insn i o change) :
    ∀ f ∈ change.frames, Line.labels f.lines = [] ∨ Line.labels f.lines = ["999"] := by
  cases h with
  | load _ _ hload =>
      obtain ⟨-, -, -, first, plan, hfirst, hplan, rfl, -⟩ := gotLoad_eq_ok hload
      have hframes := viaGeneral_frames (loadPlan_frames hfirst) hplan
      refine List.forall_mem_append.mpr
        ⟨fun f hf => (hframes f hf).labels, List.forall_mem_singleton.mpr (.inl ?_)⟩
      unfold addressOf
      split
      · rfl
      · cases plan.redZoneCleared <;> rfl
  | distance | address | offset => exact List.forall_mem_singleton.mpr (.inl rfl)
  | reference | linkage | branch | constant | other => exact List.forall_mem_nil _

/-- What is written for an instruction that is changed defines no label but a number. -/
lemma labels_changedLines {k : ℕ} {os : List Operand} {changes : List OperandChange}
    (h : OperandsSealed scope insn k os changes) :
    ∀ name ∈ Line.labels (changedLines insn changes), ¬ IsName name := by
  intro name hname
  rcases mem_wrap (Line.mem_labels_iff.mp hname) with ⟨hline, -⟩ | ⟨f, hf, hline⟩
  · cases List.mem_singleton.mp hline
  · obtain ⟨change, hc, hf⟩ := List.mem_flatMap.mp hf
    obtain ⟨j, o, -, hsealed, -⟩ := h.exists_of_mem hc
    have hmem := Line.mem_labels_iff.mpr hline
    rcases hsealed.labels_frames f hf with hlabels | hlabels
    · rw [hlabels] at hmem
      cases hmem
    · rw [hlabels, List.mem_singleton] at hmem
      subst hmem
      unfold IsName
      decide

/-- What is written for an instruction defines no label but a number. -/
lemma labels_sealInstruction (hs : Statement.textLabels arch s.text = [])
    (h : sealInstruction scope s insn = .ok e) : e.labels arch = [] := by
  obtain ⟨changes, hsealed, ⟨-, rfl⟩ | ⟨-, rfl⟩⟩ := sealInstruction_eq_ok h
  · rwa [Emission.labels_copy]
  · exact Emission.labels_replace (labels_changedLines hsealed)

end X86

namespace Arm

variable {insn : Instruction}

lemma labels_loadExternal (symbol target : String) :
    Line.labels (loadExternal symbol target) = [] := by
  unfold loadExternal
  split <;> rfl

/-- The lines that stand in the place of an instruction are instructions. -/
lemma OperandsSealed.labels_lines {os : List Operand} {written : List Line.Operand}
    {changed : Bool} {helpers : List Helper} {lines : Option (List Line)} {instead : List Line}
    (h : OperandsSealed scope insn os written changed helpers lines)
    (hlines : lines = some instead) : Line.labels instead = [] := by
  induction h with
  | nil => cases hlines
  | whole hsealed =>
      cases hlines
      generalize hc : OperandChange.replace instead = c at hsealed
      cases hsealed with
      | whole _ hlines =>
          cases hc
          rcases hlines with rfl | ⟨target, x, -, -, rfl⟩ <;> rfl
      | memory | constant | copied | base | zero => cases hc
  | cons _ _ ih => exact ih hlines

/-- What is written for an instruction defines no label. -/
lemma labels_sealInstruction (hs : Statement.textLabels arch s.text = [])
    (h : sealInstruction scope s insn = .ok e) : e.labels arch = [] := by
  have hcopy : (Emission.copy s).labels arch = [] := by rwa [Emission.labels_copy]
  have hreplace {lines : List Line} {helpers : List Helper} (hlines : Line.labels lines = []) :
      (Emission.replace s lines helpers).labels arch = [] :=
    Emission.labels_replace fun name hname => by
      rw [hlines] at hname
      cases hname
  rcases sealInstruction_eq_ok h with ⟨-, rfl⟩ | ⟨-, h⟩ |
    ⟨-, written, changed, helpers, lines, hsealed, h⟩
  · exact hcopy
  · obtain ⟨target, source, register, symbol, offset, -, -, -, ⟨-, rfl⟩ | ⟨-, rfl⟩⟩ :=
      pageAddress_eq_ok h
    · exact hreplace rfl
    · exact hreplace (labels_loadExternal ..)
  · rcases h with ⟨-, -, rfl⟩ | ⟨-, -, rfl⟩ | ⟨instead, hlines, rfl⟩
    · exact hcopy
    · exact hreplace rfl
    · exact hreplace (hsealed.labels_lines hlines)

end Arm

/-! ### Statements -/

namespace Statement

/-- The pieces that stand for a directive: its text, its text in a comment, or a directive. -/
def IsPlainChunk (s : Statement) (c : Chunk) : Prop :=
  c = .copied s.text ∨ c = .quoted s ∨
    ∃ indented name gap arguments, c = .line (.directive indented name gap arguments)

lemma isPlainChunk_copy : ∀ c ∈ (Emission.copy s).chunks, s.IsPlainChunk c :=
  List.forall_mem_singleton.mpr (.inl rfl)

lemma isPlainChunk_replace {indented : Bool} {name gap : String} {arguments : List String}
    {helpers : List Helper} : ∀ c ∈
      (Emission.replace s [.directive indented name gap arguments] helpers).chunks,
        s.IsPlainChunk c :=
  List.forall_mem_cons.mpr ⟨.inr (.inl rfl),
    List.forall_mem_singleton.mpr (.inr (.inr ⟨_, _, _, _, rfl⟩))⟩

lemma isPlainChunk_sealBinding (directive name : String) (value : Expr) :
    ∀ c ∈ (sealBinding scope s directive name value).chunks, s.IsPlainChunk c := by
  have hown (changed : Prop) [Decidable changed] (arguments : List String) : ∀ c ∈
      (if changed then Emission.copy s
        else .replace s [.column directive arguments]).chunks, s.IsPlainChunk c := by
    split
    · exact isPlainChunk_copy
    · exact isPlainChunk_replace
  unfold sealBinding
  dsimp only
  split
  · exact List.forall_mem_append.mpr
      ⟨hown _ _, List.forall_mem_singleton.mpr (.inr (.inr ⟨_, _, _, _, rfl⟩))⟩
  · exact hown _ _

lemma isPlainChunk_sealDirective {directive arguments : String}
    (h : sealDirective scope s directive arguments = .ok e) :
    ∀ c ∈ e.chunks, s.IsPlainChunk c := by
  unfold sealDirective at h
  dsimp only at h
  split at h
  · unfold sealCommon at h
    split at h
    · cases h
    · dsimp only at h
      split at h
      all_goals cases h
      · exact isPlainChunk_copy
      · exact isPlainChunk_replace
  · split at h
    · cases h
    · split at h
      · unfold sealSection at h
        dsimp only at h
        split at h
        · cases h
        · split at h
          all_goals cases h
          · exact isPlainChunk_replace
          · exact isPlainChunk_replace
          · exact isPlainChunk_copy
      · cases h
        exact isPlainChunk_copy

/-- What is written for a statement that is neither label nor instruction. -/
lemma isPlainChunk_emission {inBss : Bool} (hlabel : ∀ label, s.kind ≠ .label label)
    (hinsn : ∀ insn, s.kind ≠ .instruction insn) (h : s.emission arch scope inBss = .ok e) :
    ∀ c ∈ e.chunks, s.IsPlainChunk c := by
  -- zero-initialised storage makes no difference to what is no label
  have hcode (h : s.sealCode arch scope = .ok e) : ∀ c ∈ e.chunks, s.IsPlainChunk c := by
    unfold sealCode at h
    cases hkind : s.kind with
    | label label => exact (hlabel label hkind).elim
    | instruction insn => exact (hinsn insn hkind).elim
    | directive directive arguments =>
        rw [hkind] at h
        exact isPlainChunk_sealDirective h
    | symbolic directive arguments =>
        rw [hkind] at h
        cases h
        unfold sealData
        dsimp only
        split
        · exact isPlainChunk_copy
        · exact isPlainChunk_replace
    | binding directive name value =>
        rw [hkind] at h
        cases h
        exact isPlainChunk_sealBinding directive name value
    | blank | comment | visibility | lineInfo =>
        rw [hkind] at h
        cases h
        exact isPlainChunk_copy
  unfold emission at h
  split at h
  · next hkind => exact (hlabel _ hkind).elim
  · cases h
  · exact hcode h

/-- What is written for a statement that is no label defines none. -/
lemma labels_emission_eq_nil {inBss : Bool} (hs : textLabels arch s.text = [])
    (hlabel : ∀ label, s.kind ≠ .label label) (h : s.emission arch scope inBss = .ok e) :
    e.labels arch = [] := by
  by_cases hinsn : ∃ insn, s.kind = .instruction insn
  · obtain ⟨insn, hkind⟩ := hinsn
    have hsealed : sealInstruction arch scope s insn = .ok e := by
      unfold emission at h
      rw [hkind] at h
      cases inBss with
      | true => cases h
      | false => simpa only [sealCode, hkind] using h
    cases arch with
    | x86_64 => exact X86.labels_sealInstruction hs hsealed
    | aarch64 => exact Arm.labels_sealInstruction hs hsealed
  · refine List.flatMap_eq_nil_iff.mpr fun c hc => ?_
    rcases isPlainChunk_emission hlabel (fun insn hkind => hinsn ⟨insn, hkind⟩) h c hc with
      rfl | rfl | ⟨_, _, _, _, rfl⟩
    · exact hs
    · rfl
    · rfl

/-- The names that are written for a statement as labels: the alias and the name of a public label,
and the name of a local label for the file. -/
def writtenLabels (index : ℕ) (s : Statement) : List String :=
  (s.publicLabel?.map Symbol.localAlias).toList ++
    (s.publicLabel?.toList ++ (s.localLabel?.map (s.labelFor index)).toList)

lemma labels_aliasLine {name : String} (h : IsName name) :
    (Chunk.line (.label (Symbol.localAlias name))).labels arch = [Symbol.localAlias name] :=
  List.filter_eq_self.mpr (List.forall_mem_singleton.mpr (Symbol.isName_localAlias h))

/-- What is written for a statement defines the labels that are written for it, in some order. -/
lemma labels_emission {text : String} {statements : List Statement} {inBss : Bool}
    (h : parse arch text = .ok statements) (hs : s ∈ statements)
    (he : s.emission arch scope inBss = .ok e) :
    (e.labels arch).Perm (s.writtenLabels scope.index) := by
  have htext := textLabels_text h hs
  by_cases hlabel : ∃ label, s.kind = .label label
  · obtain ⟨label, hkind⟩ := hlabel
    have hshape := shape_of_label h hs hkind
    rw [labelName?_of_kind hkind] at htext
    unfold writtenLabels publicLabel? localLabel?
    rw [hkind]
    cases label with
    | symbol name =>
        have hname := isName_of_shape_label hshape
        -- in zero-initialised storage the name comes first
        unfold emission at he
        rw [hkind] at he
        cases inBss with
        | true =>
            cases he
            change (textLabels arch s.text ++ [Symbol.localAlias name]).Perm
              [Symbol.localAlias name, name]
            rw [htext]
            exact .swap ..
        | false =>
            simp only [sealCode, hkind] at he
            cases he
            change ((Chunk.line (.label (Symbol.localAlias name))).labels arch ++
              (textLabels arch s.text ++ [])).Perm [Symbol.localAlias name, name]
            rw [labels_aliasLine hname, htext]
            exact .refl _
    | dotLocal name =>
        rw [emission_of_dotLocal hkind] at he
        cases he
        change (textLabels arch _ ++ []).Perm [s.labelFor scope.index name]
        rw [textLabels_of_shape (shape_replaceFirst scope.index hshape)]
        exact .refl _
    | numeric name =>
        unfold emission at he
        rw [hkind] at he
        have hcopy : Emission.copy s = e := by
          cases inBss <;> simpa only [sealCode, hkind, sealLabel, Except.ok.injEq] using he
        rw [← hcopy, Emission.labels_copy, htext]
        exact .refl _
  · have hnone (label : Label) : s.kind ≠ .label label := fun hkind => hlabel ⟨label, hkind⟩
    have hpublic : s.publicLabel? = none :=
      Option.eq_none_iff_forall_ne_some.mpr fun name hname =>
        hnone _ (publicLabel?_eq_some_iff.mp hname)
    have hlocal : s.localLabel? = none :=
      Option.eq_none_iff_forall_ne_some.mpr fun name hname =>
        hnone _ (localLabel?_eq_some_iff.mp hname)
    rw [labelName?_eq_none hnone] at htext
    rw [labels_emission_eq_nil htext hnone he, writtenLabels, hpublic, hlocal]
    exact .refl _

end Statement

end Hermetic

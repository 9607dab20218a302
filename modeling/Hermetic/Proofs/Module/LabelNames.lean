/-
The labels of a sealed module, and when two of them have one name.

A public label gets an alias, and the local labels of all files but the first get new names.  The
labels that are written as they stand may have a name of either kind.

* `LocalLabel`, `SourceFile.locals`: the local labels of a file, and the names that they are written
  with;
* `LabelsMeet`: the ways in which two labels that are written get one name;
* `EmitsAll.labels_perm`: the labels that are written are the public labels, their aliases, and the
  local labels;
* `sealed_labelNames`: the labels of a module have names of their own exactly if none of them meet;
* `exists_label_written_twice`: in each of these ways they may meet.
-/
import Hermetic.Proofs.Module.Helpers
import Hermetic.Proofs.Sealing.Labels
import Mathlib.Data.List.Perm.Basic

namespace Hermetic

/-! ### Local labels -/

/-- A local label: the position of its file, its name, and whether it is written with that name. -/
structure LocalLabel where
  index : ℕ
  name : String
  kept : Bool
deriving DecidableEq

/-- The name that a local label is written with. -/
def LocalLabel.written (l : LocalLabel) : String :=
  if l.kept then l.name else Symbol.renamed l.name l.index

/-- The local labels of a file.  In the first file they keep their names, and in any other where the
name occurs before the label. -/
def SourceFile.locals (f : SourceFile) : List LocalLabel :=
  f.statements.filterMap fun s => s.localLabel?.map fun name =>
    ⟨f.index, name, f.index == 0 || Statement.namedBefore s.text name⟩

/-- The ways in which two labels that are written get one name.  One of them is a local label that
keeps its name. -/
inductive LabelsMeet (publics : List String) (locals : List LocalLabel) : Prop
  /-- The other is the alias of a public label. -/
  | aliased {l : LocalLabel} {name : String} : l ∈ locals → l.kept = true → name ∈ publics →
      l.name = Symbol.localAlias name → LabelsMeet publics locals
  /-- The other is a local label with a new name. -/
  | renamed {l l' : LocalLabel} : l ∈ locals → l' ∈ locals → l.kept = true → l'.kept = false →
      l.name = Symbol.renamed l'.name l'.index → LabelsMeet publics locals
  /-- The other is a local label of another file that keeps its name. -/
  | kept {l l' : LocalLabel} : l ∈ locals → l' ∈ locals → l.kept = true → l'.kept = true →
      l.index ≠ l'.index → l.name = l'.name → LabelsMeet publics locals

namespace SourceFile

variable {f : SourceFile} {l : LocalLabel}

lemma mem_locals_iff : l ∈ f.locals ↔ ∃ s ∈ f.statements, ∃ name, s.localLabel? = some name ∧
    l = ⟨f.index, name, f.index == 0 || Statement.namedBefore s.text name⟩ := by
  rw [locals, List.mem_filterMap]
  refine exists_congr fun s => and_congr_right fun _ => ?_
  rw [Option.map_eq_some_iff]
  exact exists_congr fun name => and_congr_right fun _ => eq_comm

lemma index_of_mem_locals (h : l ∈ f.locals) : l.index = f.index := by
  obtain ⟨-, -, -, -, rfl⟩ := mem_locals_iff.mp h
  rfl

/-- A label of the first file keeps its name. -/
lemma index_ne_zero_of_mem_locals (h : l ∈ f.locals) (hkept : l.kept = false) : l.index ≠ 0 := by
  obtain ⟨s, -, name, -, rfl⟩ := mem_locals_iff.mp h
  intro hzero
  simp only [Bool.or_eq_false_iff, beq_eq_false_iff_ne] at hkept
  exact hkept.1 hzero

lemma map_name_locals (f : SourceFile) : f.locals.map LocalLabel.name = f.localLabels := by
  rw [locals, localLabels, List.map_filterMap]
  congr 1
  funext s
  rw [Option.map_map]
  exact Option.map_id'

/-- The local labels are written with the names that they have for the file. -/
lemma map_written_locals (f : SourceFile) : f.locals.map LocalLabel.written =
    f.statements.filterMap fun s => s.localLabel?.map (s.labelFor f.index) := by
  rw [locals, List.map_filterMap]
  congr 1
  funext s
  rw [Option.map_map]
  congr 1
  funext name
  rw [Function.comp_apply, LocalLabel.written, Statement.labelFor]
  by_cases hindex : f.index = 0
  · rw [hindex, Symbol.renamed_zero]
    simp
  · simp [hindex]

end SourceFile

/-! ### Names of labels -/

section Names

variable {publics : List String} {locals : List LocalLabel}

/-- Two local labels that are written with one name are the same, or they meet. -/
lemma LocalLabel.eq_or_labelsMeet {l l' : LocalLabel}
    (hindex : ∀ l ∈ locals, l.kept = false → l.index ≠ 0) (hl : l ∈ locals) (hl' : l' ∈ locals)
    (h : l.written = l'.written) : l = l' ∨ LabelsMeet publics locals := by
  obtain ⟨index, name, kept⟩ := l
  obtain ⟨index', name', kept'⟩ := l'
  cases kept with
  | true =>
      cases kept' with
      | true =>
          by_cases hsame : index = index'
          · exact .inl (by rw [hsame, show name = name' from h])
          · exact .inr (.kept hl hl' rfl rfl hsame h)
      | false => exact .inr (.renamed hl hl' rfl rfl h)
  | false =>
      cases kept' with
      | true => exact .inr (.renamed hl' hl rfl rfl h.symm)
      | false =>
          obtain ⟨rfl, rfl⟩ :=
            (Symbol.renamed_inj (hindex _ hl rfl) (hindex _ hl' rfl)).mp h
          exact .inl rfl

/-- A local label that is written with the name of an alias keeps its name. -/
lemma LocalLabel.labelsMeet_of_written {l : LocalLabel} {name : String}
    (hindex : ∀ l ∈ locals, l.kept = false → l.index ≠ 0) (hl : l ∈ locals)
    (hname : name ∈ publics) (h : l.written = Symbol.localAlias name) :
    LabelsMeet publics locals := by
  cases hkept : l.kept with
  | true =>
      rw [written, hkept, if_pos rfl] at h
      exact .aliased hl hkept hname h
  | false =>
      rw [written, hkept, if_neg Bool.false_ne_true] at h
      exact (Symbol.renamed_ne_localAlias_of_ne_zero (hindex l hl hkept) l.name name h).elim

lemma LocalLabel.isDotLocal_written {l : LocalLabel} (h : Symbol.isDotLocal l.name = true) :
    Symbol.isDotLocal l.written = true := by
  unfold written
  split
  · exact h
  · exact Symbol.isDotLocal_renamed h _

/-- Public labels, their aliases and local labels have names of their own exactly if none of them
meet. -/
lemma nodup_labels_iff (hpublics : publics.Nodup) (hlocals : locals.Nodup)
    (hpublic : ∀ name ∈ publics, Symbol.isDotLocal name = false)
    (hlocal : ∀ l ∈ locals, Symbol.isDotLocal l.name = true)
    (hindex : ∀ l ∈ locals, l.kept = false → l.index ≠ 0) :
    (publics.map Symbol.localAlias ++ (publics ++ locals.map LocalLabel.written)).Nodup ↔
      ¬ LabelsMeet publics locals := by
  -- a public name is not dot-local, and what is written for a local label is
  have happart : publics.Disjoint (locals.map LocalLabel.written) := by
    intro name hname hwritten
    obtain ⟨l, hl, rfl⟩ := List.mem_map.mp hwritten
    have hpublic := hpublic _ hname
    rw [LocalLabel.isDotLocal_written (hlocal l hl)] at hpublic
    cases hpublic
  have haliases : (publics.map Symbol.localAlias).Disjoint publics := by
    intro name halias hname
    obtain ⟨own, -, rfl⟩ := List.mem_map.mp halias
    exact Symbol.ne_localAlias (hpublic _ hname) own rfl
  rw [List.nodup_append', List.nodup_append', List.disjoint_append_right,
    List.nodup_map_iff_inj_on hlocals]
  -- only pairs with a local label are left: with an alias, or with another local label
  constructor
  · rintro ⟨-, ⟨-, hinjective, -⟩, -, hdisjoint⟩ hmeet
    cases hmeet with
    | @aliased l name hl hkept hname heq =>
        refine hdisjoint (List.mem_map_of_mem hname) (List.mem_map.mpr ⟨l, hl, ?_⟩)
        rw [LocalLabel.written, hkept, if_pos rfl, heq]
    | @renamed l l' hl hl' hkept hkept' heq =>
        have hwritten : l.written = l'.written := by
          rw [LocalLabel.written, LocalLabel.written, hkept, hkept', if_pos rfl,
            if_neg Bool.false_ne_true, heq]
        rw [hinjective l hl l' hl' hwritten, hkept'] at hkept
        cases hkept
    | @kept l l' hl hl' hkept hkept' hother heq =>
        have hwritten : l.written = l'.written := by
          rw [LocalLabel.written, LocalLabel.written, hkept, hkept', if_pos rfl, if_pos rfl, heq]
        exact hother (by rw [hinjective l hl l' hl' hwritten])
  · intro hmeet
    refine ⟨hpublics.map Symbol.localAlias_injective, ⟨hpublics, fun l hl l' hl' h => ?_, happart⟩,
      haliases, fun name halias hwritten => hmeet ?_⟩
    · exact (LocalLabel.eq_or_labelsMeet hindex hl hl' h).resolve_right hmeet
    · obtain ⟨own, hown, rfl⟩ := List.mem_map.mp halias
      obtain ⟨l, hl, heq⟩ := List.mem_map.mp hwritten
      exact LocalLabel.labelsMeet_of_written hindex hl hown heq

end Names

/-! ### Labels that are written -/

variable {arch : Arch} {scope : Scope} {symbols : SymbolTable} {marker : String}

/-- What is written for the statements of a file defines the labels that are written for them. -/
lemma Emits.labels_perm {inBss : Bool} {statements all : List Statement}
    {emissions : List Emission} {text : String} (h : Emits arch scope inBss statements emissions)
    (hparse : Statement.parse arch text = .ok all) (hall : ∀ s ∈ statements, s ∈ all) :
    (emissions.flatMap (Emission.labels arch)).Perm
      (statements.flatMap (Statement.writtenLabels scope.index)) := by
  induction h with
  | nil => exact .refl _
  | cons he _ ih =>
      obtain ⟨hs, hall⟩ := List.forall_mem_cons.mp hall
      rw [List.flatMap_cons, List.flatMap_cons]
      exact (Statement.labels_emission hparse hs he).append (ih hall)

/-- Three parts of every element, and all parts of each kind. -/
lemma flatMap_parts_perm {α β : Type} (l : List α) (f g k : α → List β) :
    (l.flatMap fun x => f x ++ (g x ++ k x)).Perm (l.flatMap f ++ (l.flatMap g ++ l.flatMap k)) :=
  (List.flatMap_append_perm l f _).symm.trans
    ((List.flatMap_append_perm l g k).symm.append_left _)

/-- The labels that are written for the statements of a file, kind by kind. -/
lemma SourceFile.writtenLabels_perm (f : SourceFile) :
    (f.statements.flatMap (Statement.writtenLabels f.index)).Perm
      (f.publicLabels.map Symbol.localAlias ++
        (f.publicLabels ++ f.locals.map LocalLabel.written)) := by
  have haliases : f.publicLabels.map Symbol.localAlias =
      f.statements.flatMap fun s => (s.publicLabel?.map Symbol.localAlias).toList := by
    rw [publicLabels, List.map_filterMap, List.filterMap_eq_flatMap_toList]
  rw [haliases, publicLabels, map_written_locals, List.filterMap_eq_flatMap_toList,
    List.filterMap_eq_flatMap_toList]
  exact flatMap_parts_perm ..

/-- The labels that are written for the files of a module, kind by kind. -/
lemma EmitsAll.labels_perm {files : List SourceFile} {emissions : List Emission}
    (h : EmitsAll arch symbols marker files emissions)
    (hread : ∀ f ∈ files, ∃ text, Statement.parse arch text = .ok f.statements) :
    (emissions.flatMap (Emission.labels arch)).Perm
      ((files.flatMap SourceFile.publicLabels).map Symbol.localAlias ++
        (files.flatMap SourceFile.publicLabels ++
          (files.flatMap SourceFile.locals).map LocalLabel.written)) := by
  rw [List.map_flatMap, List.map_flatMap]
  refine List.Perm.trans ?_ (flatMap_parts_perm ..)
  induction h with
  | nil => exact .refl _
  | @cons f files first rest hfirst _ ih =>
      obtain ⟨⟨text, hparse⟩, hread⟩ := List.forall_mem_cons.mp hread
      rw [List.flatMap_append, List.flatMap_cons]
      refine List.Perm.append ?_ (ih hread)
      exact (hfirst.labels_perm hparse fun _ => id).trans f.writtenLabels_perm

/-! ### Modules -/

namespace CodeModule

variable {m : CodeModule} {r : Sealed} {files : List SourceFile} {emissions : List Emission}

namespace SealedFrom

variable (h : SealedFrom m r files symbols emissions)
include h

/-- The local labels of a module are different. -/
lemma nodup_locals : (files.flatMap SourceFile.locals).Nodup := by
  refine List.nodup_flatMap.mpr ⟨fun f hf => ?_, ?_⟩
  · refine List.Nodup.of_map LocalLabel.name ?_
    rw [SourceFile.map_name_locals]
    exact (SymbolTable.ofFiles_eq_ok_iff.mp h.defined).2.1 f hf
  · refine (readAs_of_readFrom h.read).index_lt.2.imp fun hlt l hl hl' => ?_
    rw [← SourceFile.index_of_mem_locals hl, ← SourceFile.index_of_mem_locals hl'] at hlt
    exact Nat.lt_irrefl _ hlt

lemma isDotLocal_of_mem_publicLabels {name : String}
    (hname : name ∈ files.flatMap SourceFile.publicLabels) : Symbol.isDotLocal name = false := by
  obtain ⟨f, hf, hname⟩ := List.mem_flatMap.mp hname
  obtain ⟨s, hs, hlabel⟩ := List.mem_filterMap.mp hname
  obtain ⟨input, -, hparse⟩ := exists_parse_of_readFrom h.read hf
  exact Statement.isDotLocal_of_shape_label
    (Statement.shape_of_label hparse hs (Statement.publicLabel?_eq_some_iff.mp hlabel))

lemma isDotLocal_of_mem_locals {l : LocalLabel} (hl : l ∈ files.flatMap SourceFile.locals) :
    Symbol.isDotLocal l.name = true := by
  obtain ⟨f, hf, hl⟩ := List.mem_flatMap.mp hl
  obtain ⟨s, hs, name, hlabel, rfl⟩ := SourceFile.mem_locals_iff.mp hl
  obtain ⟨input, -, hparse⟩ := exists_parse_of_readFrom h.read hf
  exact Statement.isDotLocal_of_shape_dotLocal
    (Statement.shape_of_label hparse hs (Statement.localLabel?_eq_some_iff.mp hlabel))

/-- The labels of a module have names of their own exactly if none of them meet. -/
lemma nodup_labels_iff : (emissions.flatMap (Emission.labels r.arch)).Nodup ↔
    ¬ LabelsMeet (files.flatMap SourceFile.publicLabels) (files.flatMap SourceFile.locals) := by
  have hperm := h.emits.labels_perm fun f hf => by
    obtain ⟨input, -, hparse⟩ := exists_parse_of_readFrom h.read hf
    exact ⟨input.text, hparse⟩
  rw [hperm.nodup_iff]
  refine Hermetic.nodup_labels_iff (SymbolTable.ofFiles_eq_ok_iff.mp h.defined).1 h.nodup_locals
    (fun _ => h.isDotLocal_of_mem_publicLabels) (fun _ => h.isDotLocal_of_mem_locals)
    fun l hl hkept => ?_
  obtain ⟨f, -, hl⟩ := List.mem_flatMap.mp hl
  exact SourceFile.index_ne_zero_of_mem_locals hl hkept

end SealedFrom

/-- The labels that are written for a module have names of their own exactly if no local label that
keeps its name meets an alias, a local label with a new name, or one of another file. -/
theorem sealed_labelNames (h : m.sealed = .ok r) :
    ∃ files symbols emissions, SealedFrom m r files symbols emissions ∧
      ((emissions.flatMap (Emission.labels r.arch)).Nodup ↔
        ¬ LabelsMeet (files.flatMap SourceFile.publicLabels)
          (files.flatMap SourceFile.locals)) := by
  obtain ⟨files, symbols, emissions, hfrom⟩ := exists_sealedFrom h
  exact ⟨files, symbols, emissions, hfrom, hfrom.nodup_labels_iff⟩

/-- Files of x86-64 with some texts. -/
def together (texts : List String) : CodeModule where
  givenArch := some .x86_64
  inputs := texts.map fun text => ⟨"a.s", text⟩

/-- Whether some texts define their labels once, and are sealed if they do. -/
def Sealable (texts : List String) (p : List SourceFile → Bool) : Bool :=
  let m := together texts
  (m.files .x86_64).toOption.any fun files =>
    decide (files.flatMap SourceFile.publicLabels).Nodup &&
    files.all (fun file => decide file.localLabels.Nodup) &&
    (files.foldlM (writeFile .x86_64 (.ofNames files) m.marker)
      { output := Boundary.begin ⟨.x86_64, m.marker, debugFile files⟩ {} }).isOk && p files

lemma exists_sealed_of_sealable {texts : List String} {p : List SourceFile → Bool}
    (h : Sealable texts p = true) : ∃ r files, (together texts).sealed = .ok r ∧
      (together texts).files r.arch = .ok files ∧ p files = true := by
  obtain ⟨files, hread, h⟩ := Outcome.exists_of_any h
  simp only [Bool.and_eq_true, decide_eq_true_eq, List.all_eq_true] at h
  obtain ⟨⟨⟨hpublics, hlocals⟩, hwritten⟩, hp⟩ := h
  have hdefined := SymbolTable.ofFiles_eq_ok_iff.mpr ⟨hpublics, hlocals, rfl⟩
  cases hprogress : files.foldlM (writeFile .x86_64 (.ofNames files) (together texts).marker)
      { output := Boundary.begin ⟨.x86_64, (together texts).marker, debugFile files⟩ {} } with
  | error e =>
      rw [hprogress] at hwritten
      cases hwritten
  | ok progress =>
      obtain ⟨r, hr⟩ := exists_sealed rfl hread hdefined hprogress
      obtain ⟨_, _, _, hfrom⟩ := exists_sealedFrom hr
      have harch : r.arch = .x86_64 := (Except.ok.inj hfrom.detected).symm
      exact ⟨r, files, hr, by rw [harch]; exact hread, hp⟩

/-- A public label, and a local label in each of two files. -/
theorem sealed_labelNames_together :
    let m := together ["foo:\n.L1:\n", ".L1:\n"]
    ∃ r, m.sealed = .ok r ∧ ∃ files symbols emissions, SealedFrom m r files symbols emissions ∧
      ((emissions.flatMap (Emission.labels r.arch)).Nodup ↔
        ¬ LabelsMeet (files.flatMap SourceFile.publicLabels)
          (files.flatMap SourceFile.locals)) := by
  intro m
  have hsealable : Sealable ["foo:\n.L1:\n", ".L1:\n"] (fun _ => true) = true := by decide +kernel
  obtain ⟨r, -, h, -⟩ := exists_sealed_of_sealable hsealable
  exact ⟨r, h, sealed_labelNames h⟩

/-- Whether a label is written twice for some texts. -/
def WrittenTwice (texts : List String) : Prop :=
  ∃ r files symbols emissions, (together texts).sealed = .ok r ∧
    SealedFrom (together texts) r files symbols emissions ∧
      ¬ (emissions.flatMap (Emission.labels r.arch)).Nodup

lemma writtenTwice_of_labelsMeet {texts : List String} {p : List SourceFile → Bool}
    (h : Sealable texts p = true) (hmeet : ∀ files, p files = true →
      LabelsMeet (files.flatMap SourceFile.publicLabels) (files.flatMap SourceFile.locals)) :
    WrittenTwice texts := by
  obtain ⟨r, files, hr, hread, hp⟩ := exists_sealed_of_sealable h
  obtain ⟨files', symbols, emissions, hfrom⟩ := exists_sealedFrom hr
  obtain rfl : files = files' := Except.ok.inj (hread.symm.trans hfrom.read)
  exact ⟨r, files, symbols, emissions, hr, hfrom, fun hnodup =>
    hfrom.nodup_labels_iff.mp hnodup (hmeet files hp)⟩

/-- A local label with the name of an alias, a local label of the first file with the new name of
another, and a local label that keeps its name since a comment has it: each is written twice. -/
theorem exists_label_written_twice :
    WrittenTwice [".Lfoo_local_target:\nfoo:\n"] ∧
      WrittenTwice [".Lfoo_BCM_1:\n", ".Lfoo:\n"] ∧
      WrittenTwice [".L1:\n", "/* .L1 */ .L1:\n"] := by
  have halias : Symbol.localAlias "foo" = ".Lfoo_local_target" := by decide +kernel
  have hrenamed : Symbol.renamed ".Lfoo" 1 = ".Lfoo_BCM_1" := by decide +kernel
  refine ⟨?_, ?_, ?_⟩
  · refine writtenTwice_of_labelsMeet (p := fun files =>
      "foo" ∈ files.flatMap SourceFile.publicLabels ∧
        ⟨0, ".Lfoo_local_target", true⟩ ∈ files.flatMap SourceFile.locals)
      (by decide +kernel) fun files hfiles => ?_
    obtain ⟨hpublic, hlocal⟩ := of_decide_eq_true (p := _ ∧ _) hfiles
    exact .aliased hlocal rfl hpublic halias.symm
  · refine writtenTwice_of_labelsMeet (p := fun files =>
      ⟨0, ".Lfoo_BCM_1", true⟩ ∈ files.flatMap SourceFile.locals ∧
        ⟨1, ".Lfoo", false⟩ ∈ files.flatMap SourceFile.locals)
      (by decide +kernel) fun files hfiles => ?_
    obtain ⟨hkept, hother⟩ := of_decide_eq_true (p := _ ∧ _) hfiles
    exact .renamed hkept hother rfl rfl hrenamed.symm
  · refine writtenTwice_of_labelsMeet (p := fun files =>
      ⟨0, ".L1", true⟩ ∈ files.flatMap SourceFile.locals ∧
        ⟨1, ".L1", true⟩ ∈ files.flatMap SourceFile.locals)
      (by decide +kernel) fun files hfiles => ?_
    obtain ⟨hfirst, hsecond⟩ := of_decide_eq_true (p := _ ∧ _) hfiles
    exact .kept hfirst hsecond rfl rfl Nat.zero_ne_one rfl

end CodeModule

end Hermetic

/-
The order of the inputs does not change what a module needs.

Files in another order have other positions, and so their local labels get other names.  But they
define the same symbols, are sealed or refused together, and need the same helpers outside the
module, apart from those that are named after local labels.

* `SameStatements`: files with the same lists of statements, in any order;
* `SameStatements.ofFiles_eq_ok`, `SameStatements.debugFile_eq`, `SameStatements.exists_emitsAll`:
  what such files have in common;
* `SameNeeds`: what modules have in common that need the same;
* `sealed_perm`: modules with the same inputs, in any order, are sealed or refused together, and
  need the same.
-/
import Hermetic.Proofs.Module.LabelNames
import Hermetic.Proofs.Sealing.Accepted
import Mathlib.Data.List.Flatten
import Mathlib.Data.List.Perm.Basic

namespace Hermetic

/-- Sets with the same members are equal. -/
lemma NameSet.ext_of_mem {s t : NameSet} (h : ∀ a, a ∈ s ↔ a ∈ t) : s = t := by
  have hnodup (s : NameSet) : s.toList.Nodup := s.increasing.imp String.ne_of_lt
  have hperm : s.toList.Perm t.toList := (List.perm_ext_iff_of_nodup (hnodup s) (hnodup t)).mpr h
  have hlist : s.toList = t.toList :=
    hperm.eq_of_pairwise (fun a b _ _ hab hba => (String.lt_asymm hab hba).elim) s.increasing
      t.increasing
  cases s
  cases t
  cases hlist
  rfl

/-! ### Files in another order -/

/-- Files with the same lists of statements, in any order. -/
def SameStatements (files files' : List SourceFile) : Prop :=
  (files.map (·.statements)).Perm (files'.map (·.statements))

namespace SameStatements

variable {files files' : List SourceFile} {arch : Arch} {symbols : SymbolTable} {marker : String}

lemma symm (h : SameStatements files files') : SameStatements files' files :=
  List.Perm.symm h

/-- Every file has a partner with the same statements. -/
lemma exists_partner (h : SameStatements files files') {file : SourceFile} (hf : file ∈ files) :
    ∃ file' ∈ files', file'.statements = file.statements :=
  List.mem_map.mp (h.subset (List.mem_map_of_mem hf))

/-- Taken together, the statements are the same. -/
lemma perm (h : SameStatements files files') :
    (files.flatMap (·.statements)).Perm (files'.flatMap (·.statements)) := by
  rw [List.flatMap_def, List.flatMap_def]
  exact List.Perm.flatten h

lemma publicLabels_perm (h : SameStatements files files') :
    (files.flatMap SourceFile.publicLabels).Perm (files'.flatMap SourceFile.publicLabels) := by
  have hlabels (files : List SourceFile) : files.flatMap SourceFile.publicLabels =
      (files.flatMap (·.statements)).filterMap Statement.publicLabel? :=
    List.filterMap_flatMap.symm
  rw [hlabels, hlabels]
  exact h.perm.filterMap _

/-- Files that have a table have the same one in any order. -/
lemma ofFiles_eq_ok (h : SameStatements files files')
    (hok : SymbolTable.ofFiles files = .ok symbols) :
    SymbolTable.ofFiles files' = .ok symbols := by
  obtain ⟨hpublic, hlocal, -⟩ := SymbolTable.ofFiles_eq_ok_iff.mp hok
  have hok' : SymbolTable.ofFiles files' = .ok (.ofNames files') := by
    refine SymbolTable.ofFiles_eq_ok_iff.mpr
      ⟨h.publicLabels_perm.nodup_iff.mp hpublic, fun file' hf' => ?_, rfl⟩
    obtain ⟨file, hf, heq⟩ := h.symm.exists_partner hf'
    rw [SourceFile.localLabels, ← heq]
    exact hlocal file hf
  have hsame : symbols.defined = (SymbolTable.ofNames files').defined := by
    refine NameSet.ext_of_mem fun name => ?_
    have hmem {files : List SourceFile} {symbols : SymbolTable}
        (hok : SymbolTable.ofFiles files = .ok symbols) : name ∈ symbols.defined ↔
          ∃ statement ∈ files.flatMap (·.statements), statement.publicName? = some name := by
      rw [← decide_eq_true_iff (p := name ∈ symbols.defined)]
      refine (SymbolTable.contains_iff_of_ofFiles hok).trans ?_
      simp only [List.mem_flatMap]
      grind
    rw [hmem hok, hmem hok']
    exact exists_congr fun statement => and_congr_left fun _ => h.perm.mem_iff
  rw [hok']
  exact congrArg Except.ok (congrArg SymbolTable.mk hsame.symm)

/-- The lines around the module are attributed to the same source file. -/
lemma debugFile_eq (h : SameStatements files files') :
    CodeModule.debugFile files = CodeModule.debugFile files' := by
  have hnumbers := h.perm.map CodeModule.fileNumber
  unfold CodeModule.debugFile
  dsimp only
  rw [(hnumbers.map Prod.fst).foldl_eq 0, hnumbers.any_eq]

end SameStatements

/-! ### Reading and writing in another order -/

section Order

variable {arch : Arch} {symbols : SymbolTable} {marker : String}

lemma ReadAs.forall₂_parse {index : ℕ} {inputs : List Input} {files : List SourceFile}
    (h : ReadAs arch index inputs files) :
    List.Forall₂ (fun input statements => Statement.parse arch input.text = .ok statements) inputs
      (files.map (·.statements)) := by
  induction h with
  | nil => exact .nil
  | cons hparse _ ih => exact .cons hparse ih

lemma exists_readAs {inputs : List Input} {read : List (List Statement)}
    (h : List.Forall₂ (fun input statements => Statement.parse arch input.text = .ok statements)
      inputs read) (index : ℕ) :
    ∃ files, ReadAs arch index inputs files ∧ files.map (·.statements) = read := by
  induction h generalizing index with
  | nil => exact ⟨[], .nil, rfl⟩
  | cons hparse _ ih =>
      obtain ⟨files, hread, hfiles⟩ := ih (index + 1)
      exact ⟨_, .cons hparse hread, congrArg _ hfiles⟩

/-- Inputs are read as the same lists of statements in any order. -/
lemma ReadAs.exists_perm {index : ℕ} {inputs inputs' : List Input} {files : List SourceFile}
    (h : ReadAs arch index inputs files) (hperm : inputs.Perm inputs') :
    ∃ files', ReadAs arch index inputs' files' ∧ SameStatements files files' := by
  obtain ⟨read, hread, hsame⟩ := List.perm_comp_forall₂ hperm.symm h.forall₂_parse
  obtain ⟨files', hfiles', rfl⟩ := exists_readAs hread index
  exact ⟨files', hfiles', hsame.symm⟩

/-- What is written for statements in one file can be written in any other. -/
lemma Emits.exists_of_index {i : ℕ} {inBss : Bool} {statements : List Statement}
    {emissions : List Emission} (h : Emits arch ⟨symbols, marker, i⟩ inBss statements emissions)
    (j : ℕ) : ∃ emissions', Emits arch ⟨symbols, marker, j⟩ inBss statements emissions' := by
  induction h with
  | nil => exact ⟨[], .nil⟩
  | cons he _ ih =>
      obtain ⟨e', he'⟩ := Outcome.exists_of_verdict_eq (Statement.verdict_emission i j) he
      obtain ⟨emissions', hrest⟩ := ih
      exact ⟨e' :: emissions', .cons he' hrest⟩

/-- Files can be written exactly if each of them can. -/
lemma exists_emitsAll_iff {files : List SourceFile} :
    (∃ emissions, EmitsAll arch symbols marker files emissions) ↔ ∀ file ∈ files,
      ∃ emissions, Emits arch ⟨symbols, marker, file.index⟩ false file.statements emissions := by
  induction files with
  | nil => exact ⟨fun _ => nofun, fun _ => ⟨[], .nil⟩⟩
  | cons file files ih =>
      rw [List.forall_mem_cons, ← ih]
      constructor
      · rintro ⟨emissions, h⟩
        cases h with
        | cons hfile hrest => exact ⟨⟨_, hfile⟩, _, hrest⟩
      · rintro ⟨⟨first, hfile⟩, rest, hrest⟩
        exact ⟨first ++ rest, .cons hfile hrest⟩

/-- Files that can be written can be written in any order. -/
lemma SameStatements.exists_emitsAll {files files' : List SourceFile} {emissions : List Emission}
    (h : SameStatements files files') (hemits : EmitsAll arch symbols marker files emissions) :
    ∃ emissions', EmitsAll arch symbols marker files' emissions' := by
  refine exists_emitsAll_iff.mpr fun file' hf' => ?_
  obtain ⟨file, hf, heq⟩ := h.symm.exists_partner hf'
  obtain ⟨own, hown⟩ := exists_emitsAll_iff.mp ⟨emissions, hemits⟩ file hf
  rw [← heq]
  exact hown.exists_of_index file'.index

/-- A statement needs the same helpers in any file, apart from those that are named after local
labels. -/
lemma Statement.neededIn_iff_of_index {s : Statement} {helper : Helper}
    (hh : ∀ name fromTable, helper ≠ .gotOffset name fromTable) (i j : ℕ) :
    s.NeededIn arch ⟨symbols, marker, i⟩ helper ↔ s.NeededIn arch ⟨symbols, marker, j⟩ helper := by
  cases helper with
  | gotOffset name fromTable => exact (hh name fromTable rfl).elim
  | _ => cases arch <;> exact Iff.rfl

end Order

/-! ### Modules -/

namespace CodeModule

variable {m : CodeModule} {r r' : Sealed} {files files' : List SourceFile}
variable {symbols : SymbolTable} {emissions emissions' : List Emission}

/-- A module that is sealed is sealed with its inputs in any other order, from files with the same
statements. -/
lemma SealedFrom.exists_perm (h : SealedFrom m r files symbols emissions) {inputs : List Input}
    (harch : m.givenArch = some r.arch) (hperm : m.inputs.Perm inputs) :
    ∃ r' files' emissions', r'.arch = r.arch ∧ SameStatements files files' ∧
      SealedFrom { m with inputs } r' files' symbols emissions' := by
  obtain ⟨files', hread, hsame⟩ := (readAs_of_readFrom h.read).exists_perm hperm
  obtain ⟨emissions', hemits⟩ := hsame.exists_emitsAll h.emits
  have hbound := length_le_of_readFrom h.read (Nat.zero_le _)
  have hfiles : ({ m with inputs } : CodeModule).files r.arch = .ok files' := by
    rw [hsame.perm.length_eq] at hbound
    rw [CodeModule.files, readFrom_of_readAs hread (Nat.zero_le _), if_pos hbound]
  have hdetected : ({ m with inputs } : CodeModule).arch = .ok r.arch := by
    rw [CodeModule.arch, harch]
  let helpers := ({} : Helpers).requestAll (emissions'.flatMap (·.helpers))
  let boundary : Boundary := ⟨r.arch, m.marker, debugFile files'⟩
  let written := ({ output := boundary.begin {} } : Progress).addAll r.arch emissions'
  exact ⟨⟨(boundary.finish helpers written.output).text, r.arch, helpers⟩, files', emissions', rfl,
    hsame, hdetected, hfiles, hsame.ofFiles_eq_ok h.defined, hemits, rfl, rfl⟩

/-- Modules that are sealed from the same statements need the same helpers, apart from those that
are named after local labels. -/
lemma SealedFrom.holds_iff_of_sameStatements (h : SealedFrom m r files symbols emissions)
    {inputs : List Input} (h' : SealedFrom { m with inputs } r' files' symbols emissions')
    (harch : r'.arch = r.arch) (hsame : SameStatements files files') {helper : Helper}
    (hlasting : helper.Lasting) (hh : ∀ name fromTable, helper ≠ .gotOffset name fromTable) :
    r.helpers.Holds helper ↔ r'.helpers.Holds helper := by
  have hneeded {files files' : List SourceFile} (hsame : SameStatements files files')
      (h : ∃ file ∈ files, ∃ s ∈ file.statements,
        s.NeededIn r.arch ⟨symbols, m.marker, file.index⟩ helper) :
      ∃ file ∈ files', ∃ s ∈ file.statements,
        s.NeededIn r.arch ⟨symbols, m.marker, file.index⟩ helper := by
    obtain ⟨file, hf, s, hs, hneeded⟩ := h
    obtain ⟨file', hf', heq⟩ := hsame.exists_partner hf
    exact ⟨file', hf', s, heq ▸ hs, (Statement.neededIn_iff_of_index hh _ _).mp hneeded⟩
  rw [h.holds_iff_neededIn helper hlasting, h'.holds_iff_neededIn helper hlasting, harch]
  exact ⟨hneeded hsame, hneeded hsame.symm⟩

lemma SealedFrom.arch_eq {arch : Arch} (h : SealedFrom m r files symbols emissions)
    (harch : m.givenArch = some arch) : r.arch = arch := by
  have hdetected := h.detected
  rw [CodeModule.arch, harch] at hdetected
  exact (Except.ok.inj hdetected).symm

/-- What two modules for an architecture have in common if they need the same: the symbols that
they define, the source file that the lines around them are attributed to, the helpers for symbols
outside the module, and the distance to the offset table. -/
structure SameNeeds (arch : Arch) (m m' : CodeModule) (r r' : Sealed) : Prop where
  redirectors : r.helpers.redirectors = r'.helpers.redirectors
  gotEntries : r.helpers.gotEntries = r'.helpers.gotEntries
  gotDelta : r.helpers.gotDelta = r'.helpers.gotDelta
  read : ∃ files files', m.files arch = .ok files ∧ m'.files arch = .ok files' ∧
    debugFile files = debugFile files' ∧
      ∃ symbols, SymbolTable.ofFiles files = .ok symbols ∧ SymbolTable.ofFiles files' = .ok symbols

/-- A module that is sealed is sealed with its inputs in any other order, and needs the same. -/
lemma exists_sealed_perm {arch : Arch} {inputs : List Input} (harch : m.givenArch = some arch)
    (hperm : m.inputs.Perm inputs) (h : m.sealed = .ok r) :
    ∃ r', ({ m with inputs } : CodeModule).sealed = .ok r' ∧
      SameNeeds arch m { m with inputs } r r' := by
  obtain ⟨files, symbols, emissions, hfrom⟩ := exists_sealedFrom h
  obtain rfl := hfrom.arch_eq harch
  obtain ⟨r', files', emissions', heq, hsame, hfrom'⟩ := hfrom.exists_perm harch hperm
  have hholds (helper : Helper) (hlasting : helper.Lasting)
      (hh : ∀ name fromTable, helper ≠ .gotOffset name fromTable) :=
    hfrom.holds_iff_of_sameStatements hfrom' heq hsame hlasting hh
  have hread := hfrom'.read
  have hdefined := hfrom'.defined
  rw [heq] at hread
  exact ⟨r', hfrom'.sealed_eq, {
    redirectors := NameSet.ext_of_mem fun name => hholds (.redirector name) trivial nofun
    gotEntries := NameSet.ext_of_mem fun name => hholds (.gotEntry name) trivial nofun
    gotDelta := Bool.eq_iff_iff.mpr (hholds .gotDelta trivial nofun)
    read := ⟨files, files', hfrom.read, hread, hsame.debugFile_eq, symbols, hfrom.defined,
      hdefined⟩ }⟩

/-- The order of the inputs does not change whether a module is sealed for an architecture, nor
what it needs if it is. -/
theorem sealed_perm {arch : Arch} {inputs : List Input} (harch : m.givenArch = some arch)
    (hperm : m.inputs.Perm inputs) :
    ((∃ r, m.sealed = .ok r) ↔ ∃ r', ({ m with inputs } : CodeModule).sealed = .ok r') ∧
      ∀ r r', m.sealed = .ok r → ({ m with inputs } : CodeModule).sealed = .ok r' →
        SameNeeds arch m { m with inputs } r r' := by
  refine ⟨⟨?_, ?_⟩, fun r r' h h' => ?_⟩
  · rintro ⟨r, h⟩
    obtain ⟨r', h', -⟩ := exists_sealed_perm harch hperm h
    exact ⟨r', h'⟩
  · rintro ⟨r', h'⟩
    obtain ⟨r, h, -⟩ := exists_sealed_perm (m := { m with inputs }) harch hperm.symm h'
    exact ⟨r, h⟩
  · obtain ⟨r'', h'', hneeds⟩ := exists_sealed_perm harch hperm h
    rw [h''] at h'
    cases h'
    exact hneeds

/-- A file that calls a symbol of another and has a local label, and the other file, in both
orders. -/
theorem sealed_perm_call :
    let m := together [".file 3\n.L1:\n\tcall f\n\tjmp .L1\n", "f:\n\tcall g@PLT\n"]
    let m' : CodeModule := { m with inputs := m.inputs.reverse }
    ∃ r r', m.sealed = .ok r ∧ m'.sealed = .ok r' ∧ SameNeeds .x86_64 m m' r r' := by
  intro m m'
  have hperm : m.inputs.Perm m.inputs.reverse := (List.reverse_perm _).symm
  have hsealable : Sealable [".file 3\n.L1:\n\tcall f\n\tjmp .L1\n", "f:\n\tcall g@PLT\n"]
      (fun _ => true) = true := by decide +kernel
  obtain ⟨r, -, hr, -⟩ := exists_sealed_of_sealable hsealable
  have hboth := sealed_perm (m := m) rfl hperm
  obtain ⟨r', hr'⟩ := hboth.1.mp ⟨r, hr⟩
  exact ⟨r, r', hr, hr', hboth.2 r r' hr hr'⟩

end CodeModule

end Hermetic

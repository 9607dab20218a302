/-
What is read and written for a module, statement by statement.

* `ReadAs`: the files that inputs are read as, with `readFrom_of_readAs`: they are, unless they have
  too many statements;
* `Emits`, `EmitsAll`: what is written for the statements of a file, and for those of all files;
* `Emits.exists_mem`, `Emits.exists_of_mem`: something is written for every statement, and
  everything is written for some statement;
* `SealedFrom`: the files that a module is sealed from, the symbols that they define, and what is
  written for them;
* `exists_sealedFrom`, `SealedFrom.sealed_eq`: the modules that are sealed from some files are those
  that are sealed;
* `exists_sealed`: a module whose files can be read and written is sealed.
-/
import Hermetic.CodeModule
import Hermetic.Proofs.Outcome
import Mathlib.Data.Nat.Notation

namespace Hermetic

/-! ### Inputs -/

lemma SourceFile.parse_eq_ok_iff {path text : String} {index : ℕ} {arch : Arch}
    {file : SourceFile} : parse path index text arch = .ok file ↔
      ∃ statements, Statement.parse arch text = .ok statements ∧
        file = ⟨path, index, statements⟩ := by
  rw [parse]
  cases Statement.parse arch text with
  | error e => simp
  | ok statements => simp [eq_comm]

/-- The files that inputs are read as, the first of which has a position. -/
inductive ReadAs (arch : Arch) : ℕ → List Input → List SourceFile → Prop
  | nil {index : ℕ} : ReadAs arch index [] []
  | cons {index : ℕ} {input : Input} {inputs : List Input} {statements : List Statement}
      {files : List SourceFile} : Statement.parse arch input.text = .ok statements →
      ReadAs arch (index + 1) inputs files →
        ReadAs arch index (input :: inputs) (⟨input.path, index, statements⟩ :: files)

namespace ReadAs

variable {arch : Arch} {index : ℕ} {inputs : List Input} {files : List SourceFile}

/-- The statements of a file are those of the text that it is made of. -/
lemma exists_parse (h : ReadAs arch index inputs files) {file : SourceFile} (hf : file ∈ files) :
    ∃ input ∈ inputs, Statement.parse arch input.text = .ok file.statements := by
  induction h with
  | nil => cases hf
  | cons hparse _ ih =>
      rcases List.mem_cons.mp hf with rfl | hf
      · exact ⟨_, List.mem_cons_self, hparse⟩
      · obtain ⟨input, hmem, hparse⟩ := ih hf
        exact ⟨input, List.mem_cons_of_mem _ hmem, hparse⟩

/-- The files have positions of their own. -/
lemma index_lt (h : ReadAs arch index inputs files) :
    (∀ f ∈ files, index ≤ f.index) ∧ files.Pairwise (·.index < ·.index) := by
  induction h with
  | nil => exact ⟨nofun, .nil⟩
  | cons _ _ ih =>
      obtain ⟨hle, hpairwise⟩ := ih
      exact ⟨List.forall_mem_cons.mpr ⟨Nat.le_refl _, fun f hf => Nat.le_of_succ_le (hle f hf)⟩,
        List.pairwise_cons.mpr ⟨hle, hpairwise⟩⟩

end ReadAs

/-! ### Files -/

/-- What is written for statements of which the first lies in zero-initialised storage or not. -/
inductive Emits (arch : Arch) (scope : Scope) : Bool → List Statement → List Emission → Prop
  | nil {inBss : Bool} : Emits arch scope inBss [] []
  | cons {inBss : Bool} {s : Statement} {e : Emission} {statements : List Statement}
      {emissions : List Emission} : s.emission arch scope inBss = .ok e →
      Emits arch scope (Statement.bssAfter inBss s) statements emissions →
        Emits arch scope inBss (s :: statements) (e :: emissions)

/-- What is written for the files of a module. -/
inductive EmitsAll (arch : Arch) (symbols : SymbolTable) (marker : String) :
    List SourceFile → List Emission → Prop
  | nil : EmitsAll arch symbols marker [] []
  | cons {file : SourceFile} {files : List SourceFile} {first rest : List Emission} :
      Emits arch ⟨symbols, marker, file.index⟩ false file.statements first →
      EmitsAll arch symbols marker files rest →
        EmitsAll arch symbols marker (file :: files) (first ++ rest)

variable {arch : Arch} {symbols : SymbolTable} {marker : String} {scope : Scope}

/-- Something is written for every statement. -/
lemma Emits.exists_mem {inBss : Bool} {statements : List Statement} {emissions : List Emission}
    (h : Emits arch scope inBss statements emissions) {s : Statement} (hs : s ∈ statements) :
    ∃ e ∈ emissions, ∃ b, s.emission arch scope b = .ok e := by
  induction h with
  | nil => cases hs
  | cons he _ ih =>
      rcases List.mem_cons.mp hs with rfl | hs
      · exact ⟨_, List.mem_cons_self, _, he⟩
      · obtain ⟨e, hmem, he⟩ := ih hs
        exact ⟨e, List.mem_cons_of_mem _ hmem, he⟩

/-- Everything is written for some statement. -/
lemma Emits.exists_of_mem {inBss : Bool} {statements : List Statement}
    {emissions : List Emission} (h : Emits arch scope inBss statements emissions) {e : Emission}
    (he : e ∈ emissions) : ∃ s ∈ statements, ∃ b, s.emission arch scope b = .ok e := by
  induction h with
  | nil => cases he
  | cons hs _ ih =>
      rcases List.mem_cons.mp he with rfl | he
      · exact ⟨_, List.mem_cons_self, _, hs⟩
      · obtain ⟨s, hmem, hs⟩ := ih he
        exact ⟨s, List.mem_cons_of_mem _ hmem, hs⟩

lemma EmitsAll.exists_mem {files : List SourceFile} {emissions : List Emission}
    (h : EmitsAll arch symbols marker files emissions) {file : SourceFile} (hf : file ∈ files)
    {s : Statement} (hs : s ∈ file.statements) :
    ∃ e ∈ emissions, ∃ b, s.emission arch ⟨symbols, marker, file.index⟩ b = .ok e := by
  induction h with
  | nil => cases hf
  | cons hfile _ ih =>
      rcases List.mem_cons.mp hf with rfl | hf
      · obtain ⟨e, hmem, he⟩ := hfile.exists_mem hs
        exact ⟨e, List.mem_append_left _ hmem, he⟩
      · obtain ⟨e, hmem, he⟩ := ih hf
        exact ⟨e, List.mem_append_right _ hmem, he⟩

lemma EmitsAll.exists_of_mem {files : List SourceFile} {emissions : List Emission}
    (h : EmitsAll arch symbols marker files emissions) {e : Emission} (he : e ∈ emissions) :
    ∃ file ∈ files, ∃ s ∈ file.statements,
      ∃ b, s.emission arch ⟨symbols, marker, file.index⟩ b = .ok e := by
  induction h with
  | nil => cases he
  | cons hfile _ ih =>
      rcases List.mem_append.mp he with he | he
      · exact ⟨_, List.mem_cons_self, hfile.exists_of_mem he⟩
      · obtain ⟨file, hmem, hs⟩ := ih he
        exact ⟨file, List.mem_cons_of_mem _ hmem, hs⟩

lemma EmitsAll.append {files more : List SourceFile} {first rest : List Emission}
    (h : EmitsAll arch symbols marker files first) (h' : EmitsAll arch symbols marker more rest) :
    EmitsAll arch symbols marker (files ++ more) (first ++ rest) := by
  induction h with
  | nil => exact h'
  | cons hfile _ ih =>
      rw [List.append_assoc]
      exact .cons hfile ih

lemma EmitsAll.exists_of_append {files more : List SourceFile} {emissions : List Emission}
    (h : EmitsAll arch symbols marker (files ++ more) emissions) :
    ∃ first rest, EmitsAll arch symbols marker files first ∧
      EmitsAll arch symbols marker more rest ∧ emissions = first ++ rest := by
  induction files generalizing emissions with
  | nil => exact ⟨[], emissions, .nil, h, rfl⟩
  | cons file files ih =>
      cases h with
      | @cons _ _ own _ hown h =>
          obtain ⟨first, rest, hfirst, hrest, rfl⟩ := ih h
          exact ⟨own ++ first, rest, .cons hown hfirst, hrest, (List.append_assoc ..).symm⟩

namespace CodeModule

/-! ### Reading -/

/-- Inputs are read, unless they have too many statements. -/
lemma readFrom_of_readAs {bound index count : ℕ} {inputs : List Input} {files : List SourceFile}
    (h : ReadAs arch index inputs files) (hcount : count ≤ bound) :
    readFrom arch bound index count inputs =
      if count + (files.flatMap (·.statements)).length ≤ bound then .ok files
      else .error (.limitExceeded .statements bound) := by
  induction h generalizing count with
  | nil => exact (if_pos hcount).symm
  | @cons index input inputs statements files hparse _ ih =>
      have hfile : SourceFile.parse input.path index input.text arch =
          .ok ⟨input.path, index, statements⟩ :=
        SourceFile.parse_eq_ok_iff.mpr ⟨statements, hparse, rfl⟩
      rw [readFrom, hfile, List.flatMap_cons, List.length_append, ← Nat.add_assoc]
      dsimp only [bind, Except.bind]
      by_cases hfull : bound < count + statements.length
      · rw [if_pos hfull, if_neg (by omega)]
        rfl
      · rw [if_neg hfull, ih (Nat.le_of_not_lt hfull)]
        by_cases hall : count + statements.length + (files.flatMap (·.statements)).length ≤ bound
        · rw [if_pos hall, if_pos hall]
          rfl
        · rw [if_neg hall, if_neg hall]

/-- Inputs that are read are read as such files. -/
lemma readAs_of_readFrom {bound index count : ℕ} {inputs : List Input} {files : List SourceFile}
    (h : readFrom arch bound index count inputs = .ok files) : ReadAs arch index inputs files := by
  induction inputs generalizing index count files with
  | nil =>
      cases h
      exact .nil
  | cons input inputs ih =>
      obtain ⟨first, hfirst, h⟩ := Outcome.bind_eq_ok_iff.mp h
      dsimp only at h
      split at h
      · cases h
      · obtain ⟨rest, hrest, h⟩ := Outcome.bind_eq_ok_iff.mp h
        cases h
        obtain ⟨statements, hparse, rfl⟩ := SourceFile.parse_eq_ok_iff.mp hfirst
        exact .cons hparse (ih hrest)

lemma length_le_of_readFrom {bound index count : ℕ} {inputs : List Input}
    {files : List SourceFile} (h : readFrom arch bound index count inputs = .ok files)
    (hcount : count ≤ bound) : count + (files.flatMap (·.statements)).length ≤ bound := by
  by_contra hfull
  rw [readFrom_of_readAs (readAs_of_readFrom h) hcount, if_neg hfull] at h
  cases h

lemma exists_parse_of_readFrom {bound index count : ℕ} {inputs : List Input}
    {files : List SourceFile} (h : readFrom arch bound index count inputs = .ok files)
    {file : SourceFile} (hf : file ∈ files) :
    ∃ input ∈ inputs, Statement.parse arch input.text = .ok file.statements :=
  (readAs_of_readFrom h).exists_parse hf

/-! ### Progress -/

/-- What was written before, with some emissions. -/
def Progress.addAll (p : Progress) (arch : Arch) (emissions : List Emission) : Progress :=
  emissions.foldl (fun q e => q.add arch e) p

lemma Progress.addAll_append (p : Progress) (emissions more : List Emission) :
    p.addAll arch (emissions ++ more) = (p.addAll arch emissions).addAll arch more :=
  List.foldl_append

lemma Progress.helpers_addAll (p : Progress) (emissions : List Emission) :
    (p.addAll arch emissions).helpers = p.helpers.requestAll (emissions.flatMap (·.helpers)) := by
  unfold Progress.addAll Helpers.requestAll
  induction emissions generalizing p with
  | nil => rfl
  | cons e emissions ih =>
      rw [List.foldl_cons, ih, List.flatMap_cons, List.foldl_append]
      rfl

lemma emits_of_writeStatements {path : String} {inBss : Bool} {statements : List Statement}
    {p q : Progress} (h : writeStatements arch scope path inBss p statements = .ok q) :
    ∃ emissions, Emits arch scope inBss statements emissions ∧ q = p.addAll arch emissions := by
  induction statements generalizing inBss p with
  | nil =>
      cases h
      exact ⟨[], .nil, rfl⟩
  | cons s statements ih =>
      rw [writeStatements] at h
      split at h
      · cases h
      · next e next hs =>
          obtain ⟨e', he, heq⟩ := Outcome.map_eq_ok_iff.mp hs
          cases heq
          obtain ⟨emissions, hemits, rfl⟩ := ih h
          exact ⟨e :: emissions, .cons he hemits, rfl⟩

lemma emitsAll_of_foldlM {files : List SourceFile} {p q : Progress}
    (h : files.foldlM (writeFile arch symbols marker) p = .ok q) :
    ∃ emissions, EmitsAll arch symbols marker files emissions ∧ q = p.addAll arch emissions := by
  induction files generalizing p with
  | nil =>
      cases h
      exact ⟨[], .nil, rfl⟩
  | cons file files ih =>
      rw [List.foldlM_cons] at h
      obtain ⟨p', hfile, h⟩ := Outcome.bind_eq_ok_iff.mp h
      obtain ⟨first, hfirst, rfl⟩ := emits_of_writeStatements hfile
      obtain ⟨rest, hrest, rfl⟩ := ih h
      exact ⟨first ++ rest, .cons hfirst hrest, (Progress.addAll_append ..).symm⟩

lemma writeStatements_of_emits {inBss : Bool} {statements : List Statement}
    {emissions : List Emission} (h : Emits arch scope inBss statements emissions) (path : String)
    (p : Progress) :
    writeStatements arch scope path inBss p statements = .ok (p.addAll arch emissions) := by
  induction h generalizing p with
  | nil => rfl
  | @cons inBss s e statements emissions he _ ih =>
      have hs : s.sealed arch scope inBss = .ok (e, Statement.bssAfter inBss s) :=
        Outcome.map_eq_ok_iff.mpr ⟨e, he, rfl⟩
      rw [writeStatements, hs]
      exact ih _

lemma foldlM_of_emitsAll {files : List SourceFile} {emissions : List Emission}
    (h : EmitsAll arch symbols marker files emissions) (p : Progress) :
    files.foldlM (writeFile arch symbols marker) p = .ok (p.addAll arch emissions) := by
  induction h generalizing p with
  | nil => rfl
  | cons hfile _ ih =>
      rw [List.foldlM_cons, Progress.addAll_append]
      exact Outcome.bind_eq_ok_iff.mpr ⟨_, writeStatements_of_emits hfile _ p, ih _⟩

/-! ### Modules -/

/-- A module is sealed from files which define symbols, and for which something is written. -/
structure SealedFrom (m : CodeModule) (r : Sealed) (files : List SourceFile)
    (symbols : SymbolTable) (emissions : List Emission) : Prop where
  detected : m.arch = .ok r.arch
  read : m.files r.arch = .ok files
  defined : SymbolTable.ofFiles files = .ok symbols
  emits : EmitsAll r.arch symbols m.marker files emissions
  requested : r.helpers = ({} : Helpers).requestAll (emissions.flatMap (·.helpers))
  written : let boundary : Boundary := ⟨r.arch, m.marker, debugFile files⟩
    r.text = (boundary.finish r.helpers
      (({ output := boundary.begin {} } : Progress).addAll r.arch emissions).output).text

/-- Every module that is sealed is sealed from some files. -/
lemma exists_sealedFrom {m : CodeModule} {r : Sealed} (h : m.sealed = .ok r) :
    ∃ files symbols emissions, SealedFrom m r files symbols emissions := by
  obtain ⟨arch, harch, h⟩ := Outcome.bind_eq_ok_iff.mp h
  obtain ⟨files, hfiles, h⟩ := Outcome.bind_eq_ok_iff.mp h
  obtain ⟨symbols, hsymbols, h⟩ := Outcome.bind_eq_ok_iff.mp h
  obtain ⟨p, hp, h⟩ := Outcome.bind_eq_ok_iff.mp h
  obtain ⟨emissions, hemits, rfl⟩ := emitsAll_of_foldlM hp
  cases h
  exact ⟨files, symbols, emissions, harch, hfiles, hsymbols, hemits,
    Progress.helpers_addAll _ emissions, rfl⟩

/-- A module is sealed if it is sealed from some files. -/
lemma SealedFrom.sealed_eq {m : CodeModule} {r : Sealed} {files : List SourceFile}
    {emissions : List Emission} (h : SealedFrom m r files symbols emissions) :
    m.sealed = .ok r := by
  refine Outcome.bind_eq_ok_iff.mpr ⟨r.arch, h.detected, Outcome.bind_eq_ok_iff.mpr ⟨files, h.read,
    Outcome.bind_eq_ok_iff.mpr ⟨symbols, h.defined, Outcome.bind_eq_ok_iff.mpr
      ⟨_, foldlM_of_emitsAll h.emits _, ?_⟩⟩⟩⟩
  rw [Progress.helpers_addAll, ← h.requested, ← h.written]
  rfl

/-- A module is sealed if its files can be read, define their labels once, and can be written. -/
lemma exists_sealed {m : CodeModule} {files : List SourceFile} {p : Progress}
    (harch : m.arch = .ok arch) (hread : m.files arch = .ok files)
    (hdefined : SymbolTable.ofFiles files = .ok symbols)
    (hwritten : files.foldlM (writeFile arch symbols m.marker)
      { output := Boundary.begin ⟨arch, m.marker, debugFile files⟩ {} } = .ok p) :
    ∃ r, m.sealed = .ok r := by
  let boundary : Boundary := ⟨arch, m.marker, debugFile files⟩
  refine ⟨⟨(boundary.finish p.helpers p.output).text, arch, p.helpers⟩, ?_⟩
  exact Outcome.bind_eq_ok_iff.mpr ⟨arch, harch, Outcome.bind_eq_ok_iff.mpr ⟨files, hread,
    Outcome.bind_eq_ok_iff.mpr ⟨symbols, hdefined,
      Outcome.bind_eq_ok_iff.mpr ⟨p, hwritten, rfl⟩⟩⟩⟩

end CodeModule

end Hermetic

/-
No label is defined twice.

The labels of a module take their names one after another: public labels for the module, local
labels for their file.

* `Statement.publicLabel?`, `Statement.localLabel?`: the name that a statement defines as a label;
* `SymbolTable.Scopes.Claims`: names that are taken, which are different and were free before;
* `SymbolTable.ofFiles_eq_ok_iff`: files have a table exactly if their public labels are different,
  and so are the local labels of each file.
-/
import Hermetic.Proofs.Symbol.Defined
import Mathlib.Data.List.Nodup

namespace Hermetic

/-! ### Labels -/

/-- The public name that a statement defines as a label. -/
def Statement.publicLabel? (s : Statement) : Option String :=
  match s.kind with
  | .label (.symbol name) => some name
  | _ => none

/-- The local name that a statement defines as a label. -/
def Statement.localLabel? (s : Statement) : Option String :=
  match s.kind with
  | .label (.dotLocal name) => some name
  | _ => none

lemma Statement.publicLabel?_eq_some_iff {s : Statement} {name : String} :
    s.publicLabel? = some name ↔ s.kind = .label (.symbol name) := by
  unfold publicLabel?
  split
  · next hkind => simp [hkind]
  · next hkind =>
      simp only [reduceCtorEq, false_iff]
      exact hkind name

lemma Statement.localLabel?_eq_some_iff {s : Statement} {name : String} :
    s.localLabel? = some name ↔ s.kind = .label (.dotLocal name) := by
  unfold localLabel?
  split
  · next hkind => simp [hkind]
  · next hkind =>
      simp only [reduceCtorEq, false_iff]
      exact hkind name

/-- The public labels of a file. -/
def SourceFile.publicLabels (f : SourceFile) : List String :=
  f.statements.filterMap Statement.publicLabel?

/-- The local labels of a file. -/
def SourceFile.localLabels (f : SourceFile) : List String :=
  f.statements.filterMap Statement.localLabel?

/-! ### Names that are taken -/

namespace SymbolTable.Scopes

variable {places places' places'' : Std.HashMap String Location} {names more : List String}
variable {path : String} {s t : Scopes}

/-- Names that are taken are different and were free before, and nothing else is taken. -/
structure Claims (places places' : Std.HashMap String Location) (names : List String) : Prop where
  nodup : names.Nodup
  free : ∀ name ∈ names, name ∉ places
  taken : ∀ name, name ∈ places' ↔ name ∈ places ∨ name ∈ names

lemma Claims.refl (places : Std.HashMap String Location) : Claims places places [] :=
  ⟨List.nodup_nil, nofun, fun name => by simp⟩

/-- What is taken first is not free afterwards. -/
lemma Claims.trans (h : Claims places places' names) (h' : Claims places' places'' more) :
    Claims places places'' (names ++ more) := by
  refine ⟨List.nodup_append'.mpr ⟨h.nodup, h'.nodup, fun name hn hmore => ?_⟩, fun name hn => ?_,
    fun name => ?_⟩
  · exact h'.free name hmore ((h.taken name).mpr (.inr hn))
  · rcases List.mem_append.mp hn with hn | hmore
    · exact h.free name hn
    · exact fun hplaces => h'.free name hmore ((h.taken name).mpr (.inl hplaces))
  · rw [h'.taken, h.taken, List.mem_append, or_assoc]

lemma claims_of_claim {name : String} {site : Location} (h : claim places name site = .ok places') :
    Claims places places' [name] := by
  unfold claim at h
  split at h
  · cases h
  · next hfree =>
      cases h
      refine ⟨List.nodup_singleton name, fun other hother => ?_, fun other => ?_⟩
      · rw [List.mem_singleton.mp hother, Std.HashMap.mem_iff_isSome_getElem?, hfree]
        nofun
      · rw [Std.HashMap.mem_insert, List.mem_singleton, beq_iff_eq, or_comm, eq_comm]

/-- A statement takes the name that it defines as a label. -/
lemma claims_of_define {statement : Statement} (h : s.define path statement = .ok t) :
    Claims s.labels t.labels statement.publicLabel?.toList ∧
      Claims s.locals t.locals statement.localLabel?.toList := by
  have hrefl : Claims s.labels s.labels [] ∧ Claims s.locals s.locals [] :=
    ⟨.refl _, .refl _⟩
  unfold define at h
  unfold Statement.publicLabel? Statement.localLabel?
  -- only a label takes a name; a binding defines it without taking it
  cases hkind : statement.kind with
  | label label =>
      rw [hkind] at h
      cases label with
      | symbol name =>
          obtain ⟨labels, hclaim, rfl⟩ := Outcome.map_eq_ok_iff.mp h
          exact ⟨claims_of_claim hclaim, .refl _⟩
      | dotLocal name =>
          obtain ⟨locals, hclaim, rfl⟩ := Outcome.map_eq_ok_iff.mp h
          exact ⟨.refl _, claims_of_claim hclaim⟩
      | numeric =>
          cases h
          exact hrefl
  | binding =>
      rw [hkind] at h
      dsimp only at h
      split at h
      all_goals
        cases h
        exact hrefl
  | _ =>
      rw [hkind] at h
      cases h
      exact hrefl

lemma claims_of_statements {statements : List Statement}
    (h : statements.foldlM (define path) s = .ok t) :
    Claims s.labels t.labels (statements.filterMap Statement.publicLabel?) ∧
      Claims s.locals t.locals (statements.filterMap Statement.localLabel?) := by
  induction statements generalizing s with
  | nil =>
      cases h
      exact ⟨.refl _, .refl _⟩
  | cons statement statements ih =>
      rw [List.foldlM_cons] at h
      obtain ⟨next, hnext, h⟩ := Outcome.bind_eq_ok_iff.mp h
      obtain ⟨hlabels, hlocals⟩ := claims_of_define hnext
      obtain ⟨hlabels', hlocals'⟩ := ih h
      rw [List.filterMap_eq_flatMap_toList] at hlabels' hlocals' ⊢
      rw [List.filterMap_eq_flatMap_toList, List.flatMap_cons, List.flatMap_cons]
      exact ⟨hlabels.trans hlabels', hlocals.trans hlocals'⟩

/-- A file takes its public labels from the module.  Its local labels are free at its start. -/
lemma claims_of_files {files : List SourceFile} (h : files.foldlM defineFile s = .ok t) :
    Claims s.labels t.labels (files.flatMap SourceFile.publicLabels) ∧
      ∀ file ∈ files, file.localLabels.Nodup := by
  induction files generalizing s with
  | nil =>
      cases h
      exact ⟨.refl _, nofun⟩
  | cons file files ih =>
      rw [List.foldlM_cons] at h
      obtain ⟨next, hnext, h⟩ := Outcome.bind_eq_ok_iff.mp h
      obtain ⟨hlabels, hlocals⟩ := claims_of_statements hnext
      obtain ⟨hlabels', hlocals'⟩ := ih h
      exact ⟨hlabels.trans hlabels', List.forall_mem_cons.mpr ⟨hlocals.nodup, hlocals'⟩⟩

/-! ### Names that may be taken -/

/-- The names that are defined, with the public name that a statement defines. -/
def addName (defined : NameSet) (statement : Statement) : NameSet :=
  match statement.publicName? with
  | some name => defined.insert name
  | none => defined

lemma claim_of_free {name : String} (h : name ∉ places) (site : Location) :
    claim places name site = .ok (places.insert name site) := by
  rw [claim, Std.HashMap.getElem?_eq_none h]

/-- A statement is accepted if the name that it defines as a label is free. -/
lemma exists_define (path : String) {statement : Statement}
    (hlabels : ∀ name ∈ statement.publicLabel?.toList, name ∉ s.labels)
    (hlocals : ∀ name ∈ statement.localLabel?.toList, name ∉ s.locals) :
    ∃ t, s.define path statement = .ok t ∧ t.defined = addName s.defined statement := by
  unfold define addName Statement.publicName?
  unfold Statement.publicLabel? at hlabels
  unfold Statement.localLabel? at hlocals
  cases hkind : statement.kind with
  | label label =>
      rw [hkind] at hlabels hlocals
      cases label with
      | symbol name =>
          dsimp only
          rw [claim_of_free (hlabels name List.mem_cons_self)]
          exact ⟨_, rfl, rfl⟩
      | dotLocal name =>
          dsimp only
          rw [claim_of_free (hlocals name List.mem_cons_self)]
          exact ⟨_, rfl, rfl⟩
      | numeric => exact ⟨_, rfl, rfl⟩
  | binding directive name value =>
      dsimp only
      split <;> exact ⟨_, rfl, rfl⟩
  | _ => exact ⟨_, rfl, rfl⟩

/-- Statements are accepted if the names that they define as labels are different and free. -/
lemma exists_statements (path : String) {statements : List Statement}
    (hlabels : (statements.filterMap Statement.publicLabel?).Nodup)
    (hfree : ∀ name ∈ statements.filterMap Statement.publicLabel?, name ∉ s.labels)
    (hlocals : (statements.filterMap Statement.localLabel?).Nodup)
    (hfree' : ∀ name ∈ statements.filterMap Statement.localLabel?, name ∉ s.locals) :
    ∃ t, statements.foldlM (define path) s = .ok t ∧
      t.defined = statements.foldl addName s.defined := by
  induction statements generalizing s with
  | nil => exact ⟨s, rfl, rfl⟩
  | cons statement statements ih =>
      rw [List.filterMap_eq_flatMap_toList, List.flatMap_cons,
        ← List.filterMap_eq_flatMap_toList] at hlabels hfree hlocals hfree'
      rw [List.nodup_append'] at hlabels hlocals
      rw [List.forall_mem_append] at hfree hfree'
      obtain ⟨-, hlabels, hapart⟩ := hlabels
      obtain ⟨-, hlocals, hapart'⟩ := hlocals
      obtain ⟨next, hnext, hdefined⟩ := exists_define path hfree.1 hfree'.1
      obtain ⟨hclaims, hclaims'⟩ := claims_of_define hnext
      obtain ⟨t, ht, hdefined'⟩ := ih hlabels
        (fun name hname => by
          rw [hclaims.taken, not_or]
          exact ⟨hfree.2 name hname, fun hown => hapart hown hname⟩) hlocals
        (fun name hname => by
          rw [hclaims'.taken, not_or]
          exact ⟨hfree'.2 name hname, fun hown => hapart' hown hname⟩)
      refine ⟨t, ?_, by rw [hdefined', hdefined, List.foldl_cons]⟩
      rw [List.foldlM_cons]
      exact Outcome.bind_eq_ok_iff.mpr ⟨next, hnext, ht⟩

/-- Files are accepted if their public labels are different and free, and the local labels of each
file are different. -/
lemma exists_files {files : List SourceFile}
    (hlabels : (files.flatMap SourceFile.publicLabels).Nodup)
    (hfree : ∀ name ∈ files.flatMap SourceFile.publicLabels, name ∉ s.labels)
    (hlocals : ∀ file ∈ files, file.localLabels.Nodup) :
    ∃ t, files.foldlM defineFile s = .ok t ∧
      t.defined = (files.flatMap (·.statements)).foldl addName s.defined := by
  induction files generalizing s with
  | nil => exact ⟨s, rfl, rfl⟩
  | cons file files ih =>
      rw [List.flatMap_cons, List.nodup_append'] at hlabels
      rw [List.flatMap_cons, List.forall_mem_append] at hfree
      obtain ⟨hown, hlabels, hapart⟩ := hlabels
      obtain ⟨hlocal, hlocals⟩ := List.forall_mem_cons.mp hlocals
      obtain ⟨next, hnext, hdefined⟩ := exists_statements file.path
        (s := { s with locals := {} }) hown hfree.1 hlocal
        fun name _ => Std.HashMap.not_mem_empty
      have hclaims := (claims_of_statements hnext).1
      obtain ⟨t, ht, hdefined'⟩ := ih hlabels (fun name hname => by
        rw [hclaims.taken, not_or]
        exact ⟨hfree.2 name hname, fun hfirst => hapart hfirst hname⟩) hlocals
      refine ⟨t, ?_, by rw [hdefined', hdefined, List.flatMap_cons, List.foldl_append]⟩
      rw [List.foldlM_cons]
      exact Outcome.bind_eq_ok_iff.mpr ⟨next, hnext, ht⟩

end SymbolTable.Scopes

/-! ### Tables -/

namespace SymbolTable

variable {files : List SourceFile} {symbols : SymbolTable}

/-- The table of some files, if their labels are different. -/
def ofNames (files : List SourceFile) : SymbolTable :=
  ⟨(files.flatMap (·.statements)).foldl Scopes.addName .empty⟩

/-- Files have a table exactly if their public labels are different, and so are the local labels of
each file. -/
lemma ofFiles_eq_ok_iff : ofFiles files = .ok symbols ↔
    (files.flatMap SourceFile.publicLabels).Nodup ∧ (∀ file ∈ files, file.localLabels.Nodup) ∧
      symbols = ofNames files := by
  have hexists (hlabels : (files.flatMap SourceFile.publicLabels).Nodup)
      (hlocals : ∀ file ∈ files, file.localLabels.Nodup) :
      ofFiles files = .ok (ofNames files) := by
    obtain ⟨t, ht, hdefined⟩ := Scopes.exists_files (s := {}) hlabels
      (fun name _ => Std.HashMap.not_mem_empty) hlocals
    rw [ofFiles, ofNames, ht, ← hdefined]
    rfl
  constructor
  · intro h
    obtain ⟨t, ht, -⟩ := Outcome.map_eq_ok_iff.mp h
    obtain ⟨hclaims, hlocals⟩ := Scopes.claims_of_files ht
    refine ⟨hclaims.nodup, hlocals, ?_⟩
    rw [hexists hclaims.nodup hlocals] at h
    exact (Except.ok.inj h).symm
  · rintro ⟨hlabels, hlocals, rfl⟩
    exact hexists hlabels hlocals

end SymbolTable

end Hermetic

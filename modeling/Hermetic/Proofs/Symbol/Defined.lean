/-
The names that a module defines are those that its statements define.

* `Statement.publicName?`: the public name that a statement defines;
* `SymbolTable.contains_iff_of_ofFiles`: exactly these are in the table of the module.
-/
import Hermetic.Proofs.Outcome
import Hermetic.Symbol.Table

namespace Hermetic

/-- The public name that a statement defines, as a label or by binding it. -/
def Statement.publicName? (s : Statement) : Option String :=
  match s.kind with
  | .label (.symbol name) => some name
  | .binding _ name _ => if Symbol.isDotLocal name then none else some name
  | _ => none

namespace SymbolTable

variable {path name : String} {s t : Scopes}

namespace Scopes

/-- A statement adds the public name that it defines. -/
lemma mem_defined_of_define {statement : Statement} (h : s.define path statement = .ok t) :
    name ∈ t.defined ↔ name ∈ s.defined ∨ statement.publicName? = some name := by
  have hinsert (own : String) :
      name ∈ s.defined.insert own ↔ name ∈ s.defined ∨ some own = some name := by
    rw [NameSet.mem_insert, or_comm, Option.some_inj, eq_comm]
  have hnone : name ∈ s.defined ↔ name ∈ s.defined ∨ none = some name := by
    simp
  unfold define at h
  unfold Statement.publicName?
  -- a label or a binding of a public name is what defines
  cases hkind : statement.kind with
  | label label =>
      rw [hkind] at h
      cases label with
      | symbol own =>
          obtain ⟨labels, -, rfl⟩ := Outcome.map_eq_ok_iff.mp h
          exact hinsert own
      | dotLocal own =>
          obtain ⟨locals, -, rfl⟩ := Outcome.map_eq_ok_iff.mp h
          exact hnone
      | numeric =>
          cases h
          exact hnone
  | binding directive own value =>
      rw [hkind] at h
      dsimp only at h ⊢
      split at h
      · next hlocal =>
          cases h
          rw [if_pos hlocal]
          exact hnone
      · next hlocal =>
          cases h
          rw [if_neg hlocal]
          exact hinsert own
  | _ =>
      rw [hkind] at h
      cases h
      exact hnone

lemma mem_defined_of_statements {statements : List Statement}
    (h : statements.foldlM (define path) s = .ok t) :
    name ∈ t.defined ↔
      name ∈ s.defined ∨ ∃ statement ∈ statements, statement.publicName? = some name := by
  induction statements generalizing s with
  | nil =>
      cases h
      simp
  | cons statement statements ih =>
      rw [List.foldlM_cons] at h
      obtain ⟨next, hnext, h⟩ := Outcome.bind_eq_ok_iff.mp h
      rw [ih h, mem_defined_of_define hnext, or_assoc]
      simp

lemma mem_defined_of_files {files : List SourceFile} (h : files.foldlM defineFile s = .ok t) :
    name ∈ t.defined ↔ name ∈ s.defined ∨
      ∃ file ∈ files, ∃ statement ∈ file.statements, statement.publicName? = some name := by
  induction files generalizing s with
  | nil =>
      cases h
      simp
  | cons file files ih =>
      rw [List.foldlM_cons] at h
      obtain ⟨next, hnext, h⟩ := Outcome.bind_eq_ok_iff.mp h
      rw [ih h, mem_defined_of_statements hnext, or_assoc]
      simp

end Scopes

/-- The table of some files has exactly the public names that their statements define. -/
lemma contains_iff_of_ofFiles {files : List SourceFile} {symbols : SymbolTable}
    (h : ofFiles files = .ok symbols) :
    symbols.contains name = true ↔
      ∃ file ∈ files, ∃ statement ∈ file.statements, statement.publicName? = some name := by
  obtain ⟨t, ht, rfl⟩ := Outcome.map_eq_ok_iff.mp h
  rw [contains, decide_eq_true_iff, Scopes.mem_defined_of_files ht]
  have hempty : name ∉ ({} : Scopes).defined := List.not_mem_nil
  rw [or_iff_right hempty]

end SymbolTable

end Hermetic

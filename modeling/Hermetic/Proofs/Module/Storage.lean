/-
Zero-initialised storage of a module.

A directive that switches to a section ends the section before it.  Some sections are
zero-initialised storage, which holds no code and whose public labels get accessors.

* `NameMap.ofList`, `NameMap.get?_ofList`: names with the values that were set last;
* `Statement.OpensBss`, `Statement.EndsInBss`: the directives that switch to zero-initialised
  storage, and statements of which the last that switches does so;
* `Statement.flagged`, `Statement.flag_iff_endsInBss`: the statements of a file, each with the flag
  that it is sealed with, and what the flag tells;
* `Statement.stored?`, `SourceFile.stored`: the accessors that statements ask for, in order;
* `StorageTracked`, `sealed_storageTracked`: what is known of the storage of every module that is
  sealed.
-/
import Mathlib.Data.List.Induction
import Hermetic.Proofs.Module.Helpers
import Hermetic.Proofs.Module.LabelNames
import Hermetic.Proofs.Sealing.Section

namespace Hermetic

/-! ### Names with values -/

namespace NameMap

/-- The names of a list with the values that they have there, of two values of one name the
later. -/
def ofList (l : List (String × String)) : NameMap :=
  l.foldl (fun m p => m.insert p.1 p.2) empty

/-- A name has the value that it was given last. -/
lemma get?_ofList (l : List (String × String)) (a : String) :
    (ofList l).get? a = l.reverse.lookup a := by
  induction l using List.reverseRecOn with
  | nil => rfl
  | append_singleton l p ih =>
      have hlast : ofList (l ++ [p]) = (ofList l).insert p.1 p.2 := by
        rw [ofList, List.foldl_append]
        rfl
      rw [hlast, get?_insert, ih, List.reverse_append, List.reverse_singleton,
        List.singleton_append, List.lookup_cons]
      by_cases h : a = p.1 <;> simp [h, beq_false_of_ne]

end NameMap

/-! ### Statements -/

namespace Statement

variable {arch : Arch} {scope : Scope} {inBss : Bool} {s : Statement} {e : Emission}

/-- Whether a statement switches to another section. -/
def Switches (s : Statement) : Prop :=
  ∃ directive arguments, s.kind = .directive directive arguments ∧
    directive.toLower ∈ [".text", ".section", ".data", ".bss"]

/-- Whether a statement switches to zero-initialised storage. -/
def OpensBss (s : Statement) : Prop :=
  ∃ directive arguments, s.kind = .directive directive arguments ∧
    (directive.toLower = ".bss" ∨
      directive.toLower = ".section" ∧ Section.Extends ".bss" (Section.name arguments))

/-- Whether a statement switches to writable data. -/
def OpensData (s : Statement) : Prop :=
  ∃ directive arguments, s.kind = .directive directive arguments ∧
    (directive.toLower = ".data" ∨
      directive.toLower = ".section" ∧ Section.Extends ".data" (Section.name arguments))

/-- Whether the last of some statements that switches to another section switches to
zero-initialised storage. -/
def EndsInBss (statements : List Statement) : Prop :=
  ∃ earlier s later, statements = earlier ++ s :: later ∧ s.OpensBss ∧ ∀ t ∈ later, ¬ t.Switches

lemma not_endsInBss_nil : ¬ EndsInBss [] := by
  rintro ⟨earlier, s, later, h, -⟩
  simp at h

lemma endsInBss_concat {l : List Statement} :
    EndsInBss (l ++ [s]) ↔ s.OpensBss ∨ ¬ s.Switches ∧ EndsInBss l := by
  constructor
  · rintro ⟨earlier, t, later, h, hopens, hlater⟩
    induction later using List.reverseRecOn with
    | nil =>
      obtain ⟨rfl, rfl⟩ : l = earlier ∧ s = t := by simpa using h
      exact .inl hopens
    | append_singleton later u _ =>
      obtain ⟨rfl, rfl⟩ : l = earlier ++ t :: later ∧ s = u := by
        have hends : l ++ [s] = (earlier ++ t :: later) ++ [u] := by rw [h, List.append_assoc]; rfl
        obtain ⟨hl, hs⟩ := List.append_inj' hends rfl
        exact ⟨hl, List.singleton_inj.mp hs⟩
      exact .inr ⟨hlater s (by simp), earlier, t, later, rfl, hopens,
        fun v hv => hlater v (List.mem_append_left _ hv)⟩
  · rintro (hopens | ⟨hkeeps, earlier, t, later, rfl, hopens, hlater⟩)
    · exact ⟨l, s, [], rfl, hopens, nofun⟩
    · refine ⟨earlier, t, later ++ [s], by simp, hopens, fun v hv => ?_⟩
      rcases List.mem_append.mp hv with hv | hv
      · exact hlater v hv
      · rwa [List.mem_singleton.mp hv]

/-- The flag after a statement. -/
lemma bssAfter_eq_true_iff :
    bssAfter inBss s = true ↔ s.OpensBss ∨ ¬ s.Switches ∧ inBss = true := by
  -- only a directive changes the flag
  by_cases hdirective : ∃ directive arguments, s.kind = .directive directive arguments
  · obtain ⟨directive, arguments, hkind⟩ := hdirective
    have henters : Section.entersBss s.kind = true ↔ s.OpensBss := by
      rw [hkind, Section.entersBss]
      simp only [Bool.or_eq_true, Bool.and_eq_true, beq_iff_eq, Section.type_eq_bss_iff, OpensBss,
        hkind, Kind.directive.injEq]
      constructor
      · exact fun h => ⟨directive, arguments, ⟨rfl, rfl⟩, h⟩
      · rintro ⟨_, _, ⟨rfl, rfl⟩, h⟩
        exact h
    have hleaves : Section.leavesBss s.kind = true ∨ directive.toLower = ".bss" ↔ s.Switches := by
      rw [hkind, Section.leavesBss]
      simp only [List.contains_iff_mem, Switches, hkind, Kind.directive.injEq]
      constructor
      · intro h
        refine ⟨directive, arguments, ⟨rfl, rfl⟩, ?_⟩
        rcases h with h | h <;> grind
      · rintro ⟨_, _, ⟨rfl, rfl⟩, h⟩
        grind
    -- a directive that leaves the storage and enters it at once is that of the storage
    have hbss : directive.toLower = ".bss" → s.OpensBss := fun h => ⟨_, _, hkind, .inl h⟩
    rw [bssAfter, Bool.or_eq_true, Bool.and_eq_true, Bool.not_eq_true', ← Bool.not_eq_true, henters]
    grind
  · have henters : ¬ s.OpensBss := fun ⟨_, _, hkind, _⟩ => hdirective ⟨_, _, hkind⟩
    have hswitches : ¬ s.Switches := fun ⟨_, _, hkind, _⟩ => hdirective ⟨_, _, hkind⟩
    have hneither : Section.entersBss s.kind = false ∧ Section.leavesBss s.kind = false := by
      cases hkind : s.kind with
      | directive directive arguments => exact (hdirective ⟨_, _, hkind⟩).elim
      | _ => exact ⟨rfl, rfl⟩
    simp [bssAfter, hneither, henters, hswitches]

/-- Statements of which the first is sealed with a flag, each with its own. -/
def flagged (inBss : Bool) : List Statement → List (Statement × Bool)
  | [] => []
  | s :: statements => (s, inBss) :: flagged (bssAfter inBss s) statements

lemma getElem?_flagged {statements : List Statement} {i : ℕ} {b : Bool}
    (h : (flagged inBss statements)[i]? = some (s, b)) :
    statements[i]? = some s ∧ b = (statements.take i).foldl bssAfter inBss := by
  induction statements generalizing inBss i with
  | nil => cases h
  | cons t statements ih =>
      cases i with
      | zero =>
          cases h
          exact ⟨rfl, rfl⟩
      | succ i => exact ih h

/-- The flag of a statement tells whether the last directive before it that switches to another
section switches to zero-initialised storage. -/
lemma flag_iff_endsInBss {statements : List Statement} {i : ℕ} {b : Bool}
    (h : (flagged false statements)[i]? = some (s, b)) :
    b = true ↔ EndsInBss (statements.take i) := by
  rw [(getElem?_flagged h).2]
  generalize statements.take i = before
  induction before using List.reverseRecOn with
  | nil => exact iff_of_false Bool.false_ne_true not_endsInBss_nil
  | append_singleton before t ih =>
      rw [List.foldl_append, List.foldl_cons, List.foldl_nil, bssAfter_eq_true_iff, ih,
        endsInBss_concat]

/-- What is written for statements is written for each with its flag. -/
lemma forall₂_flagged {statements : List Statement} {emissions : List Emission}
    (h : Emits arch scope inBss statements emissions) :
    List.Forall₂ (fun p e => p.1.emission arch scope p.2 = .ok e) (flagged inBss statements)
      emissions := by
  induction h with
  | nil => exact .nil
  | cons he _ ih => exact .cons he ih

/-! ### Accessors -/

/-- The accessor that a statement asks for: that of a public label in zero-initialised storage, or
that of common storage. -/
def stored? (index : ℕ) (inBss : Bool) (s : Statement) : Option (String × String) :=
  match s.kind with
  | .label (.symbol name) => if inBss then some (name, Symbol.localAlias name) else none
  | .directive directive arguments =>
    if directive.toLower = ".comm" ∨ directive.toLower = ".lcomm" then
      (Piece.split arguments.toList).head?.map fun p =>
        let name := Symbol.localized (String.ofList p.text) index
        (name, name)
    else none
  | _ => none

end Statement

/-- The names and the targets of accessors. -/
def Helper.accessor? : Helper → Option (String × String)
  | accessor s target => some (s, target)
  | _ => none

/-- The accessors that the statements of a file ask for, in order. -/
def SourceFile.stored (file : SourceFile) : List (String × String) :=
  (Statement.flagged false file.statements).filterMap fun p => p.1.stored? file.index p.2

lemma Helpers.accessors_requestAll (hs : Helpers) (l : List Helper) :
    (hs.requestAll l).accessors =
      (l.filterMap Helper.accessor?).foldl (fun m p => m.insert p.1 p.2) hs.accessors := by
  unfold requestAll
  induction l generalizing hs with
  | nil => rfl
  | cons h l ih =>
      rw [List.foldl_cons, ih]
      rcases h with s | ⟨s, t⟩ | s | ⟨s, _ | _⟩ | _ <;> rfl

namespace Statement

variable {arch : Arch} {scope : Scope} {inBss : Bool} {s : Statement} {e : Emission}

lemma accessors_sealCommon {directive arguments : String}
    (h : sealCommon scope s directive arguments = .ok e) :
    e.helpers.filterMap Helper.accessor? =
      ((Piece.split arguments.toList).head?.map fun p =>
        let name := Symbol.localized (String.ofList p.text) scope.index
        (name, name)).toList := by
  unfold sealCommon at h
  split at h
  · cases h
  · next p hp =>
      rw [(Option.filter_eq_some_iff.mp hp).1]
      cases h
      dsimp only
      split <;> rfl

/-- What is written for a directive asks for the accessor of common storage. -/
lemma accessors_sealDirective {directive arguments : String}
    (hkind : s.kind = .directive directive arguments)
    (h : sealDirective scope s directive arguments = .ok e) :
    e.helpers.filterMap Helper.accessor? = (s.stored? scope.index inBss).toList := by
  rw [stored?, hkind]
  unfold sealDirective at h
  dsimp only at h ⊢
  split at h
  · next hcommon =>
      rw [if_pos hcommon]
      exact accessors_sealCommon h
  · next hcommon =>
      rw [if_neg hcommon]
      have hnone : e.helpers = [] := by
        refine List.eq_nil_iff_forall_not_mem.mpr fun helper hh => ?_
        have hsealed : sealDirective scope s directive arguments = .ok e := by
          rw [sealDirective, if_neg hcommon]
          exact h
        obtain ⟨_, ⟨d, a, p, hkind', hcommon', -⟩, -⟩ := helpers_of_sealDirective hkind hsealed hh
        rw [hkind] at hkind'
        cases hkind'
        exact hcommon hcommon'
      rw [hnone]
      rfl

/-- What is written for a statement asks for the accessor of its storage and for no other. -/
lemma accessors_of_emission (htag : arch = .x86_64 → OperandsTagged s)
    (h : s.emission arch scope inBss = .ok e) :
    e.helpers.filterMap Helper.accessor? = (s.stored? scope.index inBss).toList := by
  -- an instruction asks for lasting helpers only, and an accessor is none
  by_cases hinsn : ∃ insn, s.kind = .instruction insn
  · obtain ⟨insn, hinsn⟩ := hinsn
    rw [stored?, hinsn, Option.toList_none, List.filterMap_eq_nil_iff]
    intro helper hh
    have hlasting := (known_of_mem_helpers htag hinsn h hh).1
    cases helper with
    | accessor => exact hlasting.elim
    | _ => rfl
  · cases hkind : s.kind with
    | instruction insn => exact (hinsn ⟨insn, hkind⟩).elim
    | directive directive arguments =>
        have hsealed : sealDirective scope s directive arguments = .ok e := by
          rw [emission.eq_def, hkind] at h
          cases inBss <;> simpa only [sealCode, hkind] using h
        exact accessors_sealDirective hkind hsealed
    | label label =>
        rw [emission.eq_def, hkind] at h
        rw [stored?, hkind]
        cases label with
        | symbol name =>
            cases inBss with
            | true =>
                cases h
                rfl
            | false =>
                simp only [sealCode, hkind] at h
                cases h
                rfl
        | _ =>
            cases inBss <;> (simp only [sealCode, hkind] at h; cases h; rfl)
    | _ =>
        have hnone : e.helpers = [] := by
          refine List.eq_nil_iff_forall_not_mem.mpr fun helper hh => ?_
          obtain ⟨_, ⟨⟨d, a, p, hkind', -⟩, -⟩ | ⟨hkind', -⟩⟩ :=
            accessor_of_emission (fun insn hk => hinsn ⟨insn, hk⟩) h hh
          · rw [hkind] at hkind'
            cases hkind'
          · rw [hkind] at hkind'
            cases hkind'
        rw [hnone, stored?, hkind]
        rfl

/-- A statement for which something is written does not switch to writable data. -/
lemma not_opensData (h : s.emission arch scope inBss = .ok e) : ¬ s.OpensData := by
  rintro ⟨directive, arguments, hkind, hopens⟩
  have hsealed : sealDirective scope s directive arguments = .ok e := by
    rw [emission.eq_def, hkind] at h
    cases inBss <;> simpa only [sealCode, hkind] using h
  rcases hopens with hlower | ⟨hlower, hextends⟩
  · simp [sealDirective, hlower] at hsealed
  · have hsection : sealDirective scope s directive arguments = sealSection s arguments := by
      simp [sealDirective, hlower]
    rw [hsection] at hsealed
    simp only [sealSection, Section.type_eq_data_iff.mpr hextends] at hsealed
    split at hsealed <;> cases hsealed

end Statement

/-! ### Modules -/

/-- What is known of the storage in the files of a module that is sealed, and of the accessors that
are there in the end. -/
structure StorageTracked (arch : Arch) (scope : SourceFile → Scope) (files : List SourceFile)
    (helpers : Helpers) : Prop where
  /-- Every statement is sealed with its flag. -/
  sealed : ∀ file ∈ files, ∃ emissions, List.Forall₂
    (fun p e => p.1.sealed arch (scope file) p.2 = .ok (e, Statement.bssAfter p.2 p.1))
    (Statement.flagged false file.statements) emissions
  flag : ∀ file ∈ files, ∀ i s inBss,
    (Statement.flagged false file.statements)[i]? = some (s, inBss) →
      (inBss = true ↔ Statement.EndsInBss (file.statements.take i))
  noCode : ∀ file ∈ files, ∀ s, (s, true) ∈ Statement.flagged false file.statements →
    ∀ insn, s.kind ≠ .instruction insn
  noData : ∀ file ∈ files, ∀ s ∈ file.statements, ¬ s.OpensData
  accessors : helpers.accessors = NameMap.ofList (files.flatMap SourceFile.stored)
  /-- Of two accessors with one name the later is there. -/
  lookup : ∀ name, helpers.accessors.get? name =
    (files.flatMap SourceFile.stored).reverse.lookup name

namespace CodeModule

variable {m : CodeModule} {r : Sealed} {files : List SourceFile} {symbols : SymbolTable}
variable {emissions : List Emission}

lemma filterMap_accessor?_of_emits {arch : Arch} {scope : Scope} {inBss : Bool}
    {statements : List Statement} (htag : ∀ s ∈ statements, arch = .x86_64 → s.OperandsTagged)
    (h : Emits arch scope inBss statements emissions) :
    (emissions.flatMap (·.helpers)).filterMap Helper.accessor? =
      (Statement.flagged inBss statements).filterMap fun p => p.1.stored? scope.index p.2 := by
  induction h with
  | nil => rfl
  | @cons inBss s e statements emissions he _ ih =>
      have hrest := ih fun t ht => htag t (List.mem_cons_of_mem _ ht)
      rw [List.flatMap_cons, List.filterMap_append, hrest,
        Statement.accessors_of_emission (htag s List.mem_cons_self) he, Statement.flagged,
        List.filterMap_cons]
      cases s.stored? scope.index inBss <;> rfl

/-- The accessors that a module asks for are those of its storage, in order. -/
lemma filterMap_accessor?_of_emitsAll {arch : Arch} {marker : String}
    (htag : ∀ file ∈ files, ∀ s ∈ file.statements, arch = .x86_64 → s.OperandsTagged)
    (h : EmitsAll arch symbols marker files emissions) :
    (emissions.flatMap (·.helpers)).filterMap Helper.accessor? =
      files.flatMap SourceFile.stored := by
  induction h with
  | nil => rfl
  | @cons file files first rest hfile _ ih =>
      rw [List.flatMap_append, List.filterMap_append, List.flatMap_cons,
        ih fun f hf => htag f (List.mem_cons_of_mem _ hf),
        filterMap_accessor?_of_emits (htag file List.mem_cons_self) hfile]
      rfl

lemma EmitsAll.exists_emits {arch : Arch} {marker : String}
    (h : EmitsAll arch symbols marker files emissions) {file : SourceFile} (hf : file ∈ files) :
    ∃ own, Emits arch ⟨symbols, marker, file.index⟩ false file.statements own := by
  induction h with
  | nil => cases hf
  | cons hfile _ ih =>
      rcases List.mem_cons.mp hf with rfl | hf
      · exact ⟨_, hfile⟩
      · exact ih hf

lemma SealedFrom.storageTracked (h : SealedFrom m r files symbols emissions) :
    StorageTracked r.arch (fun file => ⟨symbols, m.marker, file.index⟩) files r.helpers := by
  have haccessors : r.helpers.accessors = NameMap.ofList (files.flatMap SourceFile.stored) := by
    rw [h.requested, Helpers.accessors_requestAll,
      filterMap_accessor?_of_emitsAll (fun file hf s hs => h.operandsTagged hf hs) h.emits]
    rfl
  refine ⟨fun file hf => ?_, fun file _ i s inBss => Statement.flag_iff_endsInBss,
    fun file hf s hs insn hinsn => ?_, fun file hf s hs => ?_, haccessors, fun name => ?_⟩
  · obtain ⟨own, hown⟩ := EmitsAll.exists_emits h.emits hf
    refine ⟨own, (Statement.forall₂_flagged hown).imp fun p e he => ?_⟩
    rw [Statement.sealed, he]
    rfl
  · obtain ⟨own, hown⟩ := EmitsAll.exists_emits h.emits hf
    obtain ⟨e, -, he⟩ := Outcome.exists_of_mem_forall₂ (Statement.forall₂_flagged hown).flip hs
    rw [Statement.emission.eq_def, hinsn] at he
    cases he
  · obtain ⟨e, -, b, he⟩ := h.emits.exists_mem hf hs
    exact Statement.not_opensData he
  · rw [haccessors, NameMap.get?_ofList]

/-- Zero-initialised storage is told from other sections in every module that is sealed, and decides
the accessors. -/
theorem sealed_storageTracked (h : m.sealed = .ok r) : ∃ files symbols emissions,
    SealedFrom m r files symbols emissions ∧
      StorageTracked r.arch (fun file => ⟨symbols, m.marker, file.index⟩) files r.helpers := by
  obtain ⟨files, symbols, emissions, hfrom⟩ := exists_sealedFrom h
  exact ⟨files, symbols, emissions, hfrom, hfrom.storageTracked⟩

/-- A public label in zero-initialised storage, another after a switch in capital letters, and
common storage of the name of the first. -/
theorem sealed_storageTracked_common :
    let m := together [".section \".bss.a\"\nx:\n.TEXT\nf:\n.comm y,8\n.comm x,4\n"]
    ∃ r files symbols emissions, m.sealed = .ok r ∧ SealedFrom m r files symbols emissions ∧
      files.flatMap SourceFile.stored = [("x", ".Lx_local_target"), ("y", "y"), ("x", "x")] ∧
      r.helpers.accessors.get? "x" = some "x" ∧
      StorageTracked r.arch (fun file => ⟨symbols, m.marker, file.index⟩) files r.helpers := by
  intro m
  have hsealable : Sealable [".section \".bss.a\"\nx:\n.TEXT\nf:\n.comm y,8\n.comm x,4\n"]
      (fun files => files.flatMap SourceFile.stored =
        [("x", ".Lx_local_target"), ("y", "y"), ("x", "x")]) = true := by decide +kernel
  obtain ⟨r, files, h, hread, hstored⟩ := exists_sealed_of_sealable hsealable
  obtain ⟨files', symbols, emissions, hfrom, htracked⟩ := sealed_storageTracked h
  obtain rfl : files = files' := Except.ok.inj (hread.symm.trans hfrom.read)
  have hlist := of_decide_eq_true hstored
  refine ⟨r, files, symbols, emissions, h, hfrom, hlist, ?_, htracked⟩
  rw [htracked.lookup, hlist]
  rfl

end CodeModule

end Hermetic

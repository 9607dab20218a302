/-
The labels of a module where they stand, and the one that is refused.

A public label takes its name in the module and a local one in its file.  The first label whose name
is taken already is refused, and the error has its place and that of the label which took the name.

* `LabelSite`: a label with the scope of its name and its place;
* `LabelSite.ofFiles`: the labels of some files, in the order of files and statements;
* `SymbolTable.Scopes.Remembers`: names that are taken have the places of the labels so far;
* `SymbolTable.ofFiles_exact`: when files have a table, what it contains, and which label is refused
  if they have none.
-/
import Hermetic.Proofs.Sealing.LocalLabels
import Hermetic.Proofs.Symbol.Claimed

namespace Hermetic

/-! ### Labels and their places -/

/-- A label and its place.  Its name is taken in the module, or in one of its files if it is
local. -/
structure LabelSite where
  file? : Option ℕ
  name : String
  site : Location
deriving DecidableEq, Repr

/-- The name that a label takes, with its scope. -/
def LabelSite.taken (l : LabelSite) : Option ℕ × String :=
  (l.file?, l.name)

/-- The label that a statement of a file defines. -/
def Statement.labelSite? (file : ℕ) (path : String) (s : Statement) : Option LabelSite :=
  match s.kind with
  | .label (.symbol name) => some ⟨none, name, ⟨path, s.span⟩⟩
  | .label (.dotLocal name) => some ⟨some file, name, ⟨path, s.span⟩⟩
  | _ => none

/-- The labels of files, which are numbered. -/
def LabelSite.ofFiles : ℕ → List SourceFile → List LabelSite
  | _, [] => []
  | file, f :: files =>
    f.statements.filterMap (·.labelSite? file f.path) ++ ofFiles (file + 1) files

namespace LabelSite

variable {sites : List LabelSite} {name : Option ℕ × String}

/-- The earliest label that takes a name. -/
def earliest? (sites : List LabelSite) (name : Option ℕ × String) : Option LabelSite :=
  sites.find? (·.taken = name)

lemma earliest?_append_singleton (l : LabelSite) : earliest? (sites ++ [l]) name =
    (earliest? sites name).or (if l.taken = name then some l else none) := by
  rw [earliest?, earliest?, List.find?_append, List.find?_singleton]
  congr 1
  split <;> simp_all

lemma earliest?_eq_none_iff : earliest? sites name = none ↔ name ∉ sites.map taken := by
  simp [earliest?, List.find?_eq_none]

end LabelSite

namespace SymbolTable.Scopes

open LabelSite

variable {s t : Scopes} {sites : List LabelSite} {l first : LabelSite} {file : ℕ} {path : String}
variable {e : Error}

/-! ### Names that are taken -/

/-- The names that are taken have the places of the labels so far, which are different.  The local
ones are those of the file at hand, and no later file has any. -/
structure Remembers (file : ℕ) (sites : List LabelSite) (s : Scopes) : Prop where
  labels : ∀ name, s.labels[name]? = (earliest? sites (none, name)).map LabelSite.site
  locals : ∀ name, s.locals[name]? = (earliest? sites (some file, name)).map LabelSite.site
  nodup : (sites.map LabelSite.taken).Nodup
  le : ∀ l ∈ sites, ∀ other ∈ l.file?, other ≤ file

/-- A label whose name is taken, and the error that has the places of both. -/
def Refused (sites : List LabelSite) (e : Error) : Prop :=
  ∃ before l after first, sites = before ++ l :: after ∧ (before.map LabelSite.taken).Nodup ∧
    earliest? before l.taken = some first ∧ e = .duplicateSymbol l.name l.site first.site

lemma Refused.append (h : Refused sites e) (more : List LabelSite) : Refused (sites ++ more) e := by
  obtain ⟨before, l, after, first, rfl, hrest⟩ := h
  exact ⟨before, l, after ++ more, first, by simp, hrest⟩

/-- The outcome after some labels: scopes that remember them, or an error that refuses one. -/
def Follows (file : ℕ) (sites : List LabelSite) : Except Error Scopes → Prop
  | .ok t => Remembers file sites t
  | .error e => Refused sites e

/-- A name is refused with the place where it was taken first. -/
lemma claim_eq {places : Std.HashMap String Location} {name : String} {scope : Option ℕ}
    (hplaces : places[name]? = (earliest? sites (scope, name)).map LabelSite.site)
    (site : Location) : claim places name site =
      match earliest? sites (scope, name) with
      | some first => .error (.duplicateSymbol name site first.site)
      | none => .ok (places.insert name site) := by
  rw [claim, hplaces]
  cases earliest? sites (scope, name) <;> rfl

/-- The places of the labels so far with one more label, if it is of their scope. -/
lemma getElem?_insert {places : Std.HashMap String Location} {scope : Option ℕ}
    (hplaces : ∀ name, places[name]? = (earliest? sites (scope, name)).map LabelSite.site)
    (hscope : l.file? = scope) (hfree : earliest? sites l.taken = none) (name : String) :
    (places.insert l.name l.site)[name]? =
      (earliest? (sites ++ [l]) (scope, name)).map LabelSite.site := by
  rw [Std.HashMap.getElem?_insert, earliest?_append_singleton, hplaces]
  subst hscope
  by_cases hname : l.name = name
  · subst hname
    rw [show (l.file?, l.name) = l.taken from rfl, hfree]
    simp
  · have hne : l.taken ≠ (l.file?, name) := fun h => hname (Prod.ext_iff.mp h).2
    simp [hname, hne]

/-- A label of another scope does not matter. -/
lemma getElem?_of_ne {places : Std.HashMap String Location} {scope : Option ℕ}
    (hplaces : ∀ name, places[name]? = (earliest? sites (scope, name)).map LabelSite.site)
    (hscope : l.file? ≠ scope) (name : String) :
    places[name]? = (earliest? (sites ++ [l]) (scope, name)).map LabelSite.site := by
  have hne : l.taken ≠ (scope, name) := fun h => hscope (Prod.ext_iff.mp h).1
  rw [hplaces, earliest?_append_singleton, if_neg hne, Option.or_none]

lemma nodup_append_singleton (hnodup : (sites.map LabelSite.taken).Nodup)
    (hfree : earliest? sites l.taken = none) : ((sites ++ [l]).map LabelSite.taken).Nodup := by
  rw [List.map_append, List.nodup_append']
  refine ⟨hnodup, List.nodup_singleton _, fun name hname hl => ?_⟩
  rw [List.mem_singleton.mp hl] at hname
  exact earliest?_eq_none_iff.mp hfree hname

lemma Remembers.le_append (h : Remembers file sites s) (hl : ∀ other ∈ l.file?, other ≤ file) :
    ∀ k ∈ sites ++ [l], ∀ other ∈ k.file?, other ≤ file := by
  intro k hk
  rcases List.mem_append.mp hk with hk | hk
  · exact h.le k hk
  · rwa [List.mem_singleton.mp hk]

lemma refused_of_earliest? (h : Remembers file sites s)
    (hfirst : earliest? sites l.taken = some first) :
    Refused (sites ++ [l]) (.duplicateSymbol l.name l.site first.site) :=
  ⟨sites, l, [], first, rfl, h.nodup, hfirst, rfl⟩

/-- A statement takes the name of its label, or is refused. -/
lemma follows_define (h : Remembers file sites s) (statement : Statement) :
    Follows file (sites ++ (statement.labelSite? file path).toList)
      (s.define path statement) := by
  have hsame : Remembers file (sites ++ []) s := by rwa [List.append_nil]
  unfold define Statement.labelSite?
  -- a public label is kept for all files, and a local one for its own
  cases hkind : statement.kind with
  | label label =>
      cases label with
      | symbol name =>
          set l : LabelSite := ⟨none, name, ⟨path, statement.span⟩⟩
          dsimp only
          rw [claim_eq (h.labels name)]
          cases hfirst : earliest? sites (none, name) with
          | some first => exact refused_of_earliest? (l := l) h hfirst
          | none =>
              exact {
                labels := getElem?_insert (l := l) h.labels rfl hfirst
                locals := getElem?_of_ne (l := l) h.locals (Option.some_ne_none _).symm
                nodup := nodup_append_singleton (l := l) h.nodup hfirst
                le := h.le_append fun other hother => absurd hother (Option.some_ne_none _).symm }
      | dotLocal name =>
          set l : LabelSite := ⟨some file, name, ⟨path, statement.span⟩⟩
          dsimp only
          rw [claim_eq (h.locals name)]
          cases hfirst : earliest? sites (some file, name) with
          | some first => exact refused_of_earliest? (l := l) h hfirst
          | none =>
              exact {
                labels := getElem?_of_ne (l := l) h.labels (Option.some_ne_none _)
                locals := getElem?_insert (l := l) h.locals rfl hfirst
                nodup := nodup_append_singleton (l := l) h.nodup hfirst
                le := h.le_append fun other hother => (Option.some.inj hother).ge }
      | numeric => exact hsame
  | binding directive name value =>
      dsimp only
      split
      · exact hsame
      · exact ⟨hsame.labels, hsame.locals, hsame.nodup, hsame.le⟩
  | _ => exact hsame

/-- Statements take the names of their labels, up to the first that is refused. -/
lemma follows_statements (h : Remembers file sites s) (statements : List Statement) :
    Follows file (sites ++ statements.filterMap (·.labelSite? file path))
      (statements.foldlM (define path) s) := by
  induction statements generalizing s sites with
  | nil =>
      rw [List.filterMap_nil, List.append_nil]
      exact h
  | cons statement statements ih =>
      rw [List.filterMap_eq_flatMap_toList, List.flatMap_cons, ← List.filterMap_eq_flatMap_toList,
        List.foldlM_cons, ← List.append_assoc]
      have hstep : Follows file _ (s.define path statement) := follows_define h statement
      cases hnext : s.define path statement with
      | error e =>
          rw [hnext] at hstep
          exact hstep.append _
      | ok next =>
          rw [hnext] at hstep
          exact ih hstep

/-- A file begins without local names: those that are taken are of files before it. -/
lemma remembers_begin
    (hlabels : ∀ name, s.labels[name]? = (earliest? sites (none, name)).map LabelSite.site)
    (hnodup : (sites.map LabelSite.taken).Nodup)
    (hlt : ∀ l ∈ sites, ∀ other ∈ l.file?, other < file) :
    Remembers file sites { s with locals := {} } where
  labels := hlabels
  locals name := by
    have hfree : earliest? sites (some file, name) = none := by
      refine earliest?_eq_none_iff.mpr fun hmem => ?_
      obtain ⟨l, hl, htaken⟩ := List.mem_map.mp hmem
      exact Nat.lt_irrefl file (hlt l hl file (Prod.ext_iff.mp htaken).1)
    rw [hfree]
    exact Std.HashMap.getElem?_empty
  nodup := hnodup
  le l hl other hother := (hlt l hl other hother).le

/-- If files are refused, so is the first of their labels whose name is taken. -/
lemma refused_of_files {files : List SourceFile}
    (hlabels : ∀ name, s.labels[name]? = (earliest? sites (none, name)).map LabelSite.site)
    (hnodup : (sites.map LabelSite.taken).Nodup)
    (hlt : ∀ l ∈ sites, ∀ other ∈ l.file?, other < file)
    (h : files.foldlM defineFile s = .error e) :
    Refused (sites ++ LabelSite.ofFiles file files) e := by
  -- by the files: the first one that is refused, or one after it
  induction files generalizing s sites file with
  | nil => cases h
  | cons f files ih =>
      rw [List.foldlM_cons] at h
      rw [LabelSite.ofFiles, ← List.append_assoc]
      have hstep : Follows file _ (f.statements.foldlM (define f.path) { s with locals := {} }) :=
        follows_statements (remembers_begin hlabels hnodup hlt) f.statements
      cases hnext : s.defineFile f with
      | error e' =>
          rw [hnext] at h
          cases h
          rw [defineFile] at hnext
          rw [hnext] at hstep
          exact hstep.append _
      | ok next =>
          rw [hnext] at h
          rw [defineFile] at hnext
          rw [hnext] at hstep
          exact ih hstep.labels hstep.nodup
            (fun l hl other hother => Nat.lt_succ_of_le (hstep.le l hl other hother)) h

end SymbolTable.Scopes

/-! ### Tables -/

namespace SymbolTable

variable {files : List SourceFile} {symbols : SymbolTable} {e : Error}

/-- Files have a table or a label that is refused. -/
lemma refused_of_ofFiles (h : ofFiles files = .error e) :
    Scopes.Refused (LabelSite.ofFiles 0 files) e := by
  rw [ofFiles] at h
  cases hfiles : files.foldlM Scopes.defineFile {} with
  | error e' =>
      rw [hfiles] at h
      cases h
      have hrefused : Scopes.Refused ([] ++ LabelSite.ofFiles 0 files) e :=
        Scopes.refused_of_files (fun name => Std.HashMap.getElem?_empty) List.nodup_nil
          (fun l hl => (List.not_mem_nil hl).elim) hfiles
      exact hrefused
  | ok t =>
      rw [hfiles] at h
      cases h

/-- A public name is that of a public label, or is bound by a directive. -/
lemma publicName?_eq_some_iff {s : Statement} {name : String} : s.publicName? = some name ↔
    s.kind = .label (.symbol name) ∨
      Symbol.isDotLocal name = false ∧
        ∃ directive value, s.kind = .binding directive name value := by
  unfold Statement.publicName?
  split
  · next hkind => simp [hkind]
  · next directive own value hkind =>
      rw [hkind]
      split
      · next hlocal =>
          simp only [reduceCtorEq, false_or, false_iff, Statement.Kind.binding.injEq]
          rintro ⟨hpublic, directive', value', -, rfl, -⟩
          rw [hlocal] at hpublic
          cases hpublic
      · next hpublic =>
          rw [Option.some_inj]
          refine ⟨?_, ?_⟩
          · rintro rfl
            exact .inr ⟨Bool.eq_false_iff.mpr hpublic, directive, value, rfl⟩
          · rintro (hlabel | ⟨-, directive', value', hbinding⟩)
            · cases hlabel
            · cases hbinding
              rfl
  · next hlabel hbinding =>
      simp only [reduceCtorEq, false_iff, not_or, not_and, not_exists]
      exact ⟨hlabel name, fun _ directive value => hbinding directive name value⟩

/-- The public names of a file that is read are not local. -/
lemma isDotLocal_of_publicName? {f : SourceFile} {text : String} {arch : Arch}
    (h : SourceFile.parse f.path f.index text arch = .ok f) {s : Statement} (hs : s ∈ f.statements)
    {name : String} (hname : s.publicName? = some name) : Symbol.isDotLocal name = false := by
  have hparse : Statement.parse arch text = .ok f.statements := by
    unfold SourceFile.parse at h
    split at h
    · cases h
    · next statements hparse =>
        rw [hparse, ← Except.ok.inj h]
  rcases publicName?_eq_some_iff.mp hname with hkind | ⟨hlocal, -⟩
  · exact Statement.isDotLocal_of_shape_label (Statement.shape_of_label hparse hs hkind)
  · exact hlocal

/-- What is known of the table of some files. -/
structure Exact (files : List SourceFile) : Prop where
  /-- There is one exactly if the public labels are different, and so are the local labels of each
  file. -/
  succeeds : (∃ symbols, ofFiles files = .ok symbols) ↔
    (files.flatMap SourceFile.publicLabels).Nodup ∧ ∀ f ∈ files, f.localLabels.Nodup
  /-- It has the names of public labels and the public names that are bound. -/
  mem_iff : ∀ symbols, ofFiles files = .ok symbols → ∀ name,
    name ∈ symbols.defined.toList ↔ ∃ f ∈ files, ∃ s ∈ f.statements,
      s.kind = .label (.symbol name) ∨
        Symbol.isDotLocal name = false ∧ ∃ directive value, s.kind = .binding directive name value
  /-- They are in order. -/
  increasing : ∀ symbols, ofFiles files = .ok symbols → symbols.defined.toList.Pairwise (· < ·)
  /-- None of them is local. -/
  isPublic : ∀ symbols, ofFiles files = .ok symbols → ∀ name ∈ symbols.defined.toList,
    Symbol.isDotLocal name = false
  /-- If there is none, a label is refused: the labels before it take different names, and the
  earliest that takes its name is the other one of the error. -/
  refused : ∀ e, ofFiles files = .error e → ∃ before l after first,
    LabelSite.ofFiles 0 files = before ++ l :: after ∧
      (before.map LabelSite.taken).Nodup ∧
      LabelSite.earliest? before l.taken = some first ∧
      e = .duplicateSymbol l.name l.site first.site

/-- The table of files that are read is exact. -/
theorem ofFiles_exact
    (h : ∀ f ∈ files, ∃ text arch, SourceFile.parse f.path f.index text arch = .ok f) :
    Exact files := by
  have hmem (symbols : SymbolTable) (hsymbols : ofFiles files = .ok symbols) (name : String) :
      name ∈ symbols.defined.toList ↔
        ∃ f ∈ files, ∃ s ∈ f.statements, s.publicName? = some name := by
    rw [← contains_iff_of_ofFiles hsymbols, contains, decide_eq_true_iff, NameSet.mem_toList]
  exact {
    succeeds := by
      constructor
      · rintro ⟨symbols, hsymbols⟩
        obtain ⟨hlabels, hlocals, -⟩ := ofFiles_eq_ok_iff.mp hsymbols
        exact ⟨hlabels, hlocals⟩
      · rintro ⟨hlabels, hlocals⟩
        exact ⟨_, ofFiles_eq_ok_iff.mpr ⟨hlabels, hlocals, rfl⟩⟩
    mem_iff := by simpa only [publicName?_eq_some_iff] using hmem
    increasing := fun symbols _ => symbols.defined.increasing
    isPublic := by
      intro symbols hsymbols name hname
      obtain ⟨f, hf, s, hs, hpublic⟩ := (hmem symbols hsymbols name).mp hname
      obtain ⟨text, arch, hparse⟩ := h f hf
      exact isDotLocal_of_publicName? hparse hs hpublic
    refused := fun e he => refused_of_ofFiles he }

/-- Two files with a local label of the same name each, and a public label that both define: that of
the second is refused. -/
theorem ofFiles_exact_pair : ∃ files,
    (∀ f ∈ files, ∃ text arch, SourceFile.parse f.path f.index text arch = .ok f) ∧
      (∃ e, ofFiles files = .error e) ∧ Exact files := by
  let first : SourceFile := ⟨"a.s", 0, [
    ⟨.label (.symbol "foo"), "foo:", ⟨1, 1, 0, 4⟩⟩, ⟨.blank, "\n", ⟨1, 5, 4, 1⟩⟩,
    ⟨.label (.dotLocal ".L1"), ".L1:", ⟨2, 1, 5, 4⟩⟩, ⟨.blank, "\n", ⟨2, 5, 9, 1⟩⟩]⟩
  let second : SourceFile := ⟨"b.s", 1, [
    ⟨.label (.dotLocal ".L1"), ".L1:", ⟨1, 1, 0, 4⟩⟩, ⟨.blank, "\n", ⟨1, 5, 4, 1⟩⟩,
    ⟨.label (.symbol "foo"), "foo:", ⟨2, 1, 5, 4⟩⟩, ⟨.blank, "\n", ⟨2, 5, 9, 1⟩⟩]⟩
  have hfirst : SourceFile.parse "a.s" 0 "foo:\n.L1:\n" .x86_64 = .ok first := by decide +kernel
  have hsecond : SourceFile.parse "b.s" 1 ".L1:\nfoo:\n" .x86_64 = .ok second := by decide +kernel
  have htwice : ¬ ([first, second].flatMap SourceFile.publicLabels).Nodup := by decide
  have hrefused : ∃ e, ofFiles [first, second] = .error e := by
    cases hsymbols : ofFiles [first, second] with
    | error e => exact ⟨e, rfl⟩
    | ok symbols => exact (htwice (ofFiles_eq_ok_iff.mp hsymbols).1).elim
  have hread : ∀ f ∈ [first, second],
      ∃ text arch, SourceFile.parse f.path f.index text arch = .ok f := by
    intro f hf
    rcases List.mem_pair.mp hf with rfl | rfl
    · exact ⟨_, _, hfirst⟩
    · exact ⟨_, _, hsecond⟩
  exact ⟨[first, second], hread, hrefused, ofFiles_exact hread⟩

end SymbolTable

end Hermetic

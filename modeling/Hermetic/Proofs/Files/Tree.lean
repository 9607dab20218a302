/-
Files that are written.

* `FileTree.isDirectory_set`: no directory is lost where a file is written;
* `FileTree.locate_of_isDirectory`: a path leads to the same place in a tree with more directories;
* `FileTree.write_eq_ok_iff`: when a file is written, and what the tree is then;
* `FileTree.read_of_write`: what was written under a path is read under it.
-/
import Hermetic.Files.Tree
import Hermetic.Proofs.Outcome

namespace Hermetic.FileTree

variable {t u : FileTree} {place : Place} {path : String} {contents : List UInt8}

/-! ### Directories -/

lemma isDirectory_set {d : Place} (h : t.isDirectory d = true) :
    (t.set place contents).isDirectory d = true := by
  rw [isDirectory, Bool.or_eq_true] at h ⊢
  refine h.imp_right fun hbelow => ?_
  obtain ⟨f, hf, hprefix⟩ := List.any_eq_true.mp hbelow
  rw [List.any_eq_true]
  by_cases hplace : f.1 = place
  · refine ⟨(place, contents), List.mem_cons_self, ?_⟩
    rwa [hplace] at hprefix
  · exact ⟨f, List.mem_cons_of_mem _ (List.mem_filter.mpr ⟨hf, by simpa using hplace⟩), hprefix⟩

/-- Every piece of a path but the last leads to a directory, so more directories change
nothing. -/
lemma locateFrom_of_isDirectory (hdirs : ∀ d, t.isDirectory d = true → u.isDirectory d = true)
    {start : Place} {pieces : List String} (h : t.locateFrom start pieces = .ok place) :
    u.locateFrom start pieces = .ok place := by
  -- by the pieces, which lead the same way in both trees
  induction pieces generalizing start with
  | nil => exact h
  | cons p ps ih =>
      rw [locateFrom] at h ⊢
      by_cases hstart : t.isDirectory start = true
      · rw [if_pos hstart] at h
        rw [if_pos (hdirs start hstart)]
        by_cases hsilent : Path.isSilent p = true
        · rw [if_pos hsilent] at h ⊢
          exact ih h
        rw [if_neg hsilent] at h ⊢
        by_cases hup : p = ".."
        · rw [if_pos hup] at h ⊢
          exact ih h
        rw [if_neg hup] at h ⊢
        by_cases hlong : p.utf8ByteSize > Place.maxNameBytes
        · rw [if_pos hlong] at h
          cases h
        · rw [if_neg hlong] at h ⊢
          exact ih h
      · rw [if_neg hstart] at h
        split at h <;> cases h

lemma locate_of_isDirectory (hdirs : ∀ d, t.isDirectory d = true → u.isDirectory d = true)
    (h : t.locate path = .ok place) : u.locate path = .ok place := by
  obtain ⟨pieces, hpieces, h⟩ := Outcome.bind_eq_ok_iff.mp h
  refine Outcome.bind_eq_ok_iff.mpr ⟨pieces, hpieces, ?_⟩
  unfold locatePieces at h ⊢
  split at h <;> exact locateFrom_of_isDirectory hdirs h

/-! ### Files -/

/-- The place where a file is written is the one that the path leads to. -/
lemma locate_of_locateNew (h : t.locateNew path = .ok place) : t.locate path = .ok place := by
  obtain ⟨pieces, hpieces, h⟩ := Outcome.bind_eq_ok_iff.mp h
  split at h
  · obtain ⟨_, -, h⟩ := Outcome.bind_eq_ok_iff.mp h
    cases h
  · obtain ⟨found, hfound, h⟩ := Outcome.bind_eq_ok_iff.mp h
    split at h
    · cases h
    · cases h
      exact Outcome.bind_eq_ok_iff.mpr ⟨pieces, hpieces, hfound⟩

lemma write_eq_ok_iff : t.write path contents = .ok u ↔
    ∃ place, t.locateNew path = .ok place ∧ place ≠ Place.full ∧ u = t.set place contents := by
  rw [write, Outcome.bind_eq_ok_iff]
  refine exists_congr fun place => and_congr_right fun _ => ?_
  by_cases hfull : place = Place.full
  · simp [hfull, throw, throwThe, MonadExceptOf.throw, bind, Except.bind]
  · simp [hfull, pure, Except.pure, eq_comm]

/-- What was written under a path is read under it. -/
theorem read_of_write (h : t.write path contents = .ok u) : u.read path = .ok contents := by
  obtain ⟨place, hplace, -, rfl⟩ := write_eq_ok_iff.mp h
  refine Outcome.bind_eq_ok_iff.mpr ⟨place, ?_, ?_⟩
  · exact locate_of_isDirectory (fun d => isDirectory_set) (locate_of_locateNew hplace)
  · rw [get?_set, if_pos rfl]
    rfl

end Hermetic.FileTree

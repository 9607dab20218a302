/-
Sections, and what is written for the directives that switch to them.

The type of a section is told by its name up to the second point.  Sections of code and of read-only
data become one; the others are kept or refused.

* `Section.Extends`, `Section.type_eq_some_iff`: the names of the sections of a type;
* `Section.HoldsCode`: the sections that become one;
* `Statement.sealSection_eq_ok`: a directive that switches to one of these is written as the one
  that switches to code, and the directive of any other section is copied.
-/
import Mathlib.Data.List.TakeWhile
import Hermetic.Sealing.Statement

namespace Hermetic

/-! ### Sections -/

namespace Section

/-- Whether the name of a section is that of a type, or goes on after a point. -/
def Extends (type : String) (name : List Char) : Prop :=
  name = type.toList ∨ type.toList ++ ['.'] <+: name

/-- The sections of a type, which holds one point and is not that of debug sections. -/
lemma type_eq_some_iff {ty : String} {name : List Char} (tail : List Char)
    (hty : ty.toList = '.' :: tail) (htail : '.' ∉ tail)
    (hdebug : ty ≠ ".debug" ∧ Text.startsWith ".debug_" ty = false) :
    type name = some ty ↔ Extends ty name := by
  -- what follows the type starts with a point, if there is anything
  have htake (rest : List Char) (hrest : rest = [] ∨ ∃ r, rest = '.' :: r) :
      (tail ++ rest).takeWhile (· != '.') = tail := by
    have hpoint : ∀ c ∈ tail, (c != '.') = true := by
      intro c hc
      rw [bne_iff_ne]
      rintro rfl
      exact htail hc
    rw [List.takeWhile_append_of_pos hpoint]
    rcases hrest with rfl | ⟨r, rfl⟩ <;> simp
  have hof (rest : List Char) (hrest : rest = [] ∨ ∃ r, rest = '.' :: r) :
      type ('.' :: (tail ++ rest)) = some ty := by
    have hself : String.ofList ('.' :: tail) = ty := by rw [← hty, String.ofList_toList]
    simp [type, htake rest hrest, hself, hdebug.2]
  constructor
  · intro h
    cases name with
    | nil => cases h
    | cons c rest =>
        obtain rfl : c = '.' := by
          by_contra hc
          simp [type, hc] at h
        -- the type is read up to the next point, and is none of debugging
        have hplain : String.ofList ('.' :: rest.takeWhile (· != '.')) = ty := by
          simp only [type, Option.some.injEq] at h
          split at h
          · exact (hdebug.1 h.symm).elim
          · exact h
        have hrest : rest.takeWhile (· != '.') = tail := by
          have hlist := congrArg String.toList hplain
          rw [String.toList_ofList, hty] at hlist
          exact List.tail_eq_of_cons_eq hlist
        have hsplit := List.takeWhile_append_dropWhile (p := (· != '.')) (l := rest)
        rw [hrest] at hsplit
        cases hdrop : rest.dropWhile (· != '.') with
        | nil => exact .inl (by rw [hty, ← hsplit, hdrop, List.append_nil])
        | cons d after =>
            have hd : d = '.' := by
              have := List.head_dropWhile_not (p := (· != '.')) (by rw [hdrop]; exact nofun)
              simpa [hdrop] using this
            refine .inr ⟨after, ?_⟩
            rw [hty, ← hsplit, hdrop, hd]
            simp
  · rintro (rfl | ⟨after, rfl⟩)
    · simpa [hty] using hof [] (.inl rfl)
    · simpa [hty] using hof ('.' :: after) (.inr ⟨after, rfl⟩)

lemma type_eq_bss_iff {name : List Char} : type name = some ".bss" ↔ Extends ".bss" name :=
  type_eq_some_iff "bss".toList rfl (by decide) (by decide +kernel)

lemma type_eq_data_iff {name : List Char} : type name = some ".data" ↔ Extends ".data" name :=
  type_eq_some_iff "data".toList rfl (by decide) (by decide +kernel)

lemma type_eq_rodata_iff {name : List Char} : type name = some ".rodata" ↔ Extends ".rodata" name :=
  type_eq_some_iff "rodata".toList rfl (by decide) (by decide +kernel)

lemma type_eq_text_iff {name : List Char} : type name = some ".text" ↔ Extends ".text" name :=
  type_eq_some_iff "text".toList rfl (by decide) (by decide +kernel)

/-- Whether a directive names a section of code or of read-only data. -/
def HoldsCode (arguments : String) : Prop :=
  Extends ".rodata" (name arguments) ∨ Extends ".text" (name arguments)

end Section

/-! ### Directives -/

/-- What is written for a directive that switches to a section. -/
lemma Statement.sealSection_eq_ok {s : Statement} {arguments : String} {e : Emission}
    (h : sealSection s arguments = .ok e) :
    Section.HoldsCode arguments ∧ e = .replace s [.plain ".text" []] ∨
      ¬ Section.HoldsCode arguments ∧ e = .copy s := by
  rw [Section.HoldsCode, ← Section.type_eq_rodata_iff, ← Section.type_eq_text_iff]
  unfold sealSection at h
  dsimp only at h
  split at h
  · cases h
  · split at h
    · next htype =>
        cases h
        exact .inl ⟨.inl htype, rfl⟩
    · next htype =>
        cases h
        exact .inl ⟨.inr htype, rfl⟩
    · cases h
    · next hrodata htext _ =>
        cases h
        exact .inr ⟨not_or.mpr ⟨hrodata, htext⟩, rfl⟩

end Hermetic

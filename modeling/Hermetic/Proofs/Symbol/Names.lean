/-
The names that are made from names are names.

* `IsName`: texts that are the name of a symbol;
* `SymbolTable.IsPublic`: tables without names that are local to a file;
* `Symbol.isDotLocal_localAlias`, `Symbol.isDotLocal_renamed`: names that stay local to a file;
* `Symbol.localAlias_injective`, `Symbol.renamed_ne_localAlias`, `Symbol.renamed_inj`: aliases are
  different from each other, and from other local names, and so are the names that are exchanged;
* `Symbol.isName_localized`, `Symbol.isName_localAlias`, `Symbol.isName_gotSlot` and others: one
  lemma for every way to make a name;
* `Symbol.Renames`: the names that take the place of a symbol's name;
* `Scope.isName_inside`, `Scope.isName_branchTarget`: the names that a symbol is referred to by.
-/
import Hermetic.Proofs.Text.Characters
import Hermetic.Sealing.Scope
import Mathlib.Data.List.Basic

namespace Hermetic

/-- Whether a text is the name of a symbol. -/
def IsName (s : String) : Prop :=
  isSymbolName s.toList = true

variable {name : String}

/-- Whether the symbols of a table are public. -/
def SymbolTable.IsPublic (symbols : SymbolTable) : Prop :=
  ∀ name, symbols.contains name = true → Symbol.isDotLocal name = false

lemma isName_cons_takeWhile {ch : Char} (hstart : isSymbolStart ch = true) (l : List Char) :
    IsName (String.ofList (ch :: l.takeWhile isSymbolChar)) := by
  rw [IsName, String.toList_ofList, isSymbolName_cons]
  exact ⟨hstart, fun d hd => List.mem_takeWhile_imp hd⟩

/-- A text that starts like a name has a name at its front. -/
lemma isName_takeWhile {l : List Char} (h : l.head?.any isSymbolStart = true) :
    IsName (String.ofList (l.takeWhile isSymbolChar)) := by
  cases l with
  | nil => cases h
  | cons ch l =>
      have hstart : isSymbolStart ch = true := h
      rw [List.takeWhile_cons_of_pos (isSymbolChar_of_isSymbolStart hstart)]
      exact isName_cons_takeWhile hstart l

namespace Symbol

/-! ### Local names -/

lemma isDotLocal_localAlias (name : String) : isDotLocal (localAlias name) = true := by
  simp [isDotLocal, localAlias, Text.startsWith]

/-- A public name is no alias. -/
lemma ne_localAlias (h : isDotLocal name = false) (symbol : String) : name ≠ localAlias symbol := by
  rintro rfl
  rw [isDotLocal_localAlias] at h
  cases h

lemma isDotLocal_renamed (h : isDotLocal name = true) (index : Nat) :
    isDotLocal (renamed name index) = true := by
  unfold renamed
  split
  · exact h
  · rw [isDotLocal, Text.startsWith, List.isPrefixOf_iff_prefix] at h ⊢
    rw [String.toList_append, String.toList_append, List.append_assoc]
    exact h.trans (List.prefix_append ..)

lemma isDotLocal_localized (name : String) (index : Nat) :
    isDotLocal (localized name index) = isDotLocal name := by
  unfold localized
  split
  · next h => rw [isDotLocal_renamed h, h]
  · rfl

/-- A public name is what it was before local names were written for their file. -/
lemma eq_of_localized_eq {symbol : String} {index : Nat} (hname : isDotLocal name = false)
    (h : localized symbol index = name) : symbol = name := by
  rw [← h, isDotLocal_localized] at hname
  rwa [localized, hname] at h

lemma localized_ne_point {index : Nat} (h : name ≠ ".") : localized name index ≠ "." :=
  fun hpoint => h (eq_of_localized_eq (by decide) hpoint)

lemma localAlias_injective : Function.Injective localAlias := by
  intro a b h
  have hlist := congrArg String.toList h
  exact String.toList_inj.mp (by simpa [localAlias] using hlist)

lemma toList_renamed {index : Nat} (hindex : index ≠ 0) (name : String) :
    (renamed name index).toList = (name.toList ++ "_BCM_".toList) ++ Nat.toDigits 10 index := by
  rw [renamed, if_neg hindex, String.toList_append, String.toList_append, Nat.toString_eq_repr,
    Nat.toList_repr]

/-- What is written for another file ends in a digit. -/
lemma exists_getLast?_renamed {index : Nat} (hindex : index ≠ 0) (name : String) :
    ∃ ch, (renamed name index).toList.getLast? = some ch ∧ ch.isDigit = true := by
  have hne : Nat.toDigits 10 index ≠ [] := Nat.toDigits_ne_nil
  refine ⟨(Nat.toDigits 10 index).getLast hne, ?_, ?_⟩
  · rw [toList_renamed hindex, List.getLast?_append_of_ne_nil _ hne,
      List.getLast?_eq_some_getLast hne]
  · exact Nat.isDigit_of_mem_toDigits (by decide) (by decide) (List.getLast_mem hne)

/-- What is written for another file is no alias. -/
lemma renamed_ne_localAlias_of_ne_zero {index : Nat} (hindex : index ≠ 0) (name symbol : String) :
    renamed name index ≠ localAlias symbol := by
  intro heq
  obtain ⟨ch, hlast, hdigit⟩ := exists_getLast?_renamed hindex name
  have halias : (localAlias symbol).toList.getLast? = some 't' := by
    rw [localAlias, String.toList_append, List.getLast?_append_of_ne_nil _ (by decide)]
    rfl
  rw [heq, halias] at hlast
  cases hlast
  exact absurd hdigit (by decide)

/-- What is written for another file is another name. -/
lemma renamed_ne {index : Nat} (hindex : index ≠ 0) (name : String) :
    renamed name index ≠ name := by
  intro heq
  have hlist := congrArg String.toList heq
  rw [toList_renamed hindex, List.append_assoc, List.append_right_eq_self] at hlist
  exact List.append_ne_nil_of_left_ne_nil (by decide) _ hlist

lemma localAlias_ne (name : String) : localAlias name ≠ name := by
  intro heq
  have hlength := congrArg String.length heq
  rw [localAlias, String.length_append, String.length_append] at hlength
  have : ".L".length = 2 := by decide
  omega

lemma renamed_ne_localAlias {symbol : String} (h : name ≠ localAlias symbol) (index : Nat) :
    renamed name index ≠ localAlias symbol := by
  by_cases hindex : index = 0
  · rwa [hindex, renamed_zero]
  · exact renamed_ne_localAlias_of_ne_zero hindex name symbol

/-- Names that are written for other files are the same only for the same name in one file: what
stands after the last `_` is the position. -/
lemma renamed_inj {name' : String} {index index' : Nat} (hindex : index ≠ 0)
    (hindex' : index' ≠ 0) :
    renamed name index = renamed name' index' ↔ name = name' ∧ index = index' := by
  -- nothing of one position can stand before the other: it would end in `_`
  have hpositions {a b : String} {i j : Nat} {l : List Char}
      (hfront : a.toList ++ "_BCM_".toList = b.toList ++ "_BCM_".toList ++ l)
      (hdigits : Nat.toDigits 10 i = l ++ Nat.toDigits 10 j) : a = b ∧ j = i := by
    cases hl : l.getLast? with
    | none =>
        obtain rfl : l = [] := List.getLast?_eq_none_iff.mp hl
        rw [List.append_nil] at hfront
        refine ⟨String.toList_inj.mp (List.append_cancel_right hfront), ?_⟩
        calc
          j = Nat.ofDigitChars 10 (Nat.toDigits 10 j) 0 := Nat.ofDigitChars_ten_toDigits.symm
          _ = Nat.ofDigitChars 10 (Nat.toDigits 10 i) 0 := by rw [hdigits, List.nil_append]
          _ = i := Nat.ofDigitChars_ten_toDigits
    | some ch =>
        have hmem : ch ∈ Nat.toDigits 10 i := by
          rw [hdigits]
          exact List.mem_append_left _ (List.mem_of_getLast? hl)
        have hlast := congrArg List.getLast? hfront
        rw [List.getLast?_append_of_ne_nil _ (by decide), List.getLast?_append, hl,
          Option.some_or] at hlast
        obtain rfl : '_' = ch := Option.some.inj hlast
        exact absurd (Nat.isDigit_of_mem_toDigits (by decide) (by decide) hmem) (by decide)
  constructor
  · intro h
    rw [← String.toList_inj, toList_renamed hindex, toList_renamed hindex'] at h
    rcases List.append_eq_append_iff.mp h with ⟨l, hfront, hdigits⟩ | ⟨l, hfront, hdigits⟩
    · obtain ⟨hname, hpos⟩ := hpositions hfront hdigits
      exact ⟨hname.symm, hpos.symm⟩
    · exact hpositions hfront hdigits
  · rintro ⟨rfl, rfl⟩
    rfl

/-! ### Spelling -/

/-- A name after other characters of one. -/
lemma isName_append {before : String} (hbefore : IsName before) (hname : IsName name) :
    IsName (before ++ name) := by
  obtain ⟨ch, l, -, -, hchars⟩ := exists_cons_of_isSymbolName hname
  rw [IsName, String.toList_append]
  exact isSymbolName_append hbefore hchars

lemma isName_append_suffix (hname : IsName name) {suffix : String}
    (hsuffix : ∀ ch ∈ suffix.toList, isSymbolChar ch = true) : IsName (name ++ suffix) := by
  rw [IsName, String.toList_append]
  exact isSymbolName_append hname hsuffix

lemma isSymbolChar_toString (n : Nat) : ∀ ch ∈ (toString n).toList, isSymbolChar ch = true := by
  intro ch hch
  have hdigits : (toString n).toList = Nat.toDigits 10 n := by
    simp [Nat.repr]
  rw [hdigits] at hch
  have hdigit := Nat.isDigit_of_mem_toDigits (by decide) (by decide) hch
  simp [isSymbolChar, Char.isAlphanum, hdigit]

lemma isName_renamed (hname : IsName name) (index : Nat) : IsName (renamed name index) := by
  unfold renamed
  split
  · exact hname
  · refine isName_append_suffix (isName_append_suffix hname (List.all_eq_true.mp (by decide))) ?_
    exact isSymbolChar_toString index

lemma isName_localized (hname : IsName name) (index : Nat) : IsName (localized name index) := by
  unfold localized
  split
  · exact isName_renamed hname index
  · exact hname

lemma isName_localAlias (hname : IsName name) : IsName (localAlias name) := by
  refine isName_append_suffix (isName_append ?_ hname) (List.all_eq_true.mp (by decide))
  rw [IsName]
  decide

lemma isName_redirector (hname : IsName name) : IsName (redirector name) := by
  refine isName_append ?_ hname
  rw [IsName]
  decide

lemma isName_accessor (hname : IsName name) : IsName (accessor name) :=
  isName_append_suffix hname (List.all_eq_true.mp (by decide))

lemma isName_gotHelper (hname : IsName name) : IsName (gotHelper name) := by
  refine isName_append ?_ hname
  rw [IsName]
  decide

lemma isName_gotSlot (hname : IsName name) : IsName (gotSlot name) :=
  isName_append_suffix hname (List.all_eq_true.mp (by decide))

lemma isName_gotDelta : IsName gotDelta := by
  rw [IsName]
  decide

lemma isName_gotOffsetSlot (hname : IsName name) (fromTable : Bool) :
    IsName (gotOffsetSlot name fromTable) := by
  refine isName_append ?_ hname
  rw [IsName]
  cases fromTable <;> decide

/-! ### Names in the place of others -/

/-- The names that take the place of a symbol's name: its alias, that of the helper that jumps to
it, and for a local one the name that it has in the file at a position. -/
inductive Renames (name : String) : String → Prop
  | localAlias : Renames name (localAlias name)
  | redirector : Renames name (redirector name)
  | renamed (index : Nat) : isDotLocal name = true → Renames name (renamed name index)

variable {t : String}

lemma Renames.isName (h : Renames name t) (hname : IsName name) : IsName t := by
  cases h with
  | localAlias => exact isName_localAlias hname
  | redirector => exact isName_redirector hname
  | renamed index => exact isName_renamed hname index

/-- How a name starts that takes the place of another. -/
lemma Renames.toList_eq (h : Renames name t) :
    (∃ r, t.toList = '.' :: 'L' :: r) ∨ ∃ r, t.toList = 'b' :: 'c' :: r := by
  have hlocal {s : String} (hs : isDotLocal s = true) : ∃ r, s.toList = '.' :: 'L' :: r := by
    obtain ⟨r, hr⟩ := List.isPrefixOf_iff_prefix.mp hs
    exact ⟨r, hr.symm⟩
  cases h with
  | localAlias => exact .inl (hlocal (isDotLocal_localAlias name))
  | redirector =>
      have hlist : (Symbol.redirector name).toList = "bcm_redirector_".toList ++ name.toList :=
        String.toList_append
      exact .inr ⟨_, hlist⟩
  | renamed index hname => exact .inl (hlocal (isDotLocal_renamed hname index))

end Symbol

namespace Scope

variable {scope : Scope}

lemma isName_of_inside? (hname : IsName name) {target : String}
    (h : scope.inside? name = some target) : IsName target := by
  unfold inside? at h
  split at h
  · cases h
    exact Symbol.isName_localAlias hname
  · split at h
    · cases h
      exact Symbol.isName_renamed hname _
    · split at h
      · cases h
        exact hname
      · cases h

lemma isName_inside (hname : IsName name) : IsName (scope.inside name) := by
  unfold inside
  cases h : scope.inside? name with
  | none => exact hname
  | some target => exact isName_of_inside? hname h

lemma isName_branchTarget (hname : IsName name) : IsName (scope.branchTarget name).1 := by
  unfold branchTarget
  cases h : scope.inside? name with
  | none => exact Symbol.isName_redirector hname
  | some target => exact isName_of_inside? hname h

lemma isName_localized (hname : IsName name) : IsName (scope.localized name) :=
  Symbol.isName_localized hname _

/-- A public name is what it was before local names were written for their file. -/
lemma eq_of_localized_eq {symbol : String} (hname : Symbol.isDotLocal name = false)
    (h : scope.localized symbol = name) : symbol = name :=
  Symbol.eq_of_localized_eq hname h

end Scope

end Hermetic

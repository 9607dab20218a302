/-
Names that are made in different ways, and when they are the same.

A helper is named by a text in front of its symbol or by a text behind it.  A name that is made in
both ways has the two texts at its ends, apart from each other or with one `_` between them that
belongs to both.

* `Symbol.Meets`, `Symbol.append_eq_append_iff`: the symbols of such a name;
* `Symbol.redirector_eq_accessor_iff`, `Symbol.gotHelper_eq_accessor_iff`: for symbols that do not
  end like the name of an accessor, there is one such name;
* `Symbol.isDotLocal_gotSlot`, `Symbol.getLast?_accessor` and others: first and last characters,
  which tell the other names apart;
* `Symbol.renamed_eq_renamed_iff`: local names that are written for different files are the same
  only if a name of the first file is spelled like one that is written for another.
-/
import Hermetic.Proofs.Symbol.Names
import Mathlib.Data.List.Infix
import Mathlib.Data.Set.Operations

namespace Hermetic.Symbol

/-! ### A text in front and a text behind -/

/-- The symbols of a name that has `before` in front of the one and `after` behind the other. -/
inductive Meets (before after : String) : String → String → Prop
  /-- The two texts stand apart. -/
  | apart (middle : String) : Meets before after (middle ++ after) (before ++ middle)
  /-- A `_` belongs to both. -/
  | joined {s t : String} : before = t ++ "_" → after = "_" ++ s → Meets before after s t

/-- The texts in front of symbols, which all end in `_`. -/
def befores : List String :=
  ["bcm_redirector_", ".Lboringssl_got_", ".Lboringssl_gotoff_", ".Lboringssl_loadgot_"]

/-- The texts behind symbols and behind a marker, which all start with `_`. -/
def afters : List String :=
  ["_bss_get", "_GOTPCREL_external", "_end", "_hash"]

/-- No text in front of symbols ends like one behind them starts, but for the `_`. -/
lemma eq_of_suffix_of_prefix : ∀ before ∈ befores, ∀ after ∈ afters,
    ∀ l ∈ before.toList.tails, l <+: after.toList → l = [] ∨ l = ['_'] := by
  decide +kernel

/-- The symbols of a name that is made in two ways. -/
lemma append_eq_append_iff {before after s t : String} (hb : before ∈ befores)
    (ha : after ∈ afters) : before ++ s = t ++ after ↔ Meets before after s t := by
  constructor
  · intro h
    have hlist := congrArg String.toList h
    rw [String.toList_append, String.toList_append] at hlist
    rcases List.append_eq_append_iff.mp hlist with ⟨l, ht, hs⟩ | ⟨l, hbefore, hafter⟩
    · have ht' : t = before ++ String.ofList l := by
        rw [← String.toList_inj, ht, String.toList_append, String.toList_ofList]
      have hs' : s = String.ofList l ++ after := by
        rw [← String.toList_inj, hs, String.toList_append, String.toList_ofList]
      rw [ht', hs']
      exact .apart _
    · -- what belongs to both ends the one and starts the other
      rcases eq_of_suffix_of_prefix before hb after ha l
        ((List.mem_tails _ _).mpr ⟨t.toList, hbefore.symm⟩) ⟨s.toList, hafter.symm⟩ with rfl | rfl
      · have ht' : t = before ++ "" := by
          rw [String.append_empty, ← String.toList_inj, hbefore, List.append_nil]
        have hs' : s = "" ++ after := by
          rw [← String.toList_inj, String.toList_append, hafter]
          rfl
        rw [ht', hs']
        exact .apart _
      · refine .joined ?_ ?_
        · rw [← String.toList_inj, hbefore, String.toList_append]
          rfl
        · rw [← String.toList_inj, hafter, String.toList_append]
          rfl
  · intro h
    cases h with
    | apart middle => rw [String.append_assoc]
    | joined hbefore hafter => rw [hbefore, hafter, String.append_assoc]

/-! ### Symbols that do not end like an accessor -/

/-- A symbol that does not end like an accessor meets one at the `_` only. -/
lemma meets_accessor_iff {front before s key : String} (hfront : before = front ++ "_")
    (hs : Text.endsWith "_bss_get" s = false) :
    Meets before "_bss_get" s key ↔ s = "bss_get" ∧ key = front := by
  have hsplit : "_bss_get" = "_" ++ "bss_get" := by decide +kernel
  constructor
  · intro h
    cases h with
    | apart middle =>
        have hends : Text.endsWith "_bss_get" (middle ++ "_bss_get") = true := by
          rw [Text.endsWith, List.isSuffixOf_iff_suffix, String.toList_append]
          exact List.suffix_append ..
        rw [hends] at hs
        cases hs
    | joined hbefore hafter =>
        exact ⟨((String.append_right_inj "_").mp (hsplit.symm.trans hafter)).symm,
          ((String.append_left_inj "_").mp (hfront.symm.trans hbefore)).symm⟩
  · rintro ⟨rfl, rfl⟩
    exact .joined hfront hsplit

lemma redirector_eq_accessor_iff {s key : String} (hs : Text.endsWith "_bss_get" s = false) :
    redirector s = accessor key ↔ s = "bss_get" ∧ key = "bcm_redirector" :=
  (append_eq_append_iff (by decide +kernel) (by decide +kernel)).trans
    (meets_accessor_iff (by decide +kernel) hs)

lemma gotHelper_eq_accessor_iff {s key : String} (hs : Text.endsWith "_bss_get" s = false) :
    gotHelper s = accessor key ↔ s = "bss_get" ∧ key = ".Lboringssl_loadgot" :=
  (append_eq_append_iff (by decide +kernel) (by decide +kernel)).trans
    (meets_accessor_iff (by decide +kernel) hs)

/-! ### First and last characters -/

variable {name : String}

lemma isDotLocal_append {before : String} (h : isDotLocal before = true) (s : String) :
    isDotLocal (before ++ s) = true := by
  rw [isDotLocal, Text.startsWith, List.isPrefixOf_iff_prefix] at h ⊢
  rw [String.toList_append]
  exact h.trans (List.prefix_append ..)

lemma isDotLocal_redirector (name : String) : isDotLocal (redirector name) = false := by
  have hlist : (redirector name).toList = "bcm_redirector_".toList ++ name.toList :=
    String.toList_append
  rw [isDotLocal, Text.startsWith, hlist]
  rfl

lemma isDotLocal_gotDelta : isDotLocal gotDelta = true := by
  decide +kernel

lemma isDotLocal_gotOffsetSlot (name : String) (fromTable : Bool) :
    isDotLocal (gotOffsetSlot name fromTable) = true := by
  refine isDotLocal_append ?_ name
  cases fromTable <;> decide +kernel

lemma isDotLocal_gotHelper (name : String) : isDotLocal (gotHelper name) = true :=
  isDotLocal_append (by decide +kernel) name

/-- The entry of a symbol is local only if the symbol is: the text behind the symbol has neither of
the two characters that a local name starts with. -/
lemma isDotLocal_gotSlot (h : isDotLocal name = false) : isDotLocal (gotSlot name) = false := by
  rw [isDotLocal, Text.startsWith] at h ⊢
  rw [gotSlot, String.toList_append]
  generalize name.toList = l at h
  rcases l with _ | ⟨a, _ | ⟨b, l⟩⟩
  · rfl
  · exact Bool.and_false _
  · exact h

lemma getLast?_append_ne_nil {s : String} {after : String} (h : after.toList ≠ []) :
    (s ++ after).toList.getLast? = after.toList.getLast? := by
  rw [String.toList_append, List.getLast?_append_of_ne_nil _ h]

/-- The texts behind symbols and markers tell names apart by their last character. -/
lemma append_ne_append {s t after after' : String} (ha : after.toList ≠ [])
    (ha' : after'.toList ≠ []) (h : after.toList.getLast? ≠ after'.toList.getLast?) :
    s ++ after ≠ t ++ after' := by
  intro heq
  have hlast := congrArg (fun name : String => name.toList.getLast?) heq
  rw [getLast?_append_ne_nil ha, getLast?_append_ne_nil ha'] at hlast
  exact h hlast

lemma accessor_ne_gotSlot (key name : String) : accessor key ≠ gotSlot name :=
  append_ne_append (by decide) (by decide) (by decide)

lemma accessor_ne_gotDelta (key : String) : accessor key ≠ gotDelta := by
  have hsplit : gotDelta = ".Lboringssl_got" ++ "_delta" := by decide +kernel
  rw [hsplit]
  exact append_ne_append (by decide) (by decide) (by decide)

/-! ### Words for offsets -/

/-- What stands in front of the symbol in the name of a word for an offset. -/
def offsetFront (fromTable : Bool) : String :=
  if fromTable then ".Lboringssl_gotoff_" else ".Lboringssl_got_"

lemma offsetFront_mem (fromTable : Bool) : offsetFront fromTable ∈ befores := by
  cases fromTable <;> decide +kernel

lemma gotOffsetSlot_inj {name' : String} {fromTable fromTable' : Bool} :
    gotOffsetSlot name fromTable = gotOffsetSlot name' fromTable' ↔
      name = name' ∧ fromTable = fromTable' := by
  constructor
  · intro h
    cases fromTable <;> cases fromTable'
    case false.false | true.true => exact ⟨(String.append_right_inj _).mp h, rfl⟩
    all_goals
      have hlist := congrArg String.toList h
      simp [gotOffsetSlot] at hlist
  · rintro ⟨rfl, rfl⟩
    rfl

lemma gotDelta_eq_gotOffsetSlot_iff {fromTable : Bool} :
    gotDelta = gotOffsetSlot name fromTable ↔ name = "delta" ∧ fromTable = false := by
  have hdelta : gotDelta = gotOffsetSlot "delta" false := rfl
  rw [hdelta, gotOffsetSlot_inj, eq_comm, @eq_comm _ false]

/-! ### Local names of several files -/

lemma renamed_of_ne_zero {index : ℕ} (h : index ≠ 0) (name : String) :
    renamed name index = name ++ "_BCM_" ++ toString index :=
  if_neg h

/-- Local names as they are written for files are the same only for the same name in one file, or
for a name of the first file that is spelled like what is written for another file. -/
theorem renamed_eq_renamed_iff :
    (∀ (s t : String) (i j : ℕ), renamed s i = renamed t j ↔
      (s = t ∧ i = j) ∨ (i = 0 ∧ 0 < j ∧ s = t ++ "_BCM_" ++ toString j) ∨
        (j = 0 ∧ 0 < i ∧ t = s ++ "_BCM_" ++ toString i)) ∧
      Set.InjOn (fun p : String × ℕ => renamed p.1 p.2) {p | 1 ≤ p.2} := by
  constructor
  · intro s t i j
    rcases Nat.eq_zero_or_pos i with rfl | hi <;> rcases Nat.eq_zero_or_pos j with rfl | hj
    · simp
    · rw [renamed_zero, renamed_of_ne_zero hj.ne']
      simp [hj, hj.ne]
    · rw [renamed_zero, renamed_of_ne_zero hi.ne']
      simp [hi, hi.ne', eq_comm]
    · rw [renamed_inj hi.ne' hj.ne']
      simp [hi.ne', hj.ne']
  · rintro ⟨s, i⟩ hi ⟨t, j⟩ hj h
    have hi : i ≠ 0 := Nat.one_le_iff_ne_zero.mp hi
    have hj : j ≠ 0 := Nat.one_le_iff_ne_zero.mp hj
    obtain ⟨hname, hindex⟩ := (renamed_inj hi hj).mp h
    exact Prod.ext hname hindex

/-- A name of the first file that is spelled like what is written for the third. -/
example : renamed ".Lx_BCM_2" 0 = renamed ".Lx" 2 ∧ renamed ".Lx_BCM_2" 1 ≠ renamed ".Lx" 21 := by
  decide +kernel

end Hermetic.Symbol

/-
The symbols that an operand mentions are names.

The kinds of operand are read by different rules, and each of them tells a name by itself: a
reference by its first character, a relocation and an offset in the table by all of its text, and
a constant by the terms that it is cut into.

* `X86.isName_of_mem_symbols`, `Arm.isName_of_mem_symbols`: this, for the two architectures;
* `Statement.isName_of_mem_symbols`: for the operands of every instruction of a text.
-/
import Hermetic.Proofs.Operand.Expr
import Hermetic.Proofs.Operand.Indexed
import Hermetic.Proofs.Operand.Written
import Hermetic.Proofs.Sealing.Instructions

namespace Hermetic

/-- The symbols of an expression that is read are names. -/
lemma Expr.isName_of_mem_symbols {l : List Char} {name : String}
    (h : name ∈ (parse l).symbols) : IsName name := by
  obtain ⟨t, ht, hname⟩ := List.mem_filterMap.mp h
  cases t with
  | symbol own =>
      cases hname
      exact named_parse l name ht
  | other => cases hname

/-! ### Operands of x86-64 -/

namespace X86

variable {l : List Char} {name : String}

/-- No text is one of the operands that only AArch64 has. -/
lemma ne_of_kind {k : Operand.Kind} (h : kind l = .ok k) :
    (∀ r, k ≠ .relocation r) ∧ ∀ x, k ≠ .indexed x := by
  unfold kind at h
  split at h
  · cases h
    exact ⟨nofun, nofun⟩
  · next value =>
      obtain hvalue : immediate value = k := by simpa using h
      unfold immediate at hvalue
      repeat' split at hvalue
      all_goals
        cases hvalue
        exact ⟨nofun, nofun⟩
  · split at h
    · cases h
      exact ⟨nofun, nofun⟩
    · split at h
      · cases h
        exact ⟨nofun, nofun⟩
      · split at h
        · split at h
          · cases h
            exact ⟨nofun, nofun⟩
          · cases h
        · obtain ⟨m, -, rfl⟩ := Outcome.map_eq_ok_iff.mp h
          exact ⟨nofun, nofun⟩

lemma isName_of_mem_symbols {o : Operand} (h : operand l = .ok o)
    (hn : name ∈ o.kind.symbols) : IsName name := by
  obtain ⟨k, hk, h⟩ := Outcome.bind_eq_ok_iff.mp h
  cases h
  cases k with
  | memory m =>
      obtain ⟨href, hsegment⟩ := memoryRef_of_kind hk
      exact (spelled_of_memoryRef href hsegment).1.symbol name (Option.mem_toList.mp hn)
  | immediate sigil value =>
      obtain ⟨v, -, -, rfl⟩ := immediate_of_kind hk
      exact Expr.isName_of_mem_symbols hn
  | gotDistance anchor =>
      rw [List.mem_singleton.mp hn]
      exact isName_of_kind_gotDistance hk
  | gotOffset symbol fromTable =>
      rw [List.mem_singleton.mp hn]
      exact isName_of_kind_gotOffset hk
  | relocation r => exact ((ne_of_kind hk).1 r rfl).elim
  | indexed x => exact ((ne_of_kind hk).2 x rfl).elim
  | _ => cases hn

end X86

/-! ### Operands of AArch64 -/

namespace Arm

variable {l : List Char} {name : String}

lemma isName_of_relocation {hash : Bool} {r : Relocation} (h : relocation l hash = .ok r) :
    IsName r.symbol := by
  unfold relocation at h
  dsimp only at h
  split at h
  · cases h
  · split at h
    · cases h
    · next hname =>
        split at h
        · cases h
          rw [IsName, String.toList_ofList]
          rw [Bool.not_eq_true, Bool.or_eq_false_iff, Bool.not_eq_false'] at hname
          exact hname.2
        · cases h

lemma isName_of_symbolRef? {m : MemoryRef} (h : symbolRef? l = some m) (hn : m.symbol = some name) :
    IsName name := by
  obtain ⟨before, offset, -, hname, -, -, rfl⟩ := exists_of_symbolRef? h
  cases hn
  exact hname

/-- A relocation after a base register has a name too. -/
lemma isName_of_indexedRest {r : Relocation} (h : indexedRest l = .ok (.relocation r)) :
    IsName r.symbol := by
  unfold indexedRest at h
  split at h
  · obtain ⟨r', hr, heq⟩ := Outcome.map_eq_ok_iff.mp h
    cases heq
    exact isName_of_relocation hr
  · obtain ⟨r', hr, heq⟩ := Outcome.map_eq_ok_iff.mp h
    cases heq
    exact isName_of_relocation hr
  · cases h

lemma isName_of_indexed {x : Indexed} {r : Relocation} (h : indexed l = .ok x)
    (hrest : x.rest = some (.relocation r)) : IsName r.symbol := by
  unfold indexed at h
  dsimp only at h
  split at h
  · cases h
  · split at h
    · cases h
    · split at h
      · cases h
      · split at h
        · cases h
          cases hrest
        · obtain ⟨rest, hread, h⟩ := Outcome.bind_eq_ok_iff.mp h
          cases h
          cases hrest
          exact isName_of_indexedRest hread

/-- The symbols of a kind that is read, by the rule that read it. -/
lemma isName_of_kind {k : Operand.Kind} (h : kind l = .ok k) (hn : name ∈ k.symbols) :
    IsName name := by
  unfold kind at h
  dsimp only at h
  split at h
  · obtain ⟨x, hx, rfl⟩ := Outcome.map_eq_ok_iff.mp h
    unfold Operand.Kind.symbols at hn
    dsimp only at hn
    split at hn
    · next r hrest =>
        rw [List.mem_singleton.mp hn]
        exact isName_of_indexed hx hrest
    · cases hn
  · cases h
    cases hn
  · obtain ⟨r, hr, rfl⟩ := Outcome.map_eq_ok_iff.mp h
    rw [List.mem_singleton.mp hn]
    exact isName_of_relocation hr
  · cases h
    exact Expr.isName_of_mem_symbols hn
  · obtain ⟨r, hr, rfl⟩ := Outcome.map_eq_ok_iff.mp h
    rw [List.mem_singleton.mp hn]
    exact isName_of_relocation hr
  · repeat' split at h
    all_goals
      cases h
      try cases hn
    · exact Expr.isName_of_mem_symbols hn
    · next m hm => exact isName_of_symbolRef? hm (Option.mem_toList.mp hn)

lemma isName_of_mem_symbols {o : Operand} (h : operand l = .ok o)
    (hn : name ∈ o.kind.symbols) : IsName name := by
  obtain ⟨k, hk, h⟩ := Outcome.bind_eq_ok_iff.mp h
  cases h
  exact isName_of_kind hk hn

end Arm

/-! ### Texts -/

/-- Every symbol that an instruction of a text mentions is a name. -/
lemma Statement.isName_of_mem_symbols {arch : Arch} {text : String} {statements : List Statement}
    (h : parse arch text = .ok statements) {s : Statement} (hs : s ∈ statements)
    {insn : Instruction} (hinsn : s.kind = .instruction insn) {name : String}
    (hn : name ∈ insn.symbols) : IsName name := by
  obtain ⟨o, ho, hn⟩ := List.mem_flatMap.mp hn
  obtain ⟨l, hl⟩ := exists_operand h hs hinsn o ho
  cases arch with
  | x86_64 => exact X86.isName_of_mem_symbols hl hn
  | aarch64 => exact Arm.isName_of_mem_symbols hl hn

end Hermetic

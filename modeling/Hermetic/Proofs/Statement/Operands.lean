/-
The operands of the instructions in a text.

* `Statement.exists_operand`: every operand of an instruction that is read is the operand that
  some text is;
* `X86.tagged_of_operand`: a relocation tag always belongs to a symbol.
-/
import Hermetic.Proofs.Operand.Memory
import Hermetic.Proofs.Statement.Listing

namespace Hermetic

/-! ### Operands that are read -/

namespace Statement

variable {arch : Arch}

lemma exists_operand_of_instruction {c d : Cursor Char} {kind : Kind}
    (h : instruction arch c = .ok (kind, d)) :
    ∃ insn, kind = .instruction insn ∧ ∀ o ∈ insn.operands, ∃ l, operand arch l = .ok o := by
  obtain ⟨⟨modifiers, mnemonic, afterName⟩, -, h⟩ := Outcome.bind_eq_ok_iff.mp h
  dsimp only at h
  split at h
  · cases h
  · obtain ⟨⟨_, start⟩, -, h⟩ := Outcome.bind_eq_ok_iff.mp h
    obtain ⟨⟨args, stop⟩, -, h⟩ := Outcome.bind_eq_ok_iff.mp h
    obtain ⟨os, hos, h⟩ := Outcome.bind_eq_ok_iff.mp h
    cases h
    refine ⟨_, rfl, fun o ho => ?_⟩
    obtain ⟨piece, -, hpiece⟩ := Outcome.exists_of_mem_mapM hos ho
    dsimp only at hpiece
    split at hpiece
    · cases hpiece
    · exact ⟨_, Outcome.mapError_eq_ok_iff.mp hpiece⟩

/-- The kind of a directive comes from its name and its arguments. -/
lemma exists_directiveKind_of_directive {c d : Cursor Char} {kind : Kind}
    (h : directive arch c = .ok (kind, d)) : ∃ name args, directiveKind name args = .ok kind := by
  unfold directive at h
  dsimp only at h
  split at h
  · cases h
  · obtain ⟨⟨_, start⟩, -, h⟩ := Outcome.bind_eq_ok_iff.mp h
    obtain ⟨⟨args, stop⟩, -, h⟩ := Outcome.bind_eq_ok_iff.mp h
    obtain ⟨kind, hkind, h⟩ := Outcome.bind_eq_ok_iff.mp h
    cases h
    exact ⟨_, _, Outcome.mapError_eq_ok_iff.mp hkind⟩

/-- No directive is an instruction. -/
lemma directive_ne_instruction {c d : Cursor Char} {insn : Instruction} :
    directive arch c ≠ .ok (.instruction insn, d) := by
  intro h
  obtain ⟨name, args, hkind⟩ := exists_directiveKind_of_directive h
  unfold directiveKind at hkind
  dsimp only at hkind
  repeat' split at hkind
  all_goals cases hkind

/-- Every operand of an instruction that is read is the operand that some text is. -/
lemma exists_operand_of_ofCursor {c d : Cursor Char} {s : Statement} {insn : Instruction}
    (h : ofCursor arch c = .ok (s, d)) (hs : s.kind = .instruction insn) :
    ∀ o ∈ insn.operands, ∃ l, operand arch l = .ok o := by
  obtain ⟨⟨_, start⟩, -, h⟩ := Outcome.bind_eq_ok_iff.mp h
  obtain ⟨⟨kind, stop⟩, hk, h⟩ := Outcome.bind_eq_ok_iff.mp h
  cases h
  obtain rfl : kind = .instruction insn := hs
  rcases kindAt_eq_ok hk with hk | hk | ⟨label, hk, -⟩ | ⟨stop, hk | hk⟩
  · cases hk
  · cases hk
  · cases hk
  · exact (directive_ne_instruction hk).elim
  · obtain ⟨insn', hinsn, hoperands⟩ := exists_operand_of_instruction hk
    cases hinsn
    exact hoperands

/-- Every operand of an instruction in a text is the operand that some text is. -/
lemma exists_operand {text : String} {statements : List Statement}
    (h : parse arch text = .ok statements) {s : Statement} (hs : s ∈ statements)
    {insn : Instruction} (hinsn : s.kind = .instruction insn) :
    ∀ o ∈ insn.operands, ∃ l, operand arch l = .ok o := by
  obtain ⟨c, d, hread⟩ := (parse_eq_ok_iff.mp h).exists_ofCursor hs
  exact exists_operand_of_ofCursor hread hinsn

end Statement

/-! ### Relocation tags -/

namespace X86

/-- A relocation tag belongs to a symbol. -/
def Tagged (o : Operand) : Prop :=
  ∀ m, o.kind = .memory m → m.tag.isSome = true → ∃ s, m.symbol = some s

variable {l rest : List Char} {m m' : MemoryRef}

lemma symbol_of_takeSymbol (h : takeSymbol m l = .ok (m', rest)) : ∃ s, m'.symbol = some s := by
  unfold takeSymbol at h
  dsimp only at h
  split at h
  · split at h
    · cases h
    · cases h
      exact ⟨_, rfl⟩
  · cases h
    exact ⟨_, rfl⟩

lemma tagged_of_takeDisplacement (hm : m.tag = none)
    (h : takeDisplacement m l = .ok (m', rest)) : m'.tag = none ∨ ∃ s, m'.symbol = some s := by
  unfold takeDisplacement at h
  split at h
  · split at h
    · exact .inr (symbol_of_takeSymbol h)
    · cases h
      exact .inl hm
  · split at h
    · split at h
      · exact .inr (symbol_of_takeSymbol h)
      · cases h
        exact .inl hm
    · cases h
      exact .inl hm

lemma tag_of_takeBase (h : takeBase m l = .ok (m', rest)) :
    m'.tag = m.tag ∧ m'.symbol = m.symbol := by
  unfold takeBase at h
  split at h
  · split at h
    · cases h
    · split at h
      · cases h
        exact ⟨rfl, rfl⟩
      · cases h
  · cases h
    exact ⟨rfl, rfl⟩

lemma tagged_of_memoryRef (h : memoryRef l = .ok m) : m.tag = none ∨ ∃ s, m.symbol = some s := by
  unfold memoryRef at h
  dsimp only at h
  split at h
  · cases h
  · next m' rest hm =>
      split at h
      · cases h
      · split at h
        · cases h
        · cases h
          obtain ⟨⟨segment, l₁⟩, -, hm⟩ := Outcome.bind_eq_ok_iff.mp hm
          obtain ⟨⟨m₂, l₂⟩, hdisplacement, hbase⟩ := Outcome.bind_eq_ok_iff.mp hm
          obtain ⟨htag, hsymbol⟩ := tag_of_takeBase hbase
          rw [htag, hsymbol]
          exact tagged_of_takeDisplacement rfl hdisplacement

/-- A relocation tag of an operand that is read belongs to a symbol. -/
lemma tagged_of_operand {o : Operand} (h : operand l = .ok o) : Tagged o := by
  obtain ⟨kind', hkind, h⟩ := Outcome.bind_eq_ok_iff.mp h
  cases h
  intro m hm htag
  obtain rfl : kind' = .memory m := hm
  refine (tagged_of_memoryRef (memoryRef_of_kind hkind).1).resolve_left fun hnone => ?_
  rw [hnone] at htag
  cases htag

end X86

end Hermetic

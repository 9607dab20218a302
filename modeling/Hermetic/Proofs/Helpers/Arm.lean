/-
The helpers that an instruction of AArch64 needs.

* `Arm.Needs`: the helpers that an operand needs, with `Arm.mem_helpers_iff`: an instruction asks
  for exactly the helpers that its operands need;
* `Arm.mentions_of_mem_helpers`: what is written for an instruction mentions every helper that is
  asked for;
* `Arm.reached_or_mem_helpers`: it mentions nothing else but names of its own operands.
-/
import Hermetic.Proofs.Helpers.Names
import Hermetic.Proofs.Sealing.Arm
import Mathlib.Tactic.Lemma

namespace Hermetic.Arm

variable {scope : Scope} {insn : Instruction} {o : Operand} {os : List Operand}
variable {written : List Line.Operand} {changed : Bool} {helpers : List Helper}
variable {lines : Option (List Line)}

/-- The helpers that an operand of an instruction needs. -/
def Needs (scope : Scope) (insn : Instruction) (o : Operand) : Helper → Prop
  | .redirector s => isBranch insn.mnemonic.toLower = true ∧ scope.isExternal s = true ∧
      ∃ m, o.kind = .memory m ∧ m.symbol = some s
  | .gotEntry s => insn.mnemonic.toLower = "adrp" ∧ scope.isExternal s = true ∧
      ∃ offset, pageSymbol? o = some (s, offset)
  | _ => False

/-! ### Operands -/

/-- What a symbol becomes needs a redirector exactly if a branch leaves the module. -/
lemma mem_helpers_sealMemory {mnemonic : String} {m : MemoryRef} {operand : Line.Operand}
    {change : Bool} {more : List Helper}
    (h : sealMemory scope mnemonic o m = .keep operand change more) (helper : Helper) :
    helper ∈ more ↔ ∃ s, helper = .redirector s ∧ isBranch mnemonic = true ∧
      scope.isExternal s = true ∧ m.symbol = some s := by
  cases h
  cases hs : m.symbol with
  | none => simp
  | some s =>
      have hhelpers := Scope.helpers_branchTarget scope s
      by_cases hb : isBranch mnemonic = true
      · simp only [Option.map_some, Option.getD_some, hb, if_true, hhelpers]
        grind
      · simp [hb]

lemma redirector_ne (s : String) : Symbol.redirector s ≠ s := by
  intro h
  have hlength : ("bcm_redirector_" ++ s).length = s.length := congrArg String.length h
  rw [String.length_append] at hlength
  have : "bcm_redirector_".length = 15 := by decide
  omega

/-- A symbol that needs a redirector is changed. -/
lemma helpers_sealMemory_eq_nil {mnemonic : String} {m : MemoryRef} {operand : Line.Operand}
    {more : List Helper} (h : sealMemory scope mnemonic o m = .keep operand false more) :
    more = [] := by
  unfold sealMemory at h
  cases hs : m.symbol with
  | none =>
      rw [hs] at h
      cases h
      rfl
  | some s =>
      rw [hs] at h
      by_cases hb : isBranch mnemonic = true
      · simp only [Option.map_some, Option.getD_some, hb, if_true, OperandChange.keep.injEq,
          bne_eq_false_iff_eq, Option.some.injEq] at h
        obtain ⟨-, hname, rfl⟩ := h
        rw [List.eq_nil_iff_forall_not_mem]
        intro helper hh
        rw [Scope.branchTarget_fst_of_mem hh .aarch64] at hname
        rw [Scope.helpers_branchTarget] at hh
        split at hh
        · rw [List.mem_singleton.mp hh] at hname
          exact redirector_ne s hname
        · cases hh
      · simp only [Option.map_some, Option.getD_some, hb, OperandChange.keep.injEq] at h
        exact h.2.2.symm

/-- An operand that is kept asks for what it needs, unless the instruction forms the address of a
page. -/
lemma OperandSealed.mem_helpers_iff {operand : Line.Operand} {change : Bool}
    {more : List Helper} (hpage : insn.mnemonic.toLower ≠ "adrp")
    (h : OperandSealed scope insn o (.keep operand change more)) (helper : Helper) :
    helper ∈ more ↔ Needs scope insn o helper := by
  generalize hc : OperandChange.keep operand change more = c at h
  cases h with
  | memory hkind =>
      rw [mem_helpers_sealMemory hc.symm]
      cases helper <;> simp [Needs, hkind, hpage]
  | constant hkind =>
      cases hc
      cases helper <;> simp [Needs, hkind, hpage]
  | copied hmemory =>
      cases hc
      cases helper <;> simp [Needs, hmemory, hpage]
  | base hkind | zero hkind =>
      cases hc
      cases helper <;> simp [Needs, hkind, hpage]
  | whole => cases hc

/-- An operand that asks for helpers is changed. -/
lemma OperandSealed.helpers_eq_nil {operand : Line.Operand} {more : List Helper}
    (h : OperandSealed scope insn o (.keep operand false more)) : more = [] := by
  generalize hc : OperandChange.keep operand false more = c at h
  cases h with
  | memory => exact helpers_sealMemory_eq_nil hc.symm
  | constant | copied | base | zero => exact (OperandChange.keep.inj hc).2.2
  | whole => cases hc

/-! ### Instructions -/

/-- No operand of an instruction that is no branch needs helpers, unless the instruction forms the
address of a page. -/
lemma not_needs (hbranch : isBranch insn.mnemonic.toLower = false)
    (hpage : insn.mnemonic.toLower ≠ "adrp") (helper : Helper) :
    ¬ Needs scope insn o helper := by
  cases helper <;> simp [Needs, hbranch, hpage]

lemma OperandsSealed.mem_helpers_iff (hpage : insn.mnemonic.toLower ≠ "adrp")
    (h : OperandsSealed scope insn os written changed helpers lines) (helper : Helper) :
    helper ∈ helpers ↔ ∃ o ∈ os, Needs scope insn o helper := by
  induction h with
  | nil => simp
  | whole hsealed =>
      -- only an instruction that is no branch is replaced as a whole
      generalize hc : OperandChange.replace _ = c at hsealed
      cases hsealed with
      | whole hbranch => simp [not_needs hbranch hpage]
      | _ => cases hc
  | cons hsealed _ ih =>
      rw [List.mem_append, hsealed.mem_helpers_iff hpage, ih]
      simp

lemma OperandsSealed.helpers_eq_nil
    (h : OperandsSealed scope insn os written changed helpers lines) (hc : changed = false) :
    helpers = [] := by
  induction h with
  | nil | whole => rfl
  | cons hsealed _ ih =>
      rw [Bool.or_eq_false_iff] at hc
      rw [ih hc.2, List.append_nil]
      rw [hc.1] at hsealed
      exact hsealed.helpers_eq_nil

/-- An instruction whose operands are no symbols needs no helpers. -/
lemma not_needs_of_mem_symbolFree (hfree : insn.mnemonic.toLower ∈ symbolFree)
    (helper : Helper) : ¬ Needs scope insn o helper := by
  have hfacts : ∀ mnemonic ∈ symbolFree, isBranch mnemonic = false ∧ mnemonic ≠ "adrp" := by
    decide +kernel
  exact not_needs (hfacts _ hfree).1 (hfacts _ hfree).2 helper

/-- A register holds no page. -/
lemma pageSymbol?_eq_none {role : RegisterRole} {r : String} (h : xRegister role o = .ok r) :
    pageSymbol? o = none := by
  unfold xRegister Operand.register? at h
  unfold pageSymbol?
  split at h
  · next hr =>
      split at hr
      · next hkind => rw [hkind]
      · cases hr
  · cases h

/-- The symbol of a page is one of the operand. -/
lemma mem_symbols_of_pageSymbol? {symbol offset : String}
    (h : pageSymbol? o = some (symbol, offset)) : symbol ∈ o.kind.symbols := by
  unfold pageSymbol? at h
  split at h
  · next m hkind =>
      rw [hkind]
      split at h
      · obtain ⟨_, hm, heq⟩ := Option.map_eq_some_iff.mp h
        cases heq
        exact Option.mem_toList.mpr hm
      · cases h
  · next r hkind =>
      rw [hkind]
      split at h
      · cases h
        exact List.mem_singleton.mpr rfl
      · cases h
  · cases h

/-- An instruction asks for exactly the helpers that its operands need. -/
lemma mem_helpers_iff {s : Statement} {e : Emission}
    (h : sealInstruction scope s insn = .ok e) (helper : Helper) :
    helper ∈ e.helpers ↔ ∃ o ∈ insn.operands, Needs scope insn o helper := by
  rcases sealInstruction_eq_ok h with ⟨hfree, rfl⟩ | ⟨hpage, h⟩ |
    ⟨hpage, written, changed, helpers, lines, hsealed, h⟩
  · constructor
    · exact fun hh => (List.not_mem_nil hh).elim
    · rintro ⟨o, -, ho⟩
      exact (not_needs_of_mem_symbolFree hfree helper ho).elim
  · obtain ⟨target, source, register, symbol, offset, hops, hregister, hsymbol, h⟩ :=
      pageAddress_eq_ok h
    have htarget := pageSymbol?_eq_none hregister
    have hbranch : isBranch "adrp" = false := by decide
    rw [hops]
    rcases h with ⟨hinside, rfl⟩ | ⟨houtside, rfl⟩
    · cases helper <;> simp [Emission.replace, Needs, hpage, hbranch, htarget, hsymbol]
      grind
    · cases helper <;> simp [Emission.replace, Needs, hpage, hbranch, htarget, hsymbol]
      grind
  · rw [← hsealed.mem_helpers_iff hpage]
    rcases h with ⟨-, hchanged, rfl⟩ | ⟨-, -, rfl⟩ | ⟨instead, -, rfl⟩
    · rw [hsealed.helpers_eq_nil hchanged]
      rfl
    · rfl
    · rfl

/-! ### Names that are written -/

/-- Lines in the place of an instruction that is no page address mention nothing. -/
lemma mentions_of_whole {instead : List Line}
    (h : OperandSealed scope insn o (.replace instead)) :
    instead.flatMap Line.mentions = [] := by
  generalize hc : OperandChange.replace instead = c at h
  cases h with
  | whole _ hlines =>
      cases hc
      rcases hlines with rfl | ⟨target, x, -, -, rfl⟩ <;> rfl
  | memory | constant | copied | base | zero => cases hc

/-- How an operand is written mentions a name of its own, or a helper that is asked for. -/
lemma OperandSealed.reached_or_mem {operand : Line.Operand} {change : Bool} {more : List Helper}
    (ho : o ∈ insn.operands) (h : OperandSealed scope insn o (.keep operand change more))
    {name : String} (hn : name ∈ operand.mentions) :
    scope.Reached insn name ∨ ∃ helper ∈ more, name = helper.name .aarch64 := by
  have hown {symbol : String} (hs : symbol ∈ o.kind.symbols)
      (hname : name = scope.inside symbol ∨ name = scope.localized symbol) :
      scope.Reached insn name := ⟨o, ho, symbol, hs, hname⟩
  generalize hc : OperandChange.keep operand change more = c at h
  cases h with
  | @memory m hkind =>
      obtain ⟨rfl, -, rfl⟩ := OperandChange.keep.inj hc
      cases hsymbol : m.symbol with
      | none =>
          rw [hsymbol] at hn
          cases hn
      | some symbol =>
          have hs : symbol ∈ o.kind.symbols := Operand.mem_symbols_of_memory hkind hsymbol
          -- a branch goes to a redirector if its symbol is external
          by_cases hb : isBranch insn.mnemonic.toLower = true
          · have hn : name = (scope.branchTarget symbol).1 := by
              simpa [Line.Operand.mentions, Operand.withKind, Operand.Kind.symbols, hsymbol, hb]
                using hn
            simp only [Option.map_some, Option.getD_some, hb, if_true]
            rcases scope.branchTarget_fst symbol with htarget | ⟨hmem, htarget⟩
            · exact .inl (hown hs (.inl (hn.trans htarget)))
            · exact .inr ⟨.redirector symbol, hmem, hn.trans htarget⟩
          · have hn : name = scope.inside symbol := by
              simpa [Line.Operand.mentions, Operand.withKind, Operand.Kind.symbols, hsymbol, hb]
                using hn
            exact .inl (hown hs (.inl hn))
  | @constant sigil value hkind =>
      obtain ⟨rfl, -, rfl⟩ := OperandChange.keep.inj hc
      have hn : name ∈ (value.mapSymbols scope.localized).symbols := hn
      rw [Expr.symbols_mapSymbols, List.mem_map] at hn
      obtain ⟨symbol, hs, rfl⟩ := hn
      exact .inl (hown (by simpa [hkind, Operand.Kind.symbols] using hs) (.inr rfl))
  | copied | base | zero =>
      obtain ⟨rfl, -, rfl⟩ := OperandChange.keep.inj hc
      cases hn
  | whole => cases hc

lemma OperandsSealed.reached_or_mem (hos : ∀ o ∈ os, o ∈ insn.operands)
    (h : OperandsSealed scope insn os written changed helpers lines) {name : String}
    (hn : name ∈ written.flatMap Line.Operand.mentions) :
    scope.Reached insn name ∨ ∃ helper ∈ helpers, name = helper.name .aarch64 := by
  induction h with
  | nil | whole => cases hn
  | cons hsealed _ ih =>
      rw [List.flatMap_cons, List.mem_append] at hn
      rcases hn with hn | hn
      · refine (hsealed.reached_or_mem (hos _ List.mem_cons_self) hn).imp_right ?_
        exact fun ⟨helper, hh, hname⟩ => ⟨helper, List.mem_append_left _ hh, hname⟩
      · refine (ih (fun p hp => hos p (List.mem_cons_of_mem _ hp)) hn).imp_right ?_
        exact fun ⟨helper, hh, hname⟩ => ⟨helper, List.mem_append_right _ hh, hname⟩

/-- The lines that stand in the place of an instruction that is sealed mention nothing. -/
lemma OperandsSealed.mentions_lines {instead : List Line}
    (h : OperandsSealed scope insn os written changed helpers lines)
    (hlines : lines = some instead) : instead.flatMap Line.mentions = [] := by
  induction h with
  | nil => cases hlines
  | whole hsealed =>
      cases hlines
      exact mentions_of_whole hsealed
  | cons _ _ ih => exact ih hlines

/-- The load of an address from outside the module mentions its helper, and nothing else. -/
lemma mentions_loadExternal (symbol target : String) :
    (loadExternal symbol target).flatMap Line.mentions = [Symbol.gotHelper symbol] := by
  unfold loadExternal
  split <;> rfl

/-- What is written for an instruction mentions names of its own operands, or helpers that are
asked for. -/
lemma reached_or_mem_helpers {s : Statement} {e : Emission}
    (h : sealInstruction scope s insn = .ok e) {name : String} (hn : name ∈ e.mentions) :
    scope.Reached insn name ∨ ∃ helper ∈ e.helpers, name = helper.name .aarch64 := by
  rcases sealInstruction_eq_ok h with ⟨-, rfl⟩ | ⟨-, h⟩ |
    ⟨-, written, changed, helpers, lines, hsealed, h⟩
  · cases hn
  · obtain ⟨target, source, register, symbol, offset, hops, -, hsymbol, h⟩ :=
      pageAddress_eq_ok h
    rcases h with ⟨-, rfl⟩ | ⟨-, rfl⟩
    · have hs : symbol ∈ source.kind.symbols := mem_symbols_of_pageSymbol? hsymbol
      have hn : name = scope.inside symbol := List.mem_singleton.mp hn
      refine .inl ⟨source, ?_, symbol, hs, .inl hn⟩
      rw [hops]
      exact List.mem_cons_of_mem _ List.mem_cons_self
    · rw [Emission.mentions_replace, mentions_loadExternal, List.mem_singleton] at hn
      exact .inr ⟨.gotEntry symbol, List.mem_cons_self, hn⟩
  · rcases h with ⟨-, -, rfl⟩ | ⟨-, -, rfl⟩ | ⟨instead, hlines, rfl⟩
    · cases hn
    · rw [Emission.mentions_replace, List.flatMap_singleton] at hn
      exact hsealed.reached_or_mem (fun _ ho => ho) hn
    · rw [Emission.mentions_replace, hsealed.mentions_lines hlines] at hn
      cases hn

/-- How an operand is written mentions every helper that it asks for. -/
lemma OperandSealed.mentions_of_mem {operand : Line.Operand} {change : Bool}
    {more : List Helper} (h : OperandSealed scope insn o (.keep operand change more))
    {helper : Helper} (hh : helper ∈ more) : helper.name .aarch64 ∈ operand.mentions := by
  generalize hc : OperandChange.keep operand change more = c at h
  cases h with
  | @memory m hkind =>
      obtain ⟨s, rfl, hb, he, hs⟩ := (mem_helpers_sealMemory hc.symm helper).mp hh
      obtain ⟨rfl, -, rfl⟩ := OperandChange.keep.inj hc
      have hmem : Helper.redirector s ∈ (scope.branchTarget s).2 := by
        rw [Scope.helpers_branchTarget, if_pos he]
        exact List.mem_singleton.mpr rfl
      rw [← Scope.branchTarget_fst_of_mem hmem]
      simp [Line.Operand.mentions, Operand.withKind, Operand.Kind.symbols, hs, hb]
  | constant | copied | base | zero =>
      rw [(OperandChange.keep.inj hc).2.2] at hh
      cases hh
  | whole => cases hc

lemma OperandsSealed.mentions_of_mem
    (h : OperandsSealed scope insn os written changed helpers lines) {helper : Helper}
    (hh : helper ∈ helpers) : helper.name .aarch64 ∈ written.flatMap Line.Operand.mentions := by
  induction h with
  | nil | whole => cases hh
  | cons hsealed _ ih =>
      rw [List.flatMap_cons, List.mem_append]
      rcases List.mem_append.mp hh with hh | hh
      · exact .inl (hsealed.mentions_of_mem hh)
      · exact .inr (ih hh)

/-- No branch is replaced as a whole. -/
lemma OperandsSealed.isBranch_eq_false {instead : List Line}
    (h : OperandsSealed scope insn os written changed helpers lines)
    (hlines : lines = some instead) : isBranch insn.mnemonic.toLower = false := by
  induction h with
  | nil => cases hlines
  | whole hsealed =>
      generalize hc : OperandChange.replace _ = c at hsealed
      cases hsealed with
      | whole hbranch => exact hbranch
      | memory | constant | copied | base | zero => cases hc
  | cons _ _ ih => exact ih hlines

/-- What is written for an instruction mentions every helper that is asked for. -/
lemma mentions_of_mem_helpers {s : Statement} {e : Emission}
    (h : sealInstruction scope s insn = .ok e) {helper : Helper} (hh : helper ∈ e.helpers) :
    helper.name .aarch64 ∈ e.mentions := by
  rcases sealInstruction_eq_ok h with ⟨-, rfl⟩ | ⟨-, h⟩ |
    ⟨hpage, written, changed, helpers, lines, hsealed, h⟩
  · cases hh
  · obtain ⟨target, source, register, symbol, offset, -, -, -, h⟩ := pageAddress_eq_ok h
    rcases h with ⟨-, rfl⟩ | ⟨-, rfl⟩
    · cases hh
    · rw [Emission.mentions_replace, mentions_loadExternal, List.mem_singleton.mp hh]
      exact List.mem_singleton.mpr rfl
  · rcases h with ⟨-, -, rfl⟩ | ⟨-, -, rfl⟩ | ⟨instead, hlines, rfl⟩
    · cases hh
    · rw [Emission.mentions_replace, List.flatMap_singleton]
      exact hsealed.mentions_of_mem hh
    · obtain ⟨o, -, ho⟩ := (hsealed.mem_helpers_iff hpage helper).mp hh
      exact (not_needs (hsealed.isBranch_eq_false hlines) hpage helper ho).elim

end Hermetic.Arm

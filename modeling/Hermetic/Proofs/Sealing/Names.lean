/-
The names that are written for an instruction of AArch64.

The symbols of an instruction are exchanged for names that are reached where they are written.
Names that stand in a text, which is not read as symbols, are copied.

* `Operand.Kind.textNames`: the names in the texts of an operand, beside its symbols;
* `Arm.Resolved`: names that are reached where they are written, and public names in constants;
* `Arm.sealInstruction_resolved`: every symbol that is written is resolved, and every other name is
  copied with a text;
* `Arm.exists_name_not_renamed`: a reference keeps the local names in its offset.
-/
import Hermetic.Proofs.Helpers.Arm
import Hermetic.Proofs.Sealing.Resolved

namespace Hermetic

/-! ### Names of operands -/

/-- The names that stand in a text. -/
def textNames (text : String) : List String :=
  (Expr.parse text.toList).symbols

/-- The names that stand in a text where a register is expected. -/
def registerNames (text : String) : List String :=
  if Arm.isRegister text.toList then [] else textNames text

/-- The names in the texts of an operand, which are not read as symbols. -/
def Operand.Kind.textNames : Operand.Kind → List String
  | register name => registerNames name
  | registerList text | modifier text | raw text => Hermetic.textNames text
  | indexed x =>
    registerNames x.base ++
      match x.rest with
      | some (.text text) => Hermetic.textNames text
      | _ => []
  | _ => []

namespace Arm

variable {scope : Scope} {insn : Instruction} {helpers more : List Helper} {o : Operand}
variable {name symbol : String}

/-- Names that are reached where they are written: aliases of the symbols of the module, local
names as they are written for their file, helpers that are asked for, and names outside the
module.  Constants keep public names. -/
inductive Resolved (scope : Scope) (insn : Instruction) (helpers : List Helper) : String → Prop
  | aliased {symbol : String} : symbol ∈ insn.symbols → scope.defines symbol = true →
      Resolved scope insn helpers (Symbol.localAlias symbol)
  | renamed {symbol : String} : symbol ∈ insn.symbols → Symbol.isDotLocal symbol = true →
      Resolved scope insn helpers (Symbol.renamed symbol scope.index)
  | helper {helper : Helper} : helper ∈ helpers →
      Resolved scope insn helpers (helper.name .aarch64)
  | outside {symbol : String} : symbol ∈ insn.symbols → scope.defines symbol = false →
      Symbol.isDotLocal symbol = false → Resolved scope insn helpers symbol
  | constant {source : Operand} {sigil : Option Char} {value : Expr} {symbol : String} :
      source ∈ insn.operands → source.kind = .immediate sigil value → symbol ∈ value.symbols →
        Symbol.isDotLocal symbol = false → Resolved scope insn helpers symbol

/-- Names that are copied with a text of an instruction. -/
def Copied (insn : Instruction) (name : String) : Prop :=
  ∃ source ∈ insn.operands, name ∈ source.kind.textNames

namespace Resolved

lemma mono (h : Resolved scope insn helpers name) (hsub : helpers ⊆ more) :
    Resolved scope insn more name := by
  cases h with
  | aliased hmem hdefines => exact .aliased hmem hdefines
  | renamed hmem hlocal => exact .renamed hmem hlocal
  | helper hh => exact .helper (hsub hh)
  | outside hmem hdefines hlocal => exact .outside hmem hdefines hlocal
  | constant hsource hkind hmem hlocal => exact .constant hsource hkind hmem hlocal

lemma inside (hmem : symbol ∈ insn.symbols) :
    Resolved scope insn helpers (scope.inside symbol) := by
  rcases scope.inside_cases symbol with ⟨hdefines, heq⟩ | ⟨hlocal, heq⟩ | ⟨hdefines, hlocal, heq⟩
  · exact heq ▸ .aliased hmem hdefines
  · exact heq ▸ .renamed hmem hlocal
  · rw [heq]
    exact .outside hmem hdefines hlocal

lemma branchTarget (hmem : symbol ∈ insn.symbols) :
    Resolved scope insn (scope.branchTarget symbol).2 (scope.branchTarget symbol).1 := by
  rcases scope.branchTarget_fst symbol with hinside | ⟨hredirector, htarget⟩
  · rw [hinside]
    exact .inside hmem
  · rw [htarget]
    exact .helper hredirector

/-- Where the symbols of a module are public, one of them is named in public only as a helper, or in
a constant. -/
lemma helper_or_constant_of_defines (h : Resolved scope insn helpers name)
    (hpublic : scope.symbols.IsPublic) (hname : scope.defines name = true) :
    (∃ helper ∈ helpers, name = helper.name .aarch64) ∨
      ∃ source ∈ insn.operands, ∃ sigil value,
        source.kind = .immediate sigil value ∧ name ∈ value.symbols := by
  have hnotLocal := Bool.eq_false_iff.mp (hpublic name hname)
  cases h with
  | aliased => exact absurd (Symbol.isDotLocal_localAlias _) hnotLocal
  | renamed _ hlocal => exact absurd (Symbol.isDotLocal_renamed hlocal _) hnotLocal
  | helper hh => exact .inl ⟨_, hh, rfl⟩
  | outside _ hdefines =>
      rw [hdefines] at hname
      cases hname
  | constant hsource hkind hmem => exact .inr ⟨_, hsource, _, _, hkind, hmem⟩

/-- A local name that is reached from a file that is not the first is that of a helper, or differs
from the symbol that it is written for. -/
lemma exists_ne_of_isDotLocal (h : Resolved scope insn helpers name) (hindex : scope.index ≠ 0)
    (hname : Symbol.isDotLocal name = true) :
    (∃ helper ∈ helpers, name = helper.name .aarch64) ∨
      ∃ symbol ∈ insn.symbols, symbol ≠ name ∧
        (name = Symbol.localAlias symbol ∨ name = Symbol.renamed symbol scope.index) := by
  cases h with
  | @aliased symbol hmem =>
      exact .inr ⟨symbol, hmem, (Symbol.localAlias_ne symbol).symm, .inl rfl⟩
  | @renamed symbol hmem hlocal =>
      exact .inr ⟨symbol, hmem, (Symbol.renamed_ne hindex symbol).symm, .inr rfl⟩
  | helper hh => exact .inl ⟨_, hh, rfl⟩
  | outside _ _ hlocal | constant _ _ _ hlocal =>
      rw [hlocal] at hname
      cases hname

/-- A symbol of a constant is resolved: a local name is written for its file, and a public name is
kept. -/
lemma localized {sigil : Option Char} {value : Expr} (ho : o ∈ insn.operands)
    (hkind : o.kind = .immediate sigil value) (hmem : symbol ∈ value.symbols) :
    Resolved scope insn helpers (scope.localized symbol) := by
  have hsymbol : symbol ∈ insn.symbols := Instruction.mem_symbols ho (hkind ▸ hmem)
  rw [Scope.localized, Symbol.localized]
  split
  · next hlocal => exact .renamed hsymbol hlocal
  · next hlocal => exact .constant ho hkind hmem (by simpa using hlocal)

end Resolved

/-! ### Operands -/

/-- Operands whose symbols are resolved, and whose texts are those of the instruction. -/
structure Accounted (scope : Scope) (insn : Instruction) (helpers : List Helper) (o : Operand) :
    Prop where
  symbols : ∀ name ∈ o.kind.symbols, Resolved scope insn helpers name
  texts : ∀ name ∈ o.kind.textNames, Copied insn name

lemma Accounted.mono (h : Accounted scope insn helpers o) (hsub : helpers ⊆ more) :
    Accounted scope insn more o :=
  ⟨fun name hname => (h.symbols name hname).mono hsub, h.texts⟩

lemma Accounted.of_kind_eq {p : Operand} (h : Accounted scope insn helpers p)
    (hkind : p.kind = o.kind) : Accounted scope insn helpers o :=
  ⟨hkind ▸ h.symbols, hkind ▸ h.texts⟩

lemma accounted_of_symbols_eq_nil (hsymbols : o.kind.symbols = [])
    (htexts : ∀ name ∈ o.kind.textNames, Copied insn name) : Accounted scope insn helpers o := by
  refine ⟨fun name hname => ?_, htexts⟩
  rw [hsymbols] at hname
  cases hname

/-- The kinds of operand of x86-64 that are for the offset table are never read. -/
lemma not_offset_of_kind {l : List Char} {k : Operand.Kind} (h : kind l = .ok k) :
    (∀ anchor, k ≠ .gotDistance anchor) ∧ ∀ symbol fromTable, k ≠ .gotOffset symbol fromTable := by
  unfold kind at h
  dsimp only at h
  split at h
  · obtain ⟨x, -, rfl⟩ := Outcome.map_eq_ok_iff.mp h
    exact ⟨nofun, nofun⟩
  · cases h
    exact ⟨nofun, nofun⟩
  · obtain ⟨r, -, rfl⟩ := Outcome.map_eq_ok_iff.mp h
    exact ⟨nofun, nofun⟩
  · cases h
    exact ⟨nofun, nofun⟩
  · obtain ⟨r, -, rfl⟩ := Outcome.map_eq_ok_iff.mp h
    exact ⟨nofun, nofun⟩
  · repeat' split at h
    all_goals
      cases h
      exact ⟨nofun, nofun⟩

/-- Whether an operand is one that is read. -/
def IsRead (o : Operand) : Prop :=
  ∃ l, operand l = .ok o

/-- An operand that is copied has no symbols if it is read. -/
lemma symbols_eq_nil_of_copied (hread : IsRead o) (hmemory : ∀ m, o.kind ≠ .memory m)
    (himmediate : ∀ sigil value, o.kind ≠ .immediate sigil value)
    (hrelocation : ∀ r, o.kind ≠ .relocation r)
    (hindexed : ∀ x r, o.kind = .indexed x → x.rest ≠ some (.relocation r)) :
    o.kind.symbols = [] := by
  obtain ⟨l, hl⟩ := hread
  obtain ⟨k, hk, heq⟩ := Outcome.bind_eq_ok_iff.mp hl
  obtain rfl := Except.ok.inj heq
  obtain ⟨hdistance, hoffset⟩ := not_offset_of_kind hk
  unfold Operand.Kind.symbols
  split
  · next m hkind => exact (hmemory m hkind).elim
  · next sigil value hkind => exact (himmediate sigil value hkind).elim
  · next anchor hkind => exact (hdistance anchor hkind).elim
  · next symbol fromTable hkind => exact (hoffset symbol fromTable hkind).elim
  · next r hkind => exact (hrelocation r hkind).elim
  · next x hkind =>
      split
      · next r hrest => exact (hindexed x r hkind hrest).elim
      · rfl
  · rfl

/-- The names of an operand that is written are resolved, or copied from a text. -/
lemma OperandSealed.accounted {operand : Line.Operand} {change : Bool} {helpers : List Helper}
    (h : OperandSealed scope insn o (.keep operand change helpers)) (ho : o ∈ insn.operands)
    (hread : IsRead o) : Accounted scope insn helpers operand.operand := by
  generalize hc : OperandChange.keep operand change helpers = c at h
  cases h with
  | @memory m hkind =>
      obtain ⟨rfl, -, rfl⟩ := OperandChange.keep.inj hc
      refine ⟨fun name hname => ?_, List.forall_mem_nil _⟩
      cases hsymbol : m.symbol with
      | none =>
          rw [hsymbol] at hname
          cases hname
      | some symbol =>
          have hmem : symbol ∈ insn.symbols :=
            Instruction.mem_symbols ho (Operand.mem_symbols_of_memory hkind hsymbol)
          rw [hsymbol] at hname
          -- a branch goes where the symbol does, anything else to a name inside the module
          by_cases hb : isBranch insn.mnemonic.toLower = true
          · simp only [Option.map_some, hb, if_true, Option.getD_some] at hname ⊢
            rw [List.mem_singleton.mp hname]
            exact .branchTarget hmem
          · simp only [Option.map_some, hb, Option.getD_some] at hname ⊢
            rw [List.mem_singleton.mp hname]
            exact .inside hmem
  | @constant sigil value hkind =>
      obtain ⟨rfl, -, rfl⟩ := OperandChange.keep.inj hc
      refine ⟨fun name hname => ?_, List.forall_mem_nil _⟩
      have hname : name ∈ (value.mapSymbols scope.localized).symbols := hname
      rw [Expr.symbols_mapSymbols, List.mem_map] at hname
      obtain ⟨symbol, hmem, rfl⟩ := hname
      exact .localized ho hkind hmem
  | copied hmemory himmediate hrelocation hindexed =>
      obtain ⟨rfl, -, rfl⟩ := OperandChange.keep.inj hc
      exact accounted_of_symbols_eq_nil
        (symbols_eq_nil_of_copied hread hmemory himmediate hrelocation hindexed)
        fun name hname => ⟨o, ho, hname⟩
  | @base x hkind =>
      obtain ⟨rfl, -, rfl⟩ := OperandChange.keep.inj hc
      refine accounted_of_symbols_eq_nil rfl fun name hname => ⟨o, ho, ?_⟩
      have hname : name ∈ registerNames x.base ++ [] := hname
      rw [List.append_nil] at hname
      rw [hkind]
      exact List.mem_append_left _ hname
  | zero =>
      obtain ⟨rfl, -, rfl⟩ := OperandChange.keep.inj hc
      exact accounted_of_symbols_eq_nil rfl nofun
  | whole => cases hc

/-- An operand that does not change is written as what it is. -/
lemma OperandSealed.kind_of_unchanged {operand : Line.Operand} {helpers : List Helper}
    (h : OperandSealed scope insn o (.keep operand false helpers)) :
    operand.operand.kind = o.kind := by
  generalize hc : OperandChange.keep operand false helpers = c at h
  cases h with
  | @memory m hkind =>
      obtain ⟨rfl, hsame, -⟩ := OperandChange.keep.inj hc
      have hsame := bne_eq_false_iff_eq.mp hsame.symm
      change Operand.Kind.memory { m with symbol := _ } = o.kind
      rw [hsame, hkind]
  | @constant sigil value hkind =>
      obtain ⟨rfl, hsame, -⟩ := OperandChange.keep.inj hc
      have hsame := bne_eq_false_iff_eq.mp hsame.symm
      change Operand.Kind.immediate sigil _ = o.kind
      rw [hsame, hkind]
  | copied =>
      obtain ⟨rfl, -⟩ := OperandChange.keep.inj hc
      rfl
  | base | zero => cases (OperandChange.keep.inj hc).2.1
  | whole => cases hc

/-! ### Instructions -/

lemma accounted_register {target : String}
    (h : target ∈ insn.operands.filterMap Operand.register?) :
    Accounted scope insn helpers (Line.Operand.register target).operand := by
  obtain ⟨source, hsource, hregister⟩ := List.mem_filterMap.mp h
  refine accounted_of_symbols_eq_nil rfl fun name hname => ⟨source, hsource, ?_⟩
  unfold Operand.register? at hregister
  split at hregister
  · next hkind =>
      cases hregister
      rw [hkind]
      exact hname
  · cases hregister

variable {os : List Operand} {written : List Line.Operand} {changed : Bool}
variable {lines : Option (List Line)}

lemma OperandsSealed.accounted (h : OperandsSealed scope insn os written changed helpers lines)
    (hos : ∀ o ∈ os, o ∈ insn.operands) (hread : ∀ o ∈ insn.operands, IsRead o) :
    ∀ operand ∈ written, Accounted scope insn helpers operand.operand := by
  induction h with
  | nil | whole => exact List.forall_mem_nil _
  | cons hsealed _ ih =>
      obtain ⟨ho, hos⟩ := List.forall_mem_cons.mp hos
      refine List.forall_mem_cons.mpr ⟨?_, fun operand hoperand => ?_⟩
      · exact (hsealed.accounted ho (hread _ ho)).mono (List.subset_append_left ..)
      · exact (ih hos operand hoperand).mono (List.subset_append_right ..)

/-- The operands of an instruction that does not change are written as they are. -/
lemma OperandsSealed.accounted_of_unchanged
    (h : OperandsSealed scope insn os written changed helpers lines) (hchanged : changed = false)
    (hlines : lines = none) (hos : ∀ o ∈ os, o ∈ insn.operands)
    (hread : ∀ o ∈ insn.operands, IsRead o) : ∀ o ∈ os, Accounted scope insn [] o := by
  induction h with
  | nil => exact List.forall_mem_nil _
  | whole => cases hlines
  | cons hsealed _ ih =>
      obtain ⟨ho, hos⟩ := List.forall_mem_cons.mp hos
      obtain ⟨hchange, hchanged⟩ := Bool.or_eq_false_iff.mp hchanged
      rw [hchange] at hsealed
      refine List.forall_mem_cons.mpr ⟨?_, ih hchanged hlines hos⟩
      have haccounted := hsealed.accounted ho (hread _ ho)
      rw [hsealed.helpers_eq_nil] at haccounted
      exact haccounted.of_kind_eq hsealed.kind_of_unchanged

/-- The lines that take the place of an instruction name registers of its operands. -/
lemma OperandsSealed.accounted_lines {instead : List Line}
    (h : OperandsSealed scope insn os written changed helpers lines)
    (hlines : lines = some instead) (hos : ∀ o ∈ os, o ∈ insn.operands) :
    ∀ o ∈ instead.flatMap Line.operands, Accounted scope insn helpers o := by
  induction h with
  | nil => cases hlines
  | @whole o _ _ hsealed =>
      cases hlines
      generalize hc : OperandChange.replace instead = c at hsealed
      cases hsealed with
      | whole _ hinstead =>
          cases hc
          rcases hinstead with rfl | ⟨target, x, htarget, hkind, rfl⟩
          · exact List.forall_mem_nil _
          · refine List.forall_mem_cons.mpr ⟨accounted_register ?_,
              List.forall_mem_singleton.mpr ?_⟩
            · obtain ⟨first, hfirst, hregister⟩ := Option.bind_eq_some_iff.mp htarget
              exact List.mem_filterMap.mpr ⟨first, List.mem_of_head? hfirst, hregister⟩
            · refine accounted_of_symbols_eq_nil rfl fun name hname =>
                ⟨o, hos o List.mem_cons_self, ?_⟩
              rw [hkind]
              exact List.mem_append_left _ hname
      | memory | constant | copied | base | zero => cases hc
  | cons _ _ ih =>
      intro o ho
      exact (ih hlines (List.forall_mem_cons.mp hos).2 o ho).mono (List.subset_append_right ..)

/-- The operands of the load of an address from outside the module that name nothing. -/
def bareKinds : List Operand.Kind :=
  [.register "sp", .register "x0", .register "lr", .register "xzr",
    .immediate none ⟨[.other "128"]⟩, .immediate (some '#') ⟨[.other "16"]⟩,
    .indexed { base := "sp", rest := some (.text "#-16"), writeback := true },
    .indexed { base := "sp" }]

/-- The load of an address from outside the module names its helper, and a register of the
instruction. -/
lemma accounted_loadExternal {target : String} (hhelper : .gotEntry symbol ∈ helpers)
    (htarget : target ∈ insn.operands.filterMap Operand.register?) :
    ∀ o ∈ (loadExternal symbol target).flatMap Line.operands, Accounted scope insn helpers o := by
  have hbare : ∀ k ∈ bareKinds, k.symbols = [] ∧ k.textNames = [] := by decide +kernel
  have hkinds : ∀ o ∈ (loadExternal symbol target).flatMap Line.operands,
      o.kind = .memory (.ofSymbol (Symbol.gotHelper symbol)) ∨ o.kind = .register target ∨
        o.kind ∈ bareKinds := by
    unfold loadExternal
    split <;> simp [Line.operands, Line.spaced, Line.Operand.operand, Line.Operand.register,
      Line.Operand.ofKind, Line.Operand.symbol, Line.Operand.memory, Operand.ofKind, sp, redZone,
      bareKinds]
  intro o ho
  rcases hkinds o ho with hkind | hkind | hkind
  · refine ⟨fun name hname => ?_, fun name hname => ?_⟩
    · rw [hkind] at hname
      rw [List.mem_singleton.mp hname]
      exact .helper hhelper
    · rw [hkind] at hname
      cases hname
  · exact (accounted_register htarget).of_kind_eq hkind.symm
  · obtain ⟨hsymbols, htexts⟩ := hbare _ hkind
    refine accounted_of_symbols_eq_nil hsymbols fun name hname => ?_
    rw [htexts] at hname
    cases hname

lemma mem_registers_of_xRegister {role : RegisterRole} {register : String}
    (ho : o ∈ insn.operands) (h : xRegister role o = .ok register) :
    register ∈ insn.operands.filterMap Operand.register? := by
  refine List.mem_filterMap.mpr ⟨o, ho, ?_⟩
  unfold xRegister at h
  split at h
  · next hr =>
      cases h
      exact (Option.filter_eq_some_iff.mp hr).1
  · cases h

/-- The operands that are written for the address of a page. -/
lemma accounted_pageAddress {s : Statement} {e : Emission} (h : pageAddress scope s insn = .ok e) :
    ∀ o ∈ e.operands insn, Accounted scope insn e.helpers o := by
  obtain ⟨target, source, register, symbol, offset, hops, hregister, hsymbol, h⟩ :=
    pageAddress_eq_ok h
  have htarget : register ∈ insn.operands.filterMap Operand.register? :=
    mem_registers_of_xRegister (hops ▸ List.mem_cons_self) hregister
  rcases h with ⟨-, rfl⟩ | ⟨-, rfl⟩
  · rw [Emission.operands_replace]
    refine List.forall_mem_cons.mpr ⟨accounted_register htarget,
      List.forall_mem_singleton.mpr ⟨fun name hname => ?_, List.forall_mem_nil _⟩⟩
    rw [List.mem_singleton.mp hname]
    refine .inside (Instruction.mem_symbols ?_ (mem_symbols_of_pageSymbol? hsymbol))
    rw [hops]
    exact List.mem_cons_of_mem _ List.mem_cons_self
  · rw [Emission.operands_replace]
    exact accounted_loadExternal List.mem_cons_self htarget

/-- The operands that are written for an instruction are accounted for. -/
lemma accounted_of_sealInstruction {s : Statement} {e : Emission}
    (hread : ∀ o ∈ insn.operands, IsRead o) (hfree : insn.mnemonic.toLower ∉ symbolFree)
    (h : sealInstruction scope s insn = .ok e) :
    ∀ o ∈ e.operands insn, Accounted scope insn e.helpers o := by
  rcases sealInstruction_eq_ok h with ⟨hmem, -⟩ | ⟨-, hpage⟩ |
    ⟨-, written, changed, helpers, lines, hsealed, h⟩
  · exact absurd hmem hfree
  · exact accounted_pageAddress hpage
  · rcases h with ⟨hlines, hchanged, rfl⟩ | ⟨-, -, rfl⟩ | ⟨instead, hlines, rfl⟩
    · rw [Emission.operands_copy]
      exact hsealed.accounted_of_unchanged hchanged hlines (fun _ ho => ho) hread
    · rw [Emission.operands_replace, List.flatMap_singleton]
      exact List.forall_mem_map.mpr (hsealed.accounted (fun _ ho => ho) hread)
    · rw [Emission.operands_replace]
      exact hsealed.accounted_lines hlines fun _ ho => ho

/-- Of the names that are written for an instruction, those that are read as symbols are aliases,
local names of the file, helpers that are asked for, symbols outside the module and public names in
constants.  All other names are copied with the texts of the instruction.  In particular no symbol
of the module is named in public where an address is formed, save as a helper, and no local name is
kept by a file that is not the first. -/
theorem sealInstruction_resolved {text : String} {statements : List Statement} {s : Statement}
    {e : Emission} (hparse : Statement.parse .aarch64 text = .ok statements)
    (hs : s ∈ statements) (hinsn : s.kind = .instruction insn)
    (hfree : insn.mnemonic.toLower ∉ symbolFree) (h : sealInstruction scope s insn = .ok e) :
    (∀ o ∈ e.operands insn, Accounted scope insn e.helpers o) ∧
      (scope.symbols.IsPublic → ∀ o ∈ e.operands insn, ∀ name ∈ o.kind.symbols,
        scope.defines name = true →
          (∃ helper ∈ e.helpers, name = helper.name .aarch64) ∨
            ∃ source ∈ insn.operands, ∃ sigil value,
              source.kind = .immediate sigil value ∧ name ∈ value.symbols) ∧
      (scope.index ≠ 0 → ∀ o ∈ e.operands insn, ∀ name ∈ o.kind.symbols,
        Symbol.isDotLocal name = true →
          (∃ helper ∈ e.helpers, name = helper.name .aarch64) ∨
            ∃ symbol ∈ insn.symbols, symbol ≠ name ∧
              (name = Symbol.localAlias symbol ∨ name = Symbol.renamed symbol scope.index)) := by
  have hread : ∀ o ∈ insn.operands, IsRead o := Statement.exists_operand hparse hs hinsn
  have haccounted := accounted_of_sealInstruction hread hfree h
  refine ⟨haccounted, fun hpublic o ho name hname => ?_, fun hindex o ho name hname => ?_⟩
  · exact ((haccounted o ho).symbols name hname).helper_or_constant_of_defines hpublic
  · exact ((haccounted o ho).symbols name hname).exists_ne_of_isDotLocal hindex

/-- Whether what is written for some instruction of a text passes a test. -/
def writesAny (scope : Scope) (text : String) (p : Instruction → Emission → Bool) : Bool :=
  (Statement.parse .aarch64 text).toOption.any fun statements => statements.any fun s =>
    match s.kind with
    | .instruction insn => (sealInstruction scope s insn).toOption.any (p insn)
    | _ => false

lemma exists_of_writesAny {text : String} {p : Instruction → Emission → Bool}
    (h : writesAny scope text p = true) :
    ∃ statements s insn e, Statement.parse .aarch64 text = .ok statements ∧ s ∈ statements ∧
      s.kind = .instruction insn ∧ sealInstruction scope s insn = .ok e ∧ p insn e = true := by
  obtain ⟨statements, hparse, h⟩ := Outcome.exists_of_any h
  obtain ⟨s, hs, h⟩ := List.any_eq_true.mp h
  split at h
  · next insn hinsn =>
      obtain ⟨e, hseal, he⟩ := Outcome.exists_of_any h
      exact ⟨statements, s, insn, e, hparse, hs, hinsn, hseal, he⟩
  · cases h

/-- A branch to a local name, in a file that is not the first. -/
theorem sealInstruction_resolved_branch :
    let scope : Scope := ⟨{}, Symbol.defaultMarker, 1⟩
    ∃ statements s insn e, Statement.parse .aarch64 "\tb .Lx\n" = .ok statements ∧
      s ∈ statements ∧ s.kind = .instruction insn ∧ insn.mnemonic.toLower ∉ symbolFree ∧
      sealInstruction scope s insn = .ok e ∧
      (∃ o ∈ e.operands insn, ".Lx_BCM_1" ∈ o.kind.symbols) ∧
      ∀ o ∈ e.operands insn, Accounted scope insn e.helpers o := by
  intro scope
  have hok : writesAny scope "\tb .Lx\n" (fun insn e =>
      decide (insn.mnemonic.toLower ∉ symbolFree ∧
        ∃ o ∈ e.operands insn, ".Lx_BCM_1" ∈ o.kind.symbols)) = true := by
    decide +kernel
  obtain ⟨statements, s, insn, e, hparse, hs, hinsn, hseal, he⟩ := exists_of_writesAny hok
  obtain ⟨hfree, hname⟩ := of_decide_eq_true he
  exact ⟨statements, s, insn, e, hparse, hs, hinsn, hfree, hseal, hname,
    (sealInstruction_resolved hparse hs hinsn hfree hseal).1⟩

/-- A reference keeps the local names in its offset, although other names are written for the
file. -/
theorem exists_name_not_renamed :
    let scope : Scope := ⟨{}, Symbol.defaultMarker, 1⟩
    ∃ statements s insn e,
      Statement.parse .aarch64 "\tldr x0, [x1, #.Ly-.Lx]\n" = .ok statements ∧
      s ∈ statements ∧ s.kind = .instruction insn ∧ insn.mnemonic.toLower ∉ symbolFree ∧
      sealInstruction scope s insn = .ok e ∧
      ∃ o ∈ e.operands insn, ".Lx" ∈ o.kind.textNames ∧ scope.localized ".Lx" ≠ ".Lx" := by
  intro scope
  have hok : writesAny scope "\tldr x0, [x1, #.Ly-.Lx]\n" (fun insn e =>
      decide (insn.mnemonic.toLower ∉ symbolFree ∧
        ∃ o ∈ e.operands insn, ".Lx" ∈ o.kind.textNames)) = true := by
    decide +kernel
  obtain ⟨statements, s, insn, e, hparse, hs, hinsn, hseal, he⟩ := exists_of_writesAny hok
  obtain ⟨hfree, o, ho, hname⟩ := of_decide_eq_true he
  exact ⟨statements, s, insn, e, hparse, hs, hinsn, hfree, hseal, o, ho, hname,
    by decide +kernel⟩

end Arm

end Hermetic

/-
The helpers of a sealed module are those that its instructions need.

* `Statement.NeededIn`: the helpers that a statement needs, with `holds_iff_neededIn`: a module
  ends with exactly the helpers that its statements need, accessors apart;
* `HelpersExact`: this, kind by kind, together with what lines mention;
* `sealed_helpersExact`: it holds of every module that is sealed.
-/
import Hermetic.Proofs.Helpers.Arm
import Hermetic.Proofs.Helpers.X86
import Hermetic.Proofs.Module.Walk

namespace Hermetic

/-! ### Statements -/

namespace Statement

variable {arch : Arch} {scope : Scope} {inBss : Bool} {s : Statement} {e : Emission}
variable {insn : Instruction}

/-- The operands of an instruction that play a role. -/
def liveOperands : Arch → Instruction → List Operand
  | .x86_64, insn => X86.upToLoad insn.operands
  | .aarch64, insn => insn.operands

/-- The helpers that an operand of an instruction needs. -/
def OperandNeeds : Arch → Scope → Instruction → Operand → Helper → Prop
  | .x86_64 => X86.Needs
  | .aarch64 => Arm.Needs

/-- The helpers that a statement needs. -/
def NeededIn (arch : Arch) (scope : Scope) (s : Statement) (helper : Helper) : Prop :=
  ∃ insn, s.kind = .instruction insn ∧
    ∃ o ∈ liveOperands arch insn, OperandNeeds arch scope insn o helper

/-- Whether the relocation tags of an instruction belong to symbols. -/
def OperandsTagged (s : Statement) : Prop :=
  ∀ insn, s.kind = .instruction insn → ∀ o ∈ insn.operands, X86.Tagged o

/-- An instruction for which something is written lies outside zero-initialised storage. -/
lemma sealInstruction_of_emission (hs : s.kind = .instruction insn)
    (h : s.emission arch scope inBss = .ok e) :
    inBss = false ∧ sealInstruction arch scope s insn = .ok e := by
  unfold emission at h
  rw [hs] at h
  cases inBss with
  | true => cases h
  | false =>
      refine ⟨rfl, ?_⟩
      simpa only [sealCode, hs] using h

/-- Whether a directive asks for common storage. -/
def IsCommon (directive : String) : Prop :=
  directive.toLower = ".comm" ∨ directive.toLower = ".lcomm"

/-- Whether a statement asks for common storage with a name. -/
def Reserves (s : Statement) (name : String) : Prop :=
  ∃ directive arguments p, s.kind = .directive directive arguments ∧ IsCommon directive ∧
    (Piece.split arguments.toList).head? = some p ∧ name = String.ofList p.text

/-- A directive asks for accessors of common storage only, which return its address under the name
that it has for the file. -/
lemma helpers_of_sealDirective {directive arguments : String}
    (hs : s.kind = .directive directive arguments)
    (h : sealDirective scope s directive arguments = .ok e) {helper : Helper}
    (hh : helper ∈ e.helpers) : ∃ name, s.Reserves name ∧
      helper = .accessor (scope.localized name) (scope.localized name) := by
  -- sections, and what is copied, ask for nothing
  unfold sealDirective at h
  dsimp only at h
  split at h
  · next hcommon =>
      unfold sealCommon at h
      split at h
      · cases h
      · next p hp =>
          have hreserves : s.Reserves (String.ofList p.text) :=
            ⟨_, _, p, hs, hcommon, (Option.filter_eq_some_iff.mp hp).1, rfl⟩
          dsimp only at h
          split at h
          all_goals
            cases h
            exact ⟨_, hreserves, List.mem_singleton.mp hh⟩
  · split at h
    · cases h
    · split at h
      · unfold sealSection at h
        dsimp only at h
        split at h
        · cases h
        · split at h
          all_goals
            cases h
            try cases hh
      · cases h
        cases hh

/-- Any statement but an instruction asks for accessors only: of common storage, or of the alias
of a label. -/
lemma accessor_of_emission (hs : ∀ insn, s.kind ≠ .instruction insn)
    (h : s.emission arch scope inBss = .ok e) {helper : Helper} (hh : helper ∈ e.helpers) :
    ∃ name, s.Reserves name ∧
        helper = .accessor (scope.localized name) (scope.localized name) ∨
      s.kind = .label (.symbol name) ∧ helper = .accessor name (Symbol.localAlias name) := by
  -- outside of zero-initialised storage, only a directive asks for helpers
  have hcode (h : s.sealCode arch scope = .ok e) : ∃ name, s.Reserves name ∧
      helper = .accessor (scope.localized name) (scope.localized name) := by
    unfold sealCode at h
    cases hkind : s.kind with
    | instruction insn => exact (hs insn hkind).elim
    | directive directive arguments =>
        rw [hkind] at h
        exact helpers_of_sealDirective hkind h hh
    | symbolic directive arguments =>
        rw [hkind] at h
        cases h
        unfold sealData at hh
        dsimp only at hh
        split at hh <;> cases hh
    | binding directive name value =>
        rw [hkind] at h
        cases h
        unfold sealBinding at hh
        dsimp only at hh
        split at hh
        · split at hh <;> cases hh
        · split at hh <;> cases hh
    | label label =>
        rw [hkind] at h
        cases h
        cases label <;> cases hh
    | _ =>
        rw [hkind] at h
        cases h
        cases hh
  unfold emission at h
  split at h
  · next name hkind =>
      cases h
      exact ⟨name, .inr ⟨hkind, List.mem_singleton.mp hh⟩⟩
  · cases h
  · obtain ⟨name, hname⟩ := hcode h
    exact ⟨name, .inl hname⟩

/-- What is written for a statement asks for exactly the helpers that the statement needs, apart
from accessors. -/
lemma mem_helpers_iff (htag : arch = .x86_64 → OperandsTagged s)
    (h : s.emission arch scope inBss = .ok e) {helper : Helper} (hh : helper.Lasting) :
    helper ∈ e.helpers ↔ NeededIn arch scope s helper := by
  by_cases hs : ∃ insn, s.kind = .instruction insn
  · obtain ⟨insn, hs⟩ := hs
    have hsealed := (sealInstruction_of_emission hs h).2
    have hneeded : NeededIn arch scope s helper ↔
        ∃ o ∈ liveOperands arch insn, OperandNeeds arch scope insn o helper := by
      unfold NeededIn
      rw [hs]
      constructor
      · rintro ⟨insn', heq, ho⟩
        cases heq
        exact ho
      · exact fun ho => ⟨insn, rfl, ho⟩
    rw [hneeded]
    cases arch with
    | x86_64 => exact X86.mem_helpers_iff (htag rfl insn hs) hsealed helper
    | aarch64 => exact Arm.mem_helpers_iff hsealed helper
  · constructor
    · intro hmem
      obtain ⟨name, ⟨-, rfl⟩ | ⟨-, rfl⟩⟩ :=
        accessor_of_emission (fun insn hinsn => hs ⟨insn, hinsn⟩) h hmem
      · exact hh.elim
      · exact hh.elim
    · rintro ⟨insn, hinsn, -⟩
      exact (hs ⟨insn, hinsn⟩).elim

/-- No instruction asks for an accessor, or for a helper that has no lines. -/
lemma known_of_mem_helpers (htag : arch = .x86_64 → OperandsTagged s)
    (hs : s.kind = .instruction insn) (h : s.emission arch scope inBss = .ok e)
    {helper : Helper} (hh : helper ∈ e.helpers) : helper.Lasting ∧ helper.Known arch := by
  have hsealed := (sealInstruction_of_emission hs h).2
  cases arch with
  | x86_64 =>
      obtain ⟨o, -, ho⟩ := (X86.mem_helpers_iff (htag rfl insn hs) hsealed helper).mp hh
      cases helper with
      | accessor => exact ho.elim
      | _ => exact ⟨trivial, trivial⟩
  | aarch64 =>
      obtain ⟨o, -, ho⟩ := (Arm.mem_helpers_iff hsealed helper).mp hh
      cases helper with
      | redirector | gotEntry => exact ⟨trivial, trivial⟩
      | _ => exact ho.elim

/-- What is written for an instruction mentions every helper that it asks for. -/
lemma mentions_of_mem_helpers (htag : arch = .x86_64 → OperandsTagged s)
    (hs : s.kind = .instruction insn) (h : s.emission arch scope inBss = .ok e)
    {helper : Helper} (hh : helper ∈ e.helpers) : helper.name arch ∈ e.mentions := by
  have hsealed := (sealInstruction_of_emission hs h).2
  cases arch with
  | x86_64 => exact X86.mentions_of_mem_helpers (htag rfl insn hs) hsealed hh
  | aarch64 => exact Arm.mentions_of_mem_helpers hsealed hh

/-- What is written for an instruction mentions names of its own operands, or helpers that are
asked for. -/
lemma reached_or_mem_helpers (htag : arch = .x86_64 → OperandsTagged s)
    (hs : s.kind = .instruction insn) (h : s.emission arch scope inBss = .ok e) {name : String}
    (hn : name ∈ e.mentions) :
    scope.Reached insn name ∨ ∃ helper ∈ e.helpers, name = helper.name arch := by
  have hsealed := (sealInstruction_of_emission hs h).2
  cases arch with
  | x86_64 => exact X86.reached_or_mem_helpers (htag rfl insn hs) hsealed hn
  | aarch64 => exact Arm.reached_or_mem_helpers hsealed hn

end Statement

/-! ### Modules -/

namespace CodeModule

variable {m : CodeModule} {r : Sealed} {files : List SourceFile} {symbols : SymbolTable}
variable {emissions : List Emission}

/-- The relocation tags of a module for x86-64 belong to symbols. -/
lemma SealedFrom.operandsTagged (h : SealedFrom m r files symbols emissions) {file : SourceFile}
    (hf : file ∈ files) {s : Statement} (hs : s ∈ file.statements) (harch : r.arch = .x86_64) :
    s.OperandsTagged := by
  intro insn hinsn o ho
  obtain ⟨input, -, hparse⟩ := exists_parse_of_readFrom h.read hf
  obtain ⟨l, hl⟩ := Statement.exists_operand hparse hs hinsn o ho
  rw [harch] at hl
  exact X86.tagged_of_operand hl

/-- A module ends with exactly the helpers that its statements need, accessors apart. -/
lemma SealedFrom.holds_iff_neededIn (h : SealedFrom m r files symbols emissions)
    (helper : Helper) (hh : helper.Lasting) :
    r.helpers.Holds helper ↔ ∃ file ∈ files, ∃ s ∈ file.statements,
      s.NeededIn r.arch ⟨symbols, m.marker, file.index⟩ helper := by
  have hnone : ¬ ({} : Helpers).Holds helper := by
    rcases helper with s | ⟨s, t⟩ | s | ⟨s, _ | _⟩ | _
    case gotDelta => exact Bool.false_ne_true
    all_goals exact List.not_mem_nil
  rw [h.requested, Helpers.holds_requestAll hh, or_iff_right hnone, List.mem_flatMap]
  constructor
  · rintro ⟨e, he, hmem⟩
    obtain ⟨file, hf, s, hs, b, hemission⟩ := h.emits.exists_of_mem he
    exact ⟨file, hf, s, hs,
      (Statement.mem_helpers_iff (h.operandsTagged hf hs) hemission hh).mp hmem⟩
  · rintro ⟨file, hf, s, hs, hneeded⟩
    obtain ⟨e, he, b, hemission⟩ := h.emits.exists_mem hf hs
    exact ⟨e, he, (Statement.mem_helpers_iff (h.operandsTagged hf hs) hemission hh).mpr hneeded⟩

end CodeModule

/-! ### Helpers, kind by kind -/

namespace Instruction

/-- Whether an instruction branches to a symbol: a call or jump by its linkage or by the offset
table, or any branch on AArch64. -/
def BranchesTo (insn : Instruction) (symbol : String) : Arch → Prop
  | .x86_64 => (X86.Family.of insn).isJump = true ∧ ∃ o ∈ insn.operands, ∃ m,
      o.kind = .memory m ∧ m.symbol = some symbol ∧
        (m.tag = some "PLT" ∨ m.tag = some "GOTPCREL")
  | .aarch64 => Arm.isBranch insn.mnemonic.toLower = true ∧ ∃ o ∈ insn.operands, ∃ m,
      o.kind = .memory m ∧ m.symbol = some symbol

/-- Whether an instruction that is no branch takes the address of a symbol from the offset table,
by the first operand that does so, or forms the address of its page. -/
def LoadsAddressOf (insn : Instruction) (symbol : String) : Arch → Prop
  | .x86_64 => (X86.Family.of insn).isJump = false ∧ ∃ o m,
      insn.operands.find? X86.isLoad = some o ∧ o.kind = .memory m ∧ m.symbol = some symbol
  | .aarch64 => insn.mnemonic.toLower = "adrp" ∧ ∃ o ∈ insn.operands, ∃ offset,
      Arm.pageSymbol? o = some (symbol, offset)

end Instruction

namespace Statement

variable {arch : Arch} {scope : Scope} {s : Statement}

lemma neededIn_redirector_iff {symbol : String} :
    s.NeededIn arch scope (.redirector symbol) ↔ ∃ insn, s.kind = .instruction insn ∧
      scope.isExternal symbol = true ∧ insn.BranchesTo symbol arch := by
  refine exists_congr fun insn => and_congr_right fun _ => ?_
  cases arch with
  | x86_64 =>
      constructor
      · rintro ⟨o, ho, hj, he, hm⟩
        exact ⟨he, hj, o, X86.mem_of_mem_upToLoad ho, hm⟩
      · rintro ⟨he, hj, o, ho, hm⟩
        rw [← X86.upToLoad_operands_of_isJump hj] at ho
        exact ⟨o, ho, hj, he, hm⟩
  | aarch64 =>
      constructor
      · rintro ⟨o, ho, hb, he, hm⟩
        exact ⟨he, hb, o, ho, hm⟩
      · rintro ⟨he, hb, o, ho, hm⟩
        exact ⟨o, ho, hb, he, hm⟩

lemma neededIn_gotEntry_iff {symbol : String} :
    s.NeededIn arch scope (.gotEntry symbol) ↔ ∃ insn, s.kind = .instruction insn ∧
      scope.isExternal symbol = true ∧ insn.LoadsAddressOf symbol arch := by
  refine exists_congr fun insn => and_congr_right fun _ => ?_
  cases arch with
  | x86_64 =>
      have hload {o : Operand} {m : MemoryRef} (hkind : o.kind = .memory m) :
          X86.isLoad o = true ↔ m.tag = some "GOTPCREL" := by
        rw [X86.isLoad, hkind]
        exact beq_iff_eq
      constructor
      · rintro ⟨o, ho, hj, he, m, hkind, hsymbol, htag⟩
        rw [liveOperands, X86.mem_upToLoad_iff_find? ((hload hkind).mpr htag)] at ho
        exact ⟨he, hj, o, m, ho, hkind, hsymbol⟩
      · rintro ⟨he, hj, o, m, ho, hkind, hsymbol⟩
        have htag := (List.find?_some ho : X86.isLoad o = true)
        rw [← X86.mem_upToLoad_iff_find? htag] at ho
        exact ⟨o, ho, hj, he, m, hkind, hsymbol, (hload hkind).mp htag⟩
  | aarch64 =>
      constructor
      · rintro ⟨o, ho, hm, he, hpage⟩
        exact ⟨he, hm, o, ho, hpage⟩
      · rintro ⟨he, hm, o, ho, hpage⟩
        exact ⟨o, ho, hm, he, hpage⟩

lemma neededIn_gotOffset_iff {name : String} {fromTable : Bool} :
    s.NeededIn arch scope (.gotOffset name fromTable) ↔ arch = .x86_64 ∧
      ∃ insn, s.kind = .instruction insn ∧ ∃ o ∈ X86.upToLoad insn.operands, ∃ symbol,
        o.kind = .gotOffset symbol fromTable ∧ name = scope.localized symbol := by
  cases arch with
  | x86_64 => exact (and_iff_right rfl).symm
  | aarch64 =>
      constructor
      · rintro ⟨insn, -, o, -, ho⟩
        exact ho.elim
      · rintro ⟨h, -⟩
        cases h

lemma neededIn_gotDelta_iff :
    s.NeededIn arch scope .gotDelta ↔ arch = .x86_64 ∧
      ∃ insn, s.kind = .instruction insn ∧ ∃ o ∈ X86.upToLoad insn.operands,
        o.kind = .gotAddress ∨ ∃ anchor, o.kind = .gotDistance anchor := by
  cases arch with
  | x86_64 => exact (and_iff_right rfl).symm
  | aarch64 =>
      constructor
      · rintro ⟨insn, -, o, -, ho⟩
        exact ho.elim
      · rintro ⟨h, -⟩
        cases h

end Statement

/-- The helpers of a module are those that its instructions need, and the lines written for its
instructions mention exactly them. -/
structure HelpersExact (arch : Arch) (scope : SourceFile → Scope) (files : List SourceFile)
    (emissions : List Emission) (helpers : Helpers) : Prop where
  redirectors (symbol : String) : symbol ∈ helpers.redirectors ↔
    ∃ file ∈ files, ∃ s ∈ file.statements, ∃ insn, s.kind = .instruction insn ∧
      (scope file).isExternal symbol = true ∧ insn.BranchesTo symbol arch
  gotEntries (symbol : String) : symbol ∈ helpers.gotEntries ↔
    ∃ file ∈ files, ∃ s ∈ file.statements, ∃ insn, s.kind = .instruction insn ∧
      (scope file).isExternal symbol = true ∧ insn.LoadsAddressOf symbol arch
  /-- An operand after one that loads from the table plays no role. -/
  gotOffsets (name : String) (fromTable : Bool) : helpers.Holds (.gotOffset name fromTable) ↔
    arch = .x86_64 ∧ ∃ file ∈ files, ∃ s ∈ file.statements, ∃ insn, s.kind = .instruction insn ∧
      ∃ o ∈ X86.upToLoad insn.operands, ∃ symbol, o.kind = .gotOffset symbol fromTable ∧
        name = (scope file).localized symbol
  gotDelta : helpers.gotDelta = true ↔
    arch = .x86_64 ∧ ∃ file ∈ files, ∃ s ∈ file.statements, ∃ insn, s.kind = .instruction insn ∧
      ∃ o ∈ X86.upToLoad insn.operands,
        o.kind = .gotAddress ∨ ∃ anchor, o.kind = .gotDistance anchor
  /-- What is mentioned for an instruction is a name of its own, or defined after the module. -/
  defined : ∀ file ∈ files, ∀ s ∈ file.statements, ∀ insn, s.kind = .instruction insn →
    ∃ e ∈ emissions, s.emission arch (scope file) false = .ok e ∧ ∀ name ∈ e.mentions,
      (scope file).Reached insn name ∨ ∃ helper ∈ e.helpers, name = helper.name arch ∧
        helper.lines arch <:+: Boundary.helperLines arch helpers ∧
          Line.labels (helper.lines arch) = [name]
  /-- What is defined after the module, accessors apart, is mentioned for an instruction. -/
  mentioned : ∀ name ∈ Line.labels (Boundary.helperLines arch helpers),
    (∃ symbol target, helpers.Holds (.accessor symbol target) ∧ name = Symbol.accessor symbol) ∨
      ∃ file ∈ files, ∃ s ∈ file.statements, ∃ insn, s.kind = .instruction insn ∧
        ∃ e ∈ emissions, s.emission arch (scope file) false = .ok e ∧ name ∈ e.mentions

namespace CodeModule

variable {m : CodeModule} {r : Sealed} {files : List SourceFile} {symbols : SymbolTable}
variable {emissions : List Emission}

lemma SealedFrom.helpersExact (h : SealedFrom m r files symbols emissions) :
    HelpersExact r.arch (fun file => ⟨symbols, m.marker, file.index⟩) files emissions
      r.helpers where
  redirectors symbol := by
    refine (h.holds_iff_neededIn (.redirector symbol) trivial).trans ?_
    simp only [Statement.neededIn_redirector_iff]
  gotEntries symbol := by
    refine (h.holds_iff_neededIn (.gotEntry symbol) trivial).trans ?_
    simp only [Statement.neededIn_gotEntry_iff]
  gotOffsets name fromTable := by
    refine (h.holds_iff_neededIn (.gotOffset name fromTable) trivial).trans ?_
    simp only [Statement.neededIn_gotOffset_iff]
    grind
  gotDelta := by
    refine (h.holds_iff_neededIn .gotDelta trivial).trans ?_
    simp only [Statement.neededIn_gotDelta_iff]
    grind
  defined file hf s hs insn hinsn := by
    obtain ⟨e, he, b, hemission⟩ := h.emits.exists_mem hf hs
    have htag := h.operandsTagged hf hs
    obtain rfl := (Statement.sealInstruction_of_emission hinsn hemission).1
    refine ⟨e, he, hemission, fun name hn => ?_⟩
    refine (Statement.reached_or_mem_helpers htag hinsn hemission hn).imp_right ?_
    rintro ⟨helper, hh, rfl⟩
    obtain ⟨hlasting, hknown⟩ := Statement.known_of_mem_helpers htag hinsn hemission hh
    have hneeded := (Statement.mem_helpers_iff htag hemission hlasting).mp hh
    have hholds := (h.holds_iff_neededIn helper hlasting).mpr ⟨file, hf, s, hs, hneeded⟩
    exact ⟨helper, hh, rfl, Helpers.lines_infix hholds, Helper.labels_lines hknown⟩
  mentioned name hn := by
    obtain ⟨helper, hholds, -, rfl⟩ := Helpers.exists_of_mem_labels hn
    -- accessors are asked for by the data of the file, all others by an instruction
    by_cases hlasting : helper.Lasting
    · obtain ⟨file, hf, s, hs, hneeded⟩ := (h.holds_iff_neededIn helper hlasting).mp hholds
      obtain ⟨insn, hinsn, -⟩ := id hneeded
      obtain ⟨e, he, b, hemission⟩ := h.emits.exists_mem hf hs
      have htag := h.operandsTagged hf hs
      obtain rfl := (Statement.sealInstruction_of_emission hinsn hemission).1
      have hh := (Statement.mem_helpers_iff htag hemission hlasting).mpr hneeded
      exact .inr ⟨file, hf, s, hs, insn, hinsn, e, he, hemission,
        Statement.mentions_of_mem_helpers htag hinsn hemission hh⟩
    · cases helper with
      | accessor symbol target => exact .inl ⟨symbol, target, hholds, rfl⟩
      | _ => exact (hlasting trivial).elim

/-- The helpers of every module that is sealed are those that its instructions need. -/
theorem sealed_helpersExact (h : m.sealed = .ok r) : ∃ files symbols emissions,
    SealedFrom m r files symbols emissions ∧
      HelpersExact r.arch (fun file => ⟨symbols, m.marker, file.index⟩) files emissions
        r.helpers := by
  obtain ⟨files, symbols, emissions, hfrom⟩ := exists_sealedFrom h
  exact ⟨files, symbols, emissions, hfrom, hfrom.helpersExact⟩

/-- A module that consists of one text. -/
def single (arch : Arch) (text : String) : CodeModule where
  givenArch := some arch
  inputs := [⟨"a.s", text⟩]

/-- A call and a load. -/
theorem sealed_helpersExact_call :
    let m := single .x86_64 "call f@PLT\nmovq g@GOTPCREL(%rip), %rax\n"
    ∃ r, m.sealed = .ok r ∧ r.helpers.redirectors.toList = ["f"] ∧
      r.helpers.gotEntries.toList = ["g"] ∧ ∃ files symbols emissions,
        SealedFrom m r files symbols emissions ∧
          HelpersExact r.arch (fun file => ⟨symbols, m.marker, file.index⟩) files emissions
            r.helpers := by
  intro m
  have hok : m.sealed.toOption.any (fun r => r.helpers.redirectors.toList = ["f"] ∧
      r.helpers.gotEntries.toList = ["g"]) = true := by decide +kernel
  cases h : m.sealed with
  | error e =>
      rw [h] at hok
      cases hok
  | ok r =>
      rw [h] at hok
      have hr : r.helpers.redirectors.toList = ["f"] ∧ r.helpers.gotEntries.toList = ["g"] :=
        of_decide_eq_true hok
      exact ⟨r, rfl, hr.1, hr.2, sealed_helpersExact h⟩

/-- A constant after an operand that loads from the offset table refers to the table, but no
word is written for it. -/
theorem exists_gotOffset_without_word :
    let m := single .x86_64 "cmpq foo@GOTPCREL(%rip), $bar@GOT\n"
    ∃ r files symbols emissions, SealedFrom m r files symbols emissions ∧
      ¬ ∀ name, r.helpers.Holds (.gotOffset name false) ↔
        ∃ file ∈ files, ∃ s ∈ file.statements, ∃ insn, s.kind = .instruction insn ∧
          ∃ o ∈ insn.operands, ∃ symbol, o.kind = .gotOffset symbol false ∧
            name = Symbol.localized symbol file.index := by
  intro m
  -- the module is sealed with no word for an offset, and the instruction was read with one
  have hok : m.sealed.toOption.any (fun r => r.arch = .x86_64 ∧
      r.helpers.gotOffsets.toList = []) = true := by decide +kernel
  have hread : (m.files .x86_64).toOption.any (fun files => files.any fun file =>
      file.index = 0 ∧ file.statements.any fun s => match s.kind with
        | .instruction insn => insn.operands.any fun o => o.kind = .gotOffset "bar" false
        | _ => false) = true := by decide +kernel
  cases h : m.sealed with
  | error e =>
      rw [h] at hok
      cases hok
  | ok r =>
      rw [h] at hok
      have hr : r.arch = .x86_64 ∧ r.helpers.gotOffsets.toList = [] := of_decide_eq_true hok
      obtain ⟨files, symbols, emissions, hfrom⟩ := exists_sealedFrom h
      refine ⟨r, files, symbols, emissions, hfrom, fun hclaim => ?_⟩
      have hfiles := hfrom.read
      rw [hr.1] at hfiles
      rw [hfiles] at hread
      obtain ⟨file, hf, hfile⟩ := List.any_eq_true.mp hread
      obtain ⟨hindex, hstatements⟩ := of_decide_eq_true hfile
      obtain ⟨s, hs, hkind⟩ := List.any_eq_true.mp hstatements
      split at hkind
      · next insn hinsn =>
          obtain ⟨o, ho, hoffset⟩ := List.any_eq_true.mp hkind
          have hmem : "bar" ∈ r.helpers.gotOffsets.toList :=
            (hclaim "bar").mpr ⟨file, hf, s, hs, insn, hinsn, o, ho, "bar",
              of_decide_eq_true hoffset, by rw [hindex, Symbol.localized_zero]⟩
          rw [hr.2] at hmem
          cases hmem
      · cases hkind

end CodeModule

end Hermetic

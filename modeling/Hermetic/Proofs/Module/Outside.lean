/-
The symbols that the helpers of a module are for.

A redirector or an entry of the offset table is for a symbol outside the module, and an accessor
is for storage inside it.  The names come from different places of the source, and not all of
these tell the place of the location counter from a symbol, or a symbol from another text.

* `Statement.ReadsLabel`, `Statement.readsLabel_iff`: the texts that are read as a label when a
  colon follows are the names;
* `HelpersNamed`: what is known of the symbols of helpers;
* `CodeModule.sealed_helpersNamed`: it holds of every module that is sealed;
* `CodeModule.exists_point_redirected`: a branch to the location counter gets a redirector, and
  common storage whose name is no symbol an accessor.
-/
import Hermetic.Proofs.Module.LocalNames
import Hermetic.Proofs.Statement.Mentioned

namespace Hermetic

/-! ### Labels -/

namespace Statement

variable {arch : Arch} {name : String}

/-- The label of a name: a local one or a public one. -/
def labelNamed (name : String) : Label :=
  if Symbol.isDotLocal name then .dotLocal name else .symbol name

/-- Whether a text with a colon after it is read as one statement, the label of that name. -/
def ReadsLabel (arch : Arch) (name : String) : Prop :=
  ∃ t, parse arch (name ++ ":") = .ok [t] ∧ t.kind = .label (labelNamed name)

lemma readsLabel_of_isName (h : IsName name) : ReadsLabel arch name := by
  refine exists_parse_of_shape ?_
  rw [String.toList_append, labelNamed, ← labelOf_of_isName h]
  exact shape_label (labelName_of_isName h)

/-- Exactly the names are read as labels. -/
lemma readsLabel_iff : ReadsLabel arch name ↔ IsName name := by
  refine ⟨fun ⟨t, hparse, hkind⟩ => ?_, readsLabel_of_isName⟩
  have hshape := shape_of_label hparse List.mem_cons_self hkind
  obtain ⟨-, name', -, hname', -, hlabel⟩ := exists_of_shape_label hshape fun text => by
    rw [labelNamed]
    split <;> nofun
  obtain rfl : name = name' := by
    rw [labelNamed] at hlabel
    split at hlabel <;> split at hlabel
    all_goals
      cases hlabel
      try rfl
  exact hname'

end Statement

/-! ### Helpers that are asked for -/

/-- A pair of names that is put among others is there or was there. -/
lemma Helpers.holds_of_request {hs : Helpers} {a h : Helper} (hh : (hs.request a).Holds h) :
    hs.Holds h ∨ h = a := by
  by_cases hlasting : h.Lasting
  · have hsingle : (hs.requestAll [a]).Holds h := hh
    rwa [holds_requestAll hlasting, List.mem_singleton] at hsingle
  · cases h with
    | accessor key target =>
        rcases a with s | ⟨s, t⟩ | s | ⟨s, _ | _⟩ | _
        case accessor =>
          rcases NameMap.fst_mem_place hh with heq | hmem
          · cases heq
            exact .inr rfl
          · exact .inl hmem
        all_goals exact .inl hh
    | _ => exact (hlasting trivial).elim

/-- Whatever is there was there or was asked for. -/
lemma Helpers.holds_of_requestAll {hs : Helpers} {l : List Helper} {h : Helper}
    (hh : (hs.requestAll l).Holds h) : hs.Holds h ∨ h ∈ l := by
  induction l generalizing hs with
  | nil => exact .inl hh
  | cons a l ih =>
      rcases ih hh with hh | hmem
      · rcases holds_of_request hh with hh | rfl
        · exact .inl hh
        · exact .inr List.mem_cons_self
      · exact .inr (List.mem_cons_of_mem _ hmem)

/-! ### Symbols of helpers -/

/-- The symbol that a helper is for. -/
def Helper.symbol? : Helper → Option String
  | redirector s | accessor s _ | gotEntry s | gotOffset s _ => some s
  | gotDelta => none

/-- What is for a name has a name. -/
lemma Helper.isName_name {helper : Helper} (h : ∀ s, helper.symbol? = some s → IsName s)
    (arch : Arch) : IsName (helper.name arch) := by
  cases helper with
  | redirector s => exact Symbol.isName_redirector (h s rfl)
  | accessor s target => exact Symbol.isName_accessor (h s rfl)
  | gotEntry s =>
      cases arch with
      | x86_64 => exact Symbol.isName_gotSlot (h s rfl)
      | aarch64 => exact Symbol.isName_gotHelper (h s rfl)
  | gotOffset s fromTable => exact Symbol.isName_gotOffsetSlot (h s rfl) fromTable
  | gotDelta => exact Symbol.isName_gotDelta

namespace Instruction

variable {insn : Instruction} {symbol : String} {arch : Arch}

/-- An instruction that branches to a symbol mentions it. -/
lemma BranchesTo.mem_symbols (h : insn.BranchesTo symbol arch) : symbol ∈ insn.symbols := by
  cases arch with
  | x86_64 =>
      obtain ⟨-, o, ho, m, hkind, hsymbol, -⟩ := h
      exact Instruction.mem_symbols ho (Operand.mem_symbols_of_memory hkind hsymbol)
  | aarch64 =>
      obtain ⟨-, o, ho, m, hkind, hsymbol⟩ := h
      exact Instruction.mem_symbols ho (Operand.mem_symbols_of_memory hkind hsymbol)

/-- An instruction that takes the address of a symbol mentions it. -/
lemma LoadsAddressOf.mem_symbols (h : insn.LoadsAddressOf symbol arch) :
    symbol ∈ insn.symbols := by
  cases arch with
  | x86_64 =>
      obtain ⟨-, o, m, ho, hkind, hsymbol⟩ := h
      exact Instruction.mem_symbols (List.mem_of_find?_eq_some ho)
        (Operand.mem_symbols_of_memory hkind hsymbol)
  | aarch64 =>
      obtain ⟨-, o, ho, offset, hpage⟩ := h
      exact Instruction.mem_symbols ho (Arm.mem_symbols_of_pageSymbol? hpage)

end Instruction

/-- What is known of the symbols that the helpers of a module are for. -/
structure HelpersNamed (arch : Arch) (marker : String) (files : List SourceFile)
    (symbols : SymbolTable) (helpers : Helpers) : Prop where
  /-- Redirectors and entries of the offset table are for symbols outside the module. -/
  outside : ∀ symbol, symbol ∈ helpers.redirectors ∨ symbol ∈ helpers.gotEntries →
    IsName symbol ∧ Symbol.isDotLocal symbol = false ∧ symbols.contains symbol = false ∧
      Symbol.isSynthesized marker symbol = false
  /-- The location counter is among them only if an instruction branches to it, or takes its
  address from the offset table. -/
  point : "." ∈ helpers.redirectors ∨ "." ∈ helpers.gotEntries →
    ∃ file ∈ files, ∃ s ∈ file.statements, ∃ insn, s.kind = .instruction insn ∧
      (insn.BranchesTo "." arch ∨ insn.LoadsAddressOf "." arch)
  /-- Accessors are for names, unless storage is asked for with another text. -/
  accessors : ∀ key target, helpers.Holds (.accessor key target) → IsName key ∨
    ∃ file ∈ files, ∃ s ∈ file.statements, ∃ text, s.Reserves text ∧ ¬ IsName text ∧
      key = Symbol.localized text file.index
  /-- The labels of all helpers are read, but for accessors of such storage. -/
  labels : ∀ helper, helpers.Holds helper → helper.Known arch →
    (∀ key target, helper = .accessor key target → IsName key) →
      Statement.ReadsLabel arch (helper.name arch)

namespace CodeModule

variable {m : CodeModule} {r : Sealed} {files : List SourceFile} {symbols : SymbolTable}
variable {emissions : List Emission}

/-- Every symbol that an instruction of a module mentions is a name. -/
lemma SealedFrom.isName_of_mem_symbols (h : SealedFrom m r files symbols emissions)
    {file : SourceFile} (hf : file ∈ files) {s : Statement} (hs : s ∈ file.statements)
    {insn : Instruction} (hinsn : s.kind = .instruction insn) {name : String}
    (hn : name ∈ insn.symbols) : IsName name := by
  obtain ⟨input, -, hparse⟩ := exists_parse_of_readFrom h.read hf
  exact Statement.isName_of_mem_symbols hparse hs hinsn hn

/-- Every public label of a module is a name. -/
lemma SealedFrom.isName_of_label (h : SealedFrom m r files symbols emissions)
    {file : SourceFile} (hf : file ∈ files) {s : Statement} (hs : s ∈ file.statements)
    {name : String} (hkind : s.kind = .label (.symbol name)) : IsName name := by
  obtain ⟨input, -, hparse⟩ := exists_parse_of_readFrom h.read hf
  exact Statement.isName_of_shape_label (Statement.shape_of_label hparse hs hkind)

/-- What a module ends with was asked for by one of its statements. -/
lemma SealedFrom.exists_of_holds (h : SealedFrom m r files symbols emissions) {helper : Helper}
    (hh : r.helpers.Holds helper) : ∃ file ∈ files, ∃ s ∈ file.statements, ∃ e ∈ emissions,
      ∃ b, s.emission r.arch ⟨symbols, m.marker, file.index⟩ b = .ok e ∧ helper ∈ e.helpers := by
  rw [h.requested] at hh
  have hmem : helper ∈ emissions.flatMap (·.helpers) := by
    refine (Helpers.holds_of_requestAll hh).resolve_left fun hnone => ?_
    rcases helper with s | ⟨s, t⟩ | s | ⟨s, _ | _⟩ | _
    case gotDelta => exact Bool.false_ne_true hnone
    all_goals exact List.not_mem_nil hnone
  obtain ⟨e, he, hmem⟩ := List.mem_flatMap.mp hmem
  obtain ⟨file, hf, s, hs, b, hemission⟩ := h.emits.exists_of_mem he
  exact ⟨file, hf, s, hs, e, he, b, hemission, hmem⟩

/-- An accessor is for a name, unless storage is asked for with another text. -/
lemma SealedFrom.isName_or_reserves (h : SealedFrom m r files symbols emissions)
    {key target : String} (hh : r.helpers.Holds (.accessor key target)) :
    IsName key ∨ ∃ file ∈ files, ∃ s ∈ file.statements, ∃ text, s.Reserves text ∧
      ¬ IsName text ∧ key = Symbol.localized text file.index := by
  obtain ⟨file, hf, s, hs, e, -, b, hemission, hmem⟩ := h.exists_of_holds hh
  have hinsn (insn : Instruction) : s.kind ≠ .instruction insn := by
    intro hkind
    exact (Statement.known_of_mem_helpers (h.operandsTagged hf hs) hkind hemission hmem).1
  obtain ⟨name, ⟨hreserves, heq⟩ | ⟨hkind, heq⟩⟩ :=
    Statement.accessor_of_emission hinsn hemission hmem
  · cases heq
    by_cases hname : IsName name
    · exact .inl (Symbol.isName_localized hname file.index)
    · exact .inr ⟨file, hf, s, hs, name, hreserves, hname, rfl⟩
  · cases heq
    exact .inl (h.isName_of_label hf hs hkind)

lemma SealedFrom.helpersNamed (h : SealedFrom m r files symbols emissions) :
    HelpersNamed r.arch m.marker files symbols r.helpers := by
  have hexact := h.helpersExact
  -- redirectors and entries belong to an external symbol of an instruction
  have houtside (symbol : String)
      (hs : symbol ∈ r.helpers.redirectors ∨ symbol ∈ r.helpers.gotEntries) :
      ∃ file ∈ files, ∃ s ∈ file.statements, ∃ insn, s.kind = .instruction insn ∧
        Scope.isExternal ⟨symbols, m.marker, file.index⟩ symbol = true ∧
          (insn.BranchesTo symbol r.arch ∨ insn.LoadsAddressOf symbol r.arch) := by
    rcases hs with hs | hs
    · obtain ⟨file, hf, s, hs, insn, hinsn, hexternal, hto⟩ := (hexact.redirectors symbol).mp hs
      exact ⟨file, hf, s, hs, insn, hinsn, hexternal, .inl hto⟩
    · obtain ⟨file, hf, s, hs, insn, hinsn, hexternal, hof⟩ := (hexact.gotEntries symbol).mp hs
      exact ⟨file, hf, s, hs, insn, hinsn, hexternal, .inr hof⟩
  -- so they have names, as all symbols of instructions do
  have hname (symbol : String)
      (hs : symbol ∈ r.helpers.redirectors ∨ symbol ∈ r.helpers.gotEntries) : IsName symbol := by
    obtain ⟨file, hf, s, hs, insn, hinsn, -, hmeans⟩ := houtside symbol hs
    exact h.isName_of_mem_symbols hf hs hinsn
      (hmeans.elim Instruction.BranchesTo.mem_symbols Instruction.LoadsAddressOf.mem_symbols)
  refine ⟨fun symbol hs => ?_, fun hpoint => ?_, fun _ _ hh => h.isName_or_reserves hh,
    fun helper hh hknown haccessor => ?_⟩
  · obtain ⟨file, -, -, -, -, -, hexternal, -⟩ := houtside symbol hs
    simp only [Scope.isExternal, Scope.defines, Bool.and_eq_true, Bool.not_eq_true'] at hexternal
    exact ⟨hname symbol hs, hexternal.1.2, hexternal.1.1, hexternal.2⟩
  · obtain ⟨file, hf, s, hs, insn, hinsn, -, hmeans⟩ := houtside "." hpoint
    exact ⟨file, hf, s, hs, insn, hinsn, hmeans⟩
  · refine Statement.readsLabel_of_isName (helper.isName_name (fun symbol hsymbol => ?_) r.arch)
    cases helper with
    | redirector => exact hname symbol (.inl (Option.some.inj hsymbol ▸ hh))
    | gotEntry => exact hname symbol (.inr (Option.some.inj hsymbol ▸ hh))
    | accessor => exact Option.some.inj hsymbol ▸ haccessor _ _ rfl
    | gotOffset name fromTable =>
        cases hsymbol
        obtain ⟨-, file, hf, s, hs, insn, hinsn, o, ho, own, hkind, rfl⟩ :=
          (hexact.gotOffsets _ fromTable).mp hh
        refine Symbol.isName_localized (h.isName_of_mem_symbols hf hs hinsn ?_) _
        refine List.mem_flatMap.mpr ⟨o, X86.mem_of_mem_upToLoad ho, ?_⟩
        rw [hkind]
        exact List.mem_singleton.mpr rfl
    | gotDelta => cases hsymbol

/-- The redirectors and entries of a module are for symbols outside it, and its helpers have
labels that are read, apart from the location counter and from storage whose name is none. -/
theorem sealed_helpersNamed (h : m.sealed = .ok r) : ∃ files symbols emissions,
    SealedFrom m r files symbols emissions ∧
      HelpersNamed r.arch m.marker files symbols r.helpers := by
  obtain ⟨files, symbols, emissions, hfrom⟩ := exists_sealedFrom h
  exact ⟨files, symbols, emissions, hfrom, hfrom.helpersNamed⟩

/-- A call, a load, and common storage. -/
theorem sealed_helpersNamed_storage :
    let m := single .x86_64 "call f@PLT
movq g@GOTPCREL(%rip), %rax
.comm v,8
"
    ∃ r, m.sealed = .ok r ∧ r.helpers.redirectors.toList = ["f"] ∧
      r.helpers.gotEntries.toList = ["g"] ∧ r.helpers.accessors.toList = [("v", "v")] ∧
      ∃ files symbols emissions, SealedFrom m r files symbols emissions ∧
        HelpersNamed r.arch m.marker files symbols r.helpers := by
  intro m
  have hok : m.sealed.toOption.any (fun r => r.helpers.redirectors.toList = ["f"] ∧
      r.helpers.gotEntries.toList = ["g"] ∧ r.helpers.accessors.toList = [("v", "v")]) = true := by
    decide +kernel
  obtain ⟨r, h, hr⟩ := Outcome.exists_of_any hok
  obtain ⟨hf, hg, hv⟩ := of_decide_eq_true (p := _ ∧ _ ∧ _) hr
  exact ⟨r, h, hf, hg, hv, sealed_helpersNamed h⟩

/-- A branch to the location counter asks for a redirector, and common storage for an accessor
whatever its name is. -/
theorem exists_point_redirected :
    (∃ r, (single .aarch64 "\tb .\n").sealed = .ok r ∧ "." ∈ r.helpers.redirectors) ∧
      ∃ r, (single .x86_64 ".comm \"a b\",8\n").sealed = .ok r ∧
        r.helpers.Holds (.accessor "\"a b\"" "\"a b\"") ∧ ¬ IsName "\"a b\"" ∧
        ¬ Statement.ReadsLabel r.arch (Symbol.accessor "\"a b\"") := by
  have hpoint : (single .aarch64 "\tb .\n").sealed.toOption.any
      (fun r => "." ∈ r.helpers.redirectors) = true := by decide +kernel
  have hstorage : (single .x86_64 ".comm \"a b\",8\n").sealed.toOption.any
      (fun r => ("\"a b\"", "\"a b\"") ∈ r.helpers.accessors.toList) = true := by decide +kernel
  have hname : isSymbolName "\"a b\"".toList = false := by decide +kernel
  have hlabel : isSymbolName (Symbol.accessor "\"a b\"").toList = false := by decide +kernel
  obtain ⟨r, h, hr⟩ := Outcome.exists_of_any hpoint
  obtain ⟨r', h', hr'⟩ := Outcome.exists_of_any hstorage
  have hmem : ("\"a b\"", "\"a b\"") ∈ r'.helpers.accessors.toList := of_decide_eq_true hr'
  refine ⟨⟨r, h, of_decide_eq_true hr⟩, r', h', hmem, ?_, ?_⟩
  · rw [IsName, hname]
    exact Bool.false_ne_true
  · rw [Statement.readsLabel_iff, IsName, hlabel]
    exact Bool.false_ne_true

end CodeModule

end Hermetic

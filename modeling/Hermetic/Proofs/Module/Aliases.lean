/-
Aliases of the symbols of a module.

* `Origin`: where a name comes from that is written in the place of an instruction;
* `Statement.AliasClosed`: the aliases that are written for a statement are those of symbols of the
  module, and a symbol that the statement defines is defined together with its alias;
* `sealed_aliasClosed`: this holds of every statement of a module that is sealed.
-/
import Hermetic.Proofs.Module.Separate
import Hermetic.Proofs.Symbol.Defined

namespace Hermetic

open Statement (Kind)

variable {arch : Arch} {scope : Scope} {inBss : Bool} {s : Statement} {e : Emission}

/-! ### References -/

/-- Where a name comes from that an operand is put together with in the place of an
instruction. -/
inductive Origin (arch : Arch) (scope : Scope) (insn : Instruction) (e : Emission) : String → Prop
  /-- It is the alias of a symbol of the module, which the instruction mentions. -/
  | alias {symbol : String} : symbol ∈ insn.symbols → scope.defines symbol = true →
      Origin arch scope insn e (Symbol.localAlias symbol)
  /-- It is a local name of the instruction, as it is written for the file. -/
  | renamed {symbol : String} : symbol ∈ insn.symbols → Symbol.isDotLocal symbol = true →
      Origin arch scope insn e (Symbol.renamed symbol scope.index)
  /-- It is another name of the instruction. -/
  | own {symbol : String} : symbol ∈ insn.symbols → Symbol.isDotLocal symbol = false →
      Origin arch scope insn e symbol
  /-- It is the name of a helper that is asked for. -/
  | helper {helper : Helper} : helper ∈ e.helpers → Origin arch scope insn e (helper.name arch)

lemma origin_localized {insn : Instruction} {symbol : String} (h : symbol ∈ insn.symbols) :
    Origin arch scope insn e (scope.localized symbol) := by
  rw [Scope.localized, Symbol.localized]
  split
  · next hlocal => exact .renamed h hlocal
  · next hlocal => exact .own h (by simpa using hlocal)

lemma origin_inside {insn : Instruction} {symbol : String} (h : symbol ∈ insn.symbols) :
    Origin arch scope insn e (scope.inside symbol) := by
  rw [Scope.inside, Scope.inside?]
  split
  · next hdefines => exact .alias h hdefines
  · split
    · next hlocal => exact .renamed h hlocal
    · next hlocal =>
        have hown : Origin arch scope insn e symbol := .own h (by simpa using hlocal)
        split
        · exact hown
        · exact hown

lemma Scope.Reached.origin {insn : Instruction} {name : String} (h : scope.Reached insn name) :
    Origin arch scope insn e name := by
  obtain ⟨o, ho, symbol, hsymbol, rfl | rfl⟩ := h
  · exact origin_inside (Instruction.mem_symbols ho hsymbol)
  · exact origin_localized (Instruction.mem_symbols ho hsymbol)

/-! ### Statements -/

namespace Statement

/-- A public label and its alias, which comes second in zero-initialised storage. -/
def labelKinds (inBss : Bool) (name : String) : List Kind :=
  if inBss then [.label (.symbol name), .label (.dotLocal (Symbol.localAlias name))]
  else [.label (.dotLocal (Symbol.localAlias name)), .label (.symbol name)]

/-- The aliases that are written for a statement are those of symbols of the module, and what the
statement defines under a public name is defined under the alias as well. -/
structure AliasClosed (arch : Arch) (scope : Scope) (inBss : Bool) (s : Statement)
    (e : Emission) : Prop where
  references (insn : Instruction) : s.kind = .instruction insn → ∀ name ∈ e.mentions,
    Origin arch scope insn e name
  /-- Common storage has an accessor that returns its address under its own name. -/
  accessors (symbol target : String) : .accessor symbol target ∈ e.helpers →
    target = symbol ∨ target = Symbol.localAlias symbol ∧ scope.defines symbol = true
  labels (name : String) : s.kind = .label (.symbol name) → scope.defines name = true ∧
    liveKinds arch (Chunk.textAll arch e.chunks) = .ok (labelKinds inBss name)
  bindings (directive name : String) (value : Expr) : s.kind = .binding directive name value →
    Symbol.isDotLocal name = false → scope.defines name = true ∧
      let value := value.mapSymbols scope.localized
      liveKinds arch (Chunk.textAll arch e.chunks) =
        .ok [.binding directive name value, .binding directive (Symbol.localAlias name) value]
  /-- A local name has no alias. -/
  localBindings (directive name : String) (value : Expr) : s.kind = .binding directive name value →
    Symbol.isDotLocal name = true → liveKinds arch (Chunk.textAll arch e.chunks) =
      .ok [.binding directive (scope.localized name) (value.mapSymbols scope.localized)]

/-- What is written for a label. -/
lemma writes_of_label {name : String} (hshape : Shape arch s.text.toList s.kind)
    (hkind : s.kind = .label (.symbol name)) (h : s.emission arch scope inBss = .ok e) :
    Writes arch e.chunks (labelKinds inBss name) := by
  rw [hkind] at hshape
  unfold emission at h
  rw [hkind] at h
  cases inBss with
  | true =>
      cases h
      exact writes_sealBssLabel hshape
  | false =>
      obtain rfl : sealLabel scope s (.symbol name) = e := by
        simpa only [sealCode, hkind, Except.ok.injEq] using h
      exact writes_sealLabel hshape

/-- What is written for a directive that binds a symbol. -/
lemma writes_of_binding {directive name : String} {value : Expr}
    (hshape : Shape arch s.text.toList s.kind) (hkind : s.kind = .binding directive name value)
    (h : s.emission arch scope inBss = .ok e) :
    Writes arch e.chunks (boundKinds scope directive name value) := by
  rw [hkind] at hshape
  obtain rfl : sealBinding scope s directive name value = e := by
    unfold emission at h
    rw [hkind] at h
    cases inBss <;> simpa only [sealCode, hkind, Except.ok.injEq] using h
  exact writes_sealBinding hshape

lemma aliasClosed_of_emission (htag : arch = .x86_64 → OperandsTagged s)
    (hshape : Shape arch s.text.toList s.kind)
    (hdefines : ∀ name, s.publicName? = some name → scope.defines name = true)
    (h : s.emission arch scope inBss = .ok e) : AliasClosed arch scope inBss s e where
  references insn hkind name hn := by
    rcases reached_or_mem_helpers htag hkind h hn with hreached | ⟨helper, hh, rfl⟩
    · exact hreached.origin
    · exact .helper hh
  accessors symbol target hh := by
    -- no instruction asks for an accessor
    by_cases hinsn : ∃ insn, s.kind = .instruction insn
    · obtain ⟨insn, hinsn⟩ := hinsn
      exact (known_of_mem_helpers htag hinsn h hh).1.elim
    · obtain ⟨name, ⟨-, heq⟩ | ⟨hkind, heq⟩⟩ :=
        accessor_of_emission (fun insn hkind => hinsn ⟨insn, hkind⟩) h hh
      · cases heq
        exact .inl rfl
      · cases heq
        exact .inr ⟨rfl, hdefines symbol (by rw [publicName?, hkind])⟩
  labels name hkind :=
    ⟨hdefines name (by rw [publicName?, hkind]), liveKinds_textAll (writes_of_label hshape hkind h)⟩
  bindings directive name value hkind hpublic := by
    have hname := hdefines name (by rw [publicName?, hkind]; simp [hpublic])
    refine ⟨hname, ?_⟩
    have hwrites := writes_of_binding hshape hkind h
    rw [boundKinds, Scope.localized, Symbol.localized, if_neg (by simp [hpublic]),
      if_pos (by simp [hpublic, hname])] at hwrites
    exact liveKinds_textAll hwrites
  localBindings directive name value hkind hlocal := by
    have hwrites := writes_of_binding hshape hkind h
    rw [boundKinds, if_neg (by simp [hlocal])] at hwrites
    exact liveKinds_textAll hwrites

end Statement

/-! ### Modules -/

namespace CodeModule

variable {m : CodeModule} {r : Sealed}

/-- The aliases that are written for a module are those of its symbols, and wherever one of its
symbols is defined, its alias is defined as well. -/
theorem sealed_aliasClosed (h : m.sealed = .ok r) (hended : ∀ input ∈ m.inputs, input.IsEnded) :
    ∃ files symbols emissions, SealedFrom m r files symbols emissions ∧
      (∀ name, symbols.contains name = true ↔
        ∃ file ∈ files, ∃ s ∈ file.statements, s.publicName? = some name) ∧
      ∀ file ∈ files, ∀ s ∈ file.statements, ∀ inBss e,
        s.emission r.arch ⟨symbols, m.marker, file.index⟩ inBss = .ok e →
          s.AliasClosed r.arch ⟨symbols, m.marker, file.index⟩ inBss e := by
  obtain ⟨files, symbols, emissions, hfrom⟩ := exists_sealedFrom h
  have hcontains (name : String) : symbols.contains name = true ↔ _ :=
    SymbolTable.contains_iff_of_ofFiles hfrom.defined
  refine ⟨files, symbols, emissions, hfrom, hcontains, fun file hf s hs inBss e he => ?_⟩
  exact Statement.aliasClosed_of_emission (hfrom.operandsTagged hf hs) (hfrom.shape hended hf hs)
    (fun name hname => (hcontains name).mpr ⟨file, hf, s, hs, hname⟩) he

/-- A symbol that is bound, bound again and loaded. -/
theorem sealed_aliasClosed_binding :
    let m := single .x86_64 ".set x, 1\n.set x, x+1\nmovq x(%rip), %rax\n"
    ∃ r files symbols emissions, m.sealed = .ok r ∧ SealedFrom m r files symbols emissions ∧
      symbols.contains "x" = true ∧ ∀ file ∈ files, ∀ s ∈ file.statements, ∀ inBss e,
        s.emission r.arch ⟨symbols, m.marker, file.index⟩ inBss = .ok e →
          s.AliasClosed r.arch ⟨symbols, m.marker, file.index⟩ inBss e := by
  intro m
  have hok : m.sealed.toOption.isSome = true := by decide +kernel
  have hread : (m.files .x86_64).toOption.any (fun files => files.any fun file =>
      file.statements.any fun s => s.publicName? = some "x") = true := by decide +kernel
  cases h : m.sealed with
  | error e =>
      rw [h] at hok
      cases hok
  | ok r =>
      have hended : ∀ input ∈ m.inputs, input.IsEnded :=
        List.forall_mem_singleton.mpr (.inr (by decide +kernel))
      obtain ⟨files, symbols, emissions, hfrom, hcontains, hclosed⟩ := sealed_aliasClosed h hended
      have harch : r.arch = .x86_64 := (Except.ok.inj hfrom.detected).symm
      have hfiles := hfrom.read
      rw [harch] at hfiles
      rw [hfiles] at hread
      obtain ⟨file, hf, hfile⟩ := List.any_eq_true.mp hread
      obtain ⟨s, hs, hname⟩ := List.any_eq_true.mp hfile
      exact ⟨r, files, symbols, emissions, rfl, hfrom,
        (hcontains "x").mpr ⟨file, hf, s, hs, of_decide_eq_true hname⟩, hclosed⟩

end CodeModule

end Hermetic

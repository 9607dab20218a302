/-
The alias of a symbol stands for what the symbol stands for.

* `Statement.Steady`: no instruction, no value that is computed from the symbol it is for, and no
  local name that is an alias;
* `Statement.exists_keepsAliases`: what is written for such a statement leaves symbols and their
  aliases with the same values;
* `sealed_aliasesAgree`: in a module of such statements they have the same values after each;
* `exists_alias_differs`: why values that are computed from their own symbol are an exception.
-/
import Hermetic.Proofs.Machine.Assembler
import Hermetic.Proofs.Module.Aliases

namespace Hermetic

open Statement (Kind)

variable {symbols : SymbolTable} {arch : Arch} {scope : Scope} {inBss : Bool}
variable {kinds : List Kind} {name : String} {s : Statement} {e : Emission}

/-! ### Statements that are written -/

/-- A public label and its alias stand for the same place, whichever comes first. -/
lemma keepsAliases_labels (hpublic : symbols.IsPublic) (hname : Symbol.isDotLocal name = false)
    (inBss : Bool) : KeepsAliases symbols (Statement.labelKinds inBss name) := by
  intro Value a st hagree
  have hboth := hagree.update_both hpublic hname (some st.place)
  cases inBss with
  | true => exact hboth
  | false =>
      rw [Function.update_comm (Symbol.ne_localAlias hname name)] at hboth
      exact hboth

/-- A directive that binds a public name, and the same for its alias, if the value does not depend
on the name. -/
lemma keepsAliases_bindings (hpublic : symbols.IsPublic) (hname : Symbol.isDotLocal name = false)
    {directive : String} {value : Expr} (hself : name ∉ value.symbols) :
    KeepsAliases symbols
      [.binding directive name value, .binding directive (Symbol.localAlias name) value] := by
  intro Value a st hagree
  let own := a.eval st.place st.values value
  have hvalue : a.eval st.place (Function.update st.values name own) value = own := by
    refine a.eval_congr _ _ _ _ fun symbol hsymbol => Function.update_of_ne ?_ _ _
    rintro rfl
    exact hself hsymbol
  have hboth := hagree.update_both hpublic hname own
  change AliasesAgree symbols (Function.update (Function.update st.values name own)
    (Symbol.localAlias name) (a.eval st.place (Function.update st.values name own) value))
  rw [hvalue]
  exact hboth

/-- Statements that define neither symbols nor aliases. -/
lemma keepsAliases_of_others (h : ∀ kind ∈ kinds, ∀ own, kind.definedName? = some own →
    symbols.contains own = false ∧
      ∀ symbol, symbols.contains symbol = true → own ≠ Symbol.localAlias symbol) :
    KeepsAliases symbols kinds := by
  intro Value a st hagree symbol hsymbol
  have hown : (a.run st kinds).values symbol = st.values symbol :=
    Assembler.values_run fun kind hkind hname => by
      rw [(h kind hkind symbol hname).1] at hsymbol
      cases hsymbol
  have halias : (a.run st kinds).values (Symbol.localAlias symbol) =
      st.values (Symbol.localAlias symbol) :=
    Assembler.values_run fun kind hkind hname =>
      (h kind hkind _ hname).2 symbol hsymbol rfl
  rw [hown, halias]
  exact hagree symbol hsymbol

lemma keepsAliases_flatten {all : List (List Kind)}
    (h : ∀ kinds ∈ all, KeepsAliases symbols kinds) : KeepsAliases symbols all.flatten := by
  intro Value a st hagree
  induction all generalizing st with
  | nil => exact hagree
  | cons kinds all ih =>
      obtain ⟨hfirst, hrest⟩ := List.forall_mem_cons.mp h
      rw [List.flatten_cons, Assembler.run_append]
      exact ih hrest _ (hfirst Value a st hagree)

/-! ### Statements -/

namespace Statement

/-- The local name that a statement defines, as a label or by binding it. -/
def localName? (s : Statement) : Option String :=
  match s.kind with
  | .label (.dotLocal name) => some name
  | .binding _ name _ => if Symbol.isDotLocal name then some name else none
  | _ => none

/-- Whether a statement is no instruction, computes no value from the symbol that it is for, and
defines no local name that is the alias of a symbol of the module. -/
structure Steady (symbols : SymbolTable) (s : Statement) : Prop where
  noInstruction (insn : Instruction) : s.kind ≠ .instruction insn
  noSelf (directive name : String) (value : Expr) : s.kind = .binding directive name value →
    Symbol.isDotLocal name = false → name ∉ value.symbols
  noAlias (name symbol : String) : s.localName? = some name → symbols.contains symbol = true →
    name ≠ Symbol.localAlias symbol

lemma sealCode_of_emission (h : s.emission arch scope inBss = .ok e)
    (hlabel : ∀ name, s.kind ≠ .label (.symbol name)) (hinsn : ∀ insn, s.kind ≠ .instruction insn) :
    s.sealCode arch scope = .ok e := by
  unfold emission at h
  split at h
  · next hkind => exact absurd hkind (hlabel _)
  · next hkind => exact absurd hkind (hinsn _)
  · exact h

lemma exists_keepsAliases_of_definesNothing (h : DefinesNothing arch e.chunks) :
    ∃ kinds, Writes arch e.chunks kinds ∧ KeepsAliases symbols kinds := by
  obtain ⟨kinds, hkinds, hnone⟩ := h
  refine ⟨kinds, hkinds, keepsAliases_of_others fun kind hkind own hown => ?_⟩
  rw [hnone kind hkind] at hown
  cases hown

/-- A local name is not that of a symbol, and stays different from its alias. -/
lemma Steady.keepsAliases_local {written : String} {kind : Kind} (hsteady : s.Steady symbols)
    (hpublic : symbols.IsPublic) (hname : s.localName? = some name)
    (hdotLocal : Symbol.isDotLocal name = true)
    (hwritten : written = name ∨ written = Symbol.renamed name scope.index)
    (hkind : kind.definedName? = some written) : KeepsAliases symbols [kind] := by
  refine keepsAliases_of_others (List.forall_mem_singleton.mpr fun own hown => ?_)
  rw [hkind] at hown
  cases hown
  constructor
  · by_contra hcontains
    have hnot := hpublic written (by simpa using hcontains)
    rcases hwritten with rfl | rfl
    · exact absurd hdotLocal (Bool.eq_false_iff.mp hnot)
    · exact absurd (Symbol.isDotLocal_renamed hdotLocal _) (Bool.eq_false_iff.mp hnot)
  · intro symbol hsymbol
    have hne := hsteady.noAlias name symbol hname hsymbol
    rcases hwritten with rfl | rfl
    · exact hne
    · exact Symbol.renamed_ne_localAlias hne _

lemma exists_keepsAliases_label {label : Label} (hshape : Shape arch s.text.toList s.kind)
    (hsteady : s.Steady scope.symbols) (hpublic : scope.symbols.IsPublic)
    (hkind : s.kind = .label label) (h : s.emission arch scope inBss = .ok e) :
    ∃ kinds, Writes arch e.chunks kinds ∧ KeepsAliases scope.symbols kinds := by
  rw [hkind] at hshape
  cases label with
  | symbol name =>
      exact ⟨_, writes_of_label (hkind ▸ hshape) hkind h,
        keepsAliases_labels hpublic (isDotLocal_of_shape_label hshape) inBss⟩
  | dotLocal name =>
      obtain rfl : sealLabel scope s (.dotLocal name) = e := by
        have hcode := sealCode_of_emission h (by simp [hkind]) hsteady.noInstruction
        simpa only [sealCode, hkind, Except.ok.injEq] using hcode
      exact ⟨_, writes_sealLabel_dotLocal hshape,
        hsteady.keepsAliases_local hpublic (by rw [localName?, hkind])
          (isDotLocal_of_shape_dotLocal hshape) (labelFor_eq ..) rfl⟩
  | numeric name =>
      obtain rfl : Emission.copy s = e := by
        have hcode := sealCode_of_emission h (by simp [hkind]) hsteady.noInstruction
        simpa only [sealCode, hkind, sealLabel, Except.ok.injEq] using hcode
      exact exists_keepsAliases_of_definesNothing (.copied hshape rfl)

lemma exists_keepsAliases_binding {directive : String} {value : Expr}
    (hshape : Shape arch s.text.toList s.kind) (hsteady : s.Steady scope.symbols)
    (hpublic : scope.symbols.IsPublic)
    (hdefines : ∀ name, s.publicName? = some name → scope.defines name = true)
    (hkind : s.kind = .binding directive name value)
    (h : s.emission arch scope inBss = .ok e) :
    ∃ kinds, Writes arch e.chunks kinds ∧ KeepsAliases scope.symbols kinds := by
  have hwrites := writes_of_binding hshape hkind h
  rw [boundKinds] at hwrites
  cases hdotLocal : Symbol.isDotLocal name with
  | true =>
      rw [hdotLocal, Scope.localized, Symbol.localized, if_pos hdotLocal] at hwrites
      exact ⟨_, hwrites, hsteady.keepsAliases_local hpublic
        (by rw [localName?, hkind]; exact if_pos hdotLocal) hdotLocal (.inr rfl) rfl⟩
  | false =>
      have hname := hdefines name (by rw [publicName?, hkind]; simp [hdotLocal])
      rw [Scope.localized, Symbol.localized, if_neg (by simp [hdotLocal]),
        if_pos (by simp [hdotLocal, hname])] at hwrites
      -- the value has no other symbols than before, so that the name is none of them
      refine ⟨_, hwrites, keepsAliases_bindings hpublic hdotLocal fun hmem => ?_⟩
      rw [Expr.symbols_mapSymbols, List.mem_map] at hmem
      obtain ⟨symbol, hsymbol, hsame⟩ := hmem
      exact hsteady.noSelf _ _ _ hkind hdotLocal
        (Scope.eq_of_localized_eq hdotLocal hsame ▸ hsymbol)

/-- What is written for such a statement leaves symbols and their aliases with the same values. -/
lemma exists_keepsAliases (hshape : Shape arch s.text.toList s.kind)
    (hsteady : s.Steady scope.symbols) (hpublic : scope.symbols.IsPublic)
    (hdefines : ∀ name, s.publicName? = some name → scope.defines name = true)
    (h : s.emission arch scope inBss = .ok e) :
    ∃ kinds, Writes arch e.chunks kinds ∧ KeepsAliases scope.symbols kinds := by
  -- only labels and bindings define names
  cases hkind : s.kind with
  | instruction insn => exact absurd hkind (hsteady.noInstruction insn)
  | label => exact exists_keepsAliases_label hshape hsteady hpublic hkind h
  | binding => exact exists_keepsAliases_binding hshape hsteady hpublic hdefines hkind h
  | symbolic directive arguments =>
      have hcode := sealCode_of_emission h (by simp [hkind]) hsteady.noInstruction
      rw [sealCode, hkind] at hcode
      cases hcode
      exact exists_keepsAliases_of_definesNothing (definesNothing_sealData (hkind ▸ hshape))
  | directive directive arguments =>
      have hcode := sealCode_of_emission h (by simp [hkind]) hsteady.noInstruction
      rw [sealCode, hkind] at hcode
      exact exists_keepsAliases_of_definesNothing
        (definesNothing_sealDirective (hkind ▸ hshape) hcode)
  | _ =>
      have hcode := sealCode_of_emission h (by simp [hkind]) hsteady.noInstruction
      rw [sealCode, hkind] at hcode
      cases hcode
      exact exists_keepsAliases_of_definesNothing (.copied hshape (by rw [hkind]; rfl))

end Statement

/-! ### Modules -/

namespace CodeModule

variable {m : CodeModule} {r : Sealed} {files : List SourceFile} {emissions : List Emission}

lemma SealedFrom.isPublic (h : SealedFrom m r files symbols emissions)
    (hended : ∀ input ∈ m.inputs, input.IsEnded) : symbols.IsPublic := by
  intro name hname
  obtain ⟨file, hf, s, hs, hpublic⟩ := (SymbolTable.contains_iff_of_ofFiles h.defined).mp hname
  have hshape := h.shape hended hf hs
  cases hkind : s.kind with
  | label label =>
      cases label with
      | symbol own =>
          rw [Statement.publicName?, hkind] at hpublic
          cases hpublic
          exact Statement.isDotLocal_of_shape_label (hkind ▸ hshape)
      | _ =>
          rw [Statement.publicName?, hkind] at hpublic
          cases hpublic
  | binding directive own value =>
      rw [Statement.publicName?, hkind] at hpublic
      dsimp only at hpublic
      split at hpublic
      · cases hpublic
      · next hlocal =>
          cases hpublic
          simpa using hlocal
  | _ =>
      rw [Statement.publicName?, hkind] at hpublic
      cases hpublic

/-- If nothing is defined at first, a symbol and its alias have the same value after each
statement of a module, as long as there are no instructions, no value is computed from the symbol
that it is for, and no alias is defined as a local name. -/
theorem sealed_aliasesAgree (h : m.sealed = .ok r) (hended : ∀ input ∈ m.inputs, input.IsEnded) :
    ∃ files symbols emissions, SealedFrom m r files symbols emissions ∧
      ((∀ file ∈ files, ∀ s ∈ file.statements, s.Steady symbols) →
        ∃ body kinds, IsBody m r files body ∧ Separate r.arch emissions body kinds ∧
          ∀ (Value : Type) (a : Assembler Value) (place : Value) (n : ℕ),
            AliasesAgree symbols (a.run ⟨fun _ => none, place⟩ (kinds.take n).flatten).values) := by
  obtain ⟨files, symbols, emissions, hfrom⟩ := exists_sealedFrom h
  refine ⟨files, symbols, emissions, hfrom, fun hsteady => ?_⟩
  have hpublic := hfrom.isPublic hended
  have hwrites : ∀ e ∈ emissions,
      ∃ kinds, Writes r.arch e.chunks kinds ∧ KeepsAliases symbols kinds := by
    intro e he
    obtain ⟨file, hf, s, hs, inBss, hemission⟩ := hfrom.emits.exists_of_mem he
    refine Statement.exists_keepsAliases (hfrom.shape hended hf hs) (hsteady file hf s hs) hpublic
      (fun name hname => ?_) hemission
    exact (SymbolTable.contains_iff_of_ofFiles hfrom.defined).mpr ⟨file, hf, s, hs, hname⟩
  obtain ⟨body, kinds, hbody, hseparate⟩ := hfrom.exists_separate fun e he =>
    (hwrites e he).imp fun _ => And.left
  refine ⟨body, kinds, hbody, hseparate, fun Value a place n => ?_⟩
  -- what is read for a statement alone is what was written for it
  have hkeeps : ∀ own ∈ kinds, KeepsAliases symbols own := by
    intro own hown
    obtain ⟨e, he, halone⟩ := Outcome.exists_of_mem_forall₂ hseparate.alone hown
    obtain ⟨own', hwritten, hkeeps⟩ := hwrites e he
    rw [liveKinds_textAll hwritten] at halone
    cases halone
    exact hkeeps
  exact keepsAliases_flatten (fun own hown => hkeeps own (List.mem_of_mem_take hown)) Value a _
    fun _ _ => rfl

/-- Two symbols, each computed from the other. -/
theorem sealed_aliasesAgree_sums :
    let m := single .x86_64 ".set x, 1\n.set y, x+1\n.set x, y+1\n"
    ∃ r files symbols emissions body kinds, m.sealed = .ok r ∧
      SealedFrom m r files symbols emissions ∧ IsBody m r files body ∧
        Separate r.arch emissions body kinds ∧ ∀ n, AliasesAgree symbols
          (Assembler.adding.run ⟨fun _ => none, 0⟩ (kinds.take n).flatten).values := by
  intro m
  have hok : m.sealed.toOption.any (fun r => r.arch = .x86_64) = true := by decide +kernel
  -- no value names its own symbol, no symbol is local, and nothing but bindings is read
  have hread : (m.files .x86_64).toOption.any (fun files => files.all fun file =>
      file.statements.all fun s => match s.kind with
        | .binding _ name value => !Symbol.isDotLocal name && decide (name ∉ value.symbols)
        | .label _ | .instruction _ => false
        | _ => true) = true := by decide +kernel
  cases h : m.sealed with
  | error e =>
      rw [h] at hok
      cases hok
  | ok r =>
      rw [h] at hok
      have harch : r.arch = .x86_64 := of_decide_eq_true hok
      have hended : ∀ input ∈ m.inputs, input.IsEnded :=
        List.forall_mem_singleton.mpr (.inr (by decide +kernel))
      obtain ⟨files, symbols, emissions, hfrom, hagree⟩ := sealed_aliasesAgree h hended
      have hfiles := hfrom.read
      rw [harch] at hfiles
      rw [hfiles] at hread
      obtain ⟨body, kinds, hbody, hseparate, hvalues⟩ := hagree fun file hf s hs => by
        have hstatement := List.all_eq_true.mp (List.all_eq_true.mp hread file hf) s hs
        constructor
        · intro insn hkind
          rw [hkind] at hstatement
          cases hstatement
        · intro directive name value hkind _
          rw [hkind] at hstatement
          exact of_decide_eq_true (Bool.and_eq_true_iff.mp hstatement).2
        · intro name symbol hname
          rw [Statement.localName?] at hname
          split at hname
          · next hkind =>
              rw [hkind] at hstatement
              cases hstatement
          · next hkind =>
              rw [hkind] at hstatement
              have hpublic := (Bool.and_eq_true_iff.mp hstatement).1
              split at hname
              · next hlocal =>
                  rw [hlocal] at hpublic
                  cases hpublic
              · cases hname
          · cases hname
      exact ⟨r, files, symbols, emissions, body, kinds, rfl, hfrom, hbody, hseparate,
        hvalues ℕ Assembler.adding 0⟩

/-- A symbol that is bound to a value computed from it, and its alias. -/
theorem exists_alias_differs :
    let m := single .x86_64 ".set x, 1\n.set x, x+1\n"
    ∃ r files symbols emissions body kinds, m.sealed = .ok r ∧
      SealedFrom m r files symbols emissions ∧ symbols.contains "x" = true ∧
        IsBody m r files body ∧ Separate r.arch emissions body kinds ∧
          let st := Assembler.adding.run ⟨fun _ => none, 0⟩ kinds.flatten
          st.values "x" = some 2 ∧ st.values (Symbol.localAlias "x") = some 3 := by
  intro m
  let text := ".set x, 1\n\t.set\t.Lx_local_target, 1\n.set x, x+1\n" ++
    "\t.set\t.Lx_local_target, x+1\n"
  have hok : m.sealed.toOption.any (fun r => r.arch = .x86_64 ∧
      r.text = Line.textAll (Boundary.opening ⟨.x86_64, m.marker, none⟩) ++ text ++
        Line.textAll (Boundary.closing ⟨.x86_64, m.marker, none⟩ r.helpers)) = true := by
    decide +kernel
  have hread : (m.files .x86_64).toOption.any (fun files => debugFile files = none ∧
      (files.any fun file => file.statements.any fun s => s.publicName? = some "x") = true ∧
      (files.all fun file => file.statements.all fun s => s.instruction?.isNone) = true) =
        true := by
    decide +kernel
  have hvalues : (liveKinds .x86_64 text).toOption.any (fun kinds =>
      (Assembler.adding.run ⟨fun _ => none, 0⟩ kinds).values "x" = some 2 ∧
      (Assembler.adding.run ⟨fun _ => none, 0⟩ kinds).values (Symbol.localAlias "x") = some 3) =
        true := by
    decide +kernel
  cases h : m.sealed with
  | error e =>
      rw [h] at hok
      cases hok
  | ok r =>
      rw [h] at hok
      obtain ⟨harch, htext⟩ := of_decide_eq_true (p := _ ∧ _) hok
      obtain ⟨files, symbols, emissions, hfrom⟩ := exists_sealedFrom h
      have hended : ∀ input ∈ m.inputs, input.IsEnded :=
        List.forall_mem_singleton.mpr (.inr (by decide +kernel))
      have hfiles := hfrom.read
      rw [harch] at hfiles
      rw [hfiles] at hread
      obtain ⟨hdebug, hname, hplain⟩ := of_decide_eq_true (p := _ ∧ _ ∧ _) hread
      obtain ⟨file, hf, hfile⟩ := List.any_eq_true.mp hname
      obtain ⟨s, hs, hs'⟩ := List.any_eq_true.mp hfile
      -- no statement is an instruction, so that the body is read statement by statement
      obtain ⟨body, kinds, hbody, hseparate⟩ := hfrom.exists_separate fun e he => by
        obtain ⟨file, hf, s, hs, inBss, hemission⟩ := hfrom.emits.exists_of_mem he
        refine Statement.exists_writes_emission (hfrom.shape hended hf hs) hemission
          fun insn hinsn _ => ?_
        have hstatement := List.all_eq_true.mp (List.all_eq_true.mp hplain file hf) s hs
        rw [Statement.instruction?, hinsn] at hstatement
        cases hstatement
      obtain rfl : body = text := hbody.eq_of_text (by rw [harch, hdebug]; exact htext)
      have htogether := hseparate.together
      rw [harch] at htogether
      rw [htogether] at hvalues
      exact ⟨r, files, symbols, emissions, text, kinds, rfl, hfrom,
        (SymbolTable.contains_iff_of_ofFiles hfrom.defined).mpr
          ⟨file, hf, s, hs, of_decide_eq_true hs'⟩,
        hbody, hseparate, of_decide_eq_true (p := _ ∧ _) hvalues⟩

end CodeModule

end Hermetic

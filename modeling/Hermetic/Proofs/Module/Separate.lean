/-
Statements of a sealed module stay apart.

* `Input.IsEnded`: inputs whose last line is ended, with `SealedFrom.shape`: their statements are
  spelled as such;
* `liveKinds`, `Separate`: the live statements of a text, and texts whose live statements are those
  that are written for one statement after the other, comments that quote statements left out;
* `sealed_separate`: the text of a module between its boundaries is such a text, for x86-64;
* `exists_load_not_read`: why registers with a number are an exception.
-/
import Hermetic.Proofs.Module.Helpers
import Hermetic.Proofs.Sealing.Instructions

namespace Hermetic

open Statement (Kind)

/-! ### Inputs -/

/-- Whether the last line of an input is ended. -/
def Input.IsEnded (input : Input) : Prop :=
  input.text.toList = [] ∨ input.text.toList.getLast? = some '\n'

/-- The statements of inputs whose last lines are ended are spelled as such. -/
lemma CodeModule.SealedFrom.shape {m : CodeModule} {r : Sealed} {files : List SourceFile}
    {symbols : SymbolTable} {emissions : List Emission}
    (h : SealedFrom m r files symbols emissions) (hended : ∀ input ∈ m.inputs, input.IsEnded)
    {file : SourceFile} (hf : file ∈ files) {s : Statement} (hs : s ∈ file.statements) :
    Statement.Shape r.arch s.text.toList s.kind := by
  obtain ⟨input, hinput, hparse⟩ := exists_parse_of_readFrom h.read hf
  exact Statement.shape_of_parse hparse (hended input hinput) s hs

/-! ### Live statements of a text -/

/-- The instruction that a statement is. -/
def Statement.instruction? (s : Statement) : Option Instruction :=
  match s.kind with
  | .instruction insn => some insn
  | _ => none

/-- The live statements of a text, by their kinds. -/
def liveKinds (arch : Arch) (text : String) : Except Error (List Kind) :=
  (Statement.parse arch text).map fun statements =>
    (statements.map (·.kind)).filter (·.isLive)

variable {arch : Arch} {kinds : List Kind}

lemma liveKinds_of_says {text : String} (h : Says arch text.toList kinds) :
    liveKinds arch text = .ok kinds := by
  obtain ⟨all, hreads, hall⟩ := h
  obtain ⟨statements, hparse, hkinds⟩ := Statement.exists_parse_of_reads hreads
  rw [liveKinds, hparse]
  change Except.ok ((statements.map (·.kind)).filter (·.isLive)) = _
  rw [hkinds, hall]

/-- The text of some pieces, written from the start of a line. -/
def Chunk.textAll (arch : Arch) (chunks : List Chunk) : String :=
  (({} : Output).addAll arch chunks).text

lemma liveKinds_textAll {chunks : List Chunk} (h : Writes arch chunks kinds) :
    liveKinds arch (Chunk.textAll arch chunks) = .ok kinds := by
  obtain ⟨t, ht, hsays⟩ := h.addsAll {}
  rw [Chunk.textAll, ht]
  refine liveKinds_of_says ?_
  rwa [String.toList_append, String.toList_empty, List.nil_append]

/-- A text whose live statements are those that are written for one statement after the other,
where the comments that quote statements play no role. -/
structure Separate (arch : Arch) (emissions : List Emission) (text : String)
    (kinds : List (List Kind)) : Prop where
  alone : List.Forall₂ (fun e kinds => liveKinds arch (Chunk.textAll arch e.chunks) = .ok kinds)
    emissions kinds
  together : liveKinds arch text = .ok kinds.flatten
  unquoted : liveKinds arch (Chunk.textAll arch
    ((emissions.flatMap (·.chunks)).filter (!·.isQuoted))) = .ok kinds.flatten

/-! ### Emissions -/

lemma exists_writes_all {emissions : List Emission}
    (h : ∀ e ∈ emissions, ∃ kinds, Writes arch e.chunks kinds) :
    ∃ kinds, List.Forall₂ (fun e kinds => Writes arch e.chunks kinds) emissions kinds := by
  induction emissions with
  | nil => exact ⟨[], .nil⟩
  | cons e emissions ih =>
      obtain ⟨kinds, hkinds⟩ := h e List.mem_cons_self
      obtain ⟨rest, hrest⟩ := ih fun f hf => h f (List.mem_cons_of_mem _ hf)
      exact ⟨kinds :: rest, .cons hkinds hrest⟩

lemma Writes.flatMap {emissions : List Emission} {kinds : List (List Kind)}
    (h : List.Forall₂ (fun e kinds => Writes arch e.chunks kinds) emissions kinds) :
    Writes arch (emissions.flatMap (·.chunks)) kinds.flatten := by
  induction h with
  | nil => exact .nil
  | cons he _ ih => exact he.append ih

namespace CodeModule

lemma Progress.output_addAll (p : Progress) (emissions : List Emission) :
    (p.addAll arch emissions).output =
      p.output.addAll arch (emissions.flatMap (·.chunks)) := by
  unfold Progress.addAll Output.addAll
  induction emissions generalizing p with
  | nil => rfl
  | cons e emissions ih =>
      rw [List.foldl_cons, ih, List.flatMap_cons, List.foldl_append]
      rfl

variable {m : CodeModule} {r : Sealed} {files : List SourceFile} {symbols : SymbolTable}
variable {emissions : List Emission}

/-- The text of a module between its boundaries, which starts and ends with a line. -/
structure IsBody (m : CodeModule) (r : Sealed) (files : List SourceFile) (body : String) :
    Prop where
  split : let boundary : Boundary := ⟨r.arch, m.marker, debugFile files⟩
    r.text = Line.textAll boundary.opening ++ body ++ Line.textAll (boundary.closing r.helpers)

/-- What stands between the boundaries is read statement by statement, if that holds for what is
written for every statement. -/
lemma SealedFrom.exists_separate (h : SealedFrom m r files symbols emissions)
    (hwrites : ∀ e ∈ emissions, ∃ kinds, Writes r.arch e.chunks kinds) :
    ∃ body kinds, IsBody m r files body ∧ Separate r.arch emissions body kinds := by
  obtain ⟨kinds, hkinds⟩ := exists_writes_all hwrites
  have hall := Writes.flatMap hkinds
  have hwritten := h.written
  dsimp only at hwritten
  rw [Progress.output_addAll] at hwritten
  generalize hboundary : (⟨r.arch, m.marker, debugFile files⟩ : Boundary) = boundary at hwritten
  obtain ⟨t, ht, hsays⟩ := hall.addsAll (boundary.begin {})
  have halone : List.Forall₂
      (fun e kinds => liveKinds r.arch (Chunk.textAll r.arch e.chunks) = .ok kinds)
      emissions kinds :=
    hkinds.imp fun _ _ => liveKinds_textAll
  have hopening : (boundary.begin {}).text = Line.textAll boundary.opening := String.empty_append
  -- a line feed ends the last line if nothing else does
  obtain ⟨fresh, hfresh, hsays'⟩ : ∃ fresh : String,
      ((boundary.begin {}).addAll r.arch (emissions.flatMap (·.chunks))).freshLine.text =
        Line.textAll boundary.opening ++ (t ++ fresh) ∧ Says r.arch fresh.toList [] := by
    unfold Output.freshLine
    split
    · refine ⟨"", ?_, .nil⟩
      rw [ht, hopening, String.append_empty]
    · refine ⟨"\n", ?_, says_newline⟩
      rw [Output.text_put, ht, hopening, String.append_assoc]
  refine ⟨t ++ fresh, kinds, ⟨?_⟩, halone, ?_, liveKinds_textAll hall.filter⟩
  · dsimp only
    rw [hboundary, hwritten, Boundary.finish, Output.text_put, hfresh]
  · have htogether := hsays.append hsays'
    rw [List.append_nil, ← String.toList_append] at htogether
    exact liveKinds_of_says htogether

/-- The statements of a module for x86-64 stay apart, if no instruction loads an address into a
register with a number, and none that is replaced hides its mnemonic. -/
theorem sealed_separate (h : m.sealed = .ok r) (harch : r.arch = .x86_64)
    (hended : ∀ input ∈ m.inputs, input.IsEnded) :
    ∃ files symbols emissions, SealedFrom m r files symbols emissions ∧
      ((∀ file ∈ files, ∀ s ∈ file.statements, ∀ insn, s.kind = .instruction insn →
          ¬ X86.FillsNumbered ⟨symbols, m.marker, file.index⟩ insn ∧
            (X86.HidesMnemonic insn →
              X86.sealInstruction ⟨symbols, m.marker, file.index⟩ s insn = .ok (.copy s))) →
        ∃ body kinds, IsBody m r files body ∧ Separate .x86_64 emissions body kinds) := by
  obtain ⟨files, symbols, emissions, hfrom⟩ := exists_sealedFrom h
  refine ⟨files, symbols, emissions, hfrom, fun hinsns => ?_⟩
  rw [← harch]
  refine hfrom.exists_separate fun e he => ?_
  obtain ⟨file, hf, s, hs, inBss, hemission⟩ := hfrom.emits.exists_of_mem he
  refine Statement.exists_writes_emission (hfrom.shape hended hf hs) hemission
    fun insn hinsn hsealed => ?_
  have hshape := hfrom.shape hended hf hs
  obtain ⟨hfills, hhides⟩ := hinsns file hf s hs insn hinsn
  rw [harch] at hsealed hshape ⊢
  rw [hinsn] at hshape
  exact X86.exists_writes_sealInstruction hshape hsealed hfills fun hmem =>
    Except.ok.inj (hsealed.symm.trans (hhides hmem))

/-- A binding, a call and a load from the offset table. -/
theorem sealed_separate_load :
    let m := single .x86_64 ".set f, 1\ncall g@PLT ; movq h@GOTPCREL(%rip), %rax # load\n"
    ∃ r files symbols emissions body kinds, m.sealed = .ok r ∧
      SealedFrom m r files symbols emissions ∧ IsBody m r files body ∧
        Separate .x86_64 emissions body kinds := by
  intro m
  have hok : m.sealed.toOption.any (fun r => r.arch = .x86_64) = true := by decide +kernel
  -- no mnemonic is a modifier, and no register has a parenthesis
  have hread : (m.files .x86_64).toOption.any (fun files => files.all fun file =>
      file.statements.all fun s => s.instruction?.all fun insn =>
        decide (insn.mnemonic.toLower ∉ Statement.modifierWords) &&
          insn.operands.all fun o => o.register?.all fun r => decide ('(' ∉ r.toList)) = true := by
    decide +kernel
  cases h : m.sealed with
  | error e =>
      rw [h] at hok
      cases hok
  | ok r =>
      rw [h] at hok
      have harch : r.arch = .x86_64 := of_decide_eq_true hok
      have hended : ∀ input ∈ m.inputs, input.IsEnded :=
        List.forall_mem_singleton.mpr (.inr (by decide +kernel))
      obtain ⟨files, symbols, emissions, hfrom, hseparate⟩ := sealed_separate h harch hended
      have hfiles := hfrom.read
      rw [harch] at hfiles
      rw [hfiles] at hread
      obtain ⟨body, kinds, hbody⟩ := hseparate fun file hf s hs insn hinsn => by
        have hstatement := List.all_eq_true.mp (List.all_eq_true.mp hread file hf) s hs
        rw [Statement.instruction?, hinsn] at hstatement
        obtain ⟨hmnemonic, hoperands⟩ := Bool.and_eq_true_iff.mp hstatement
        refine ⟨?_, fun hhides => (of_decide_eq_true hmnemonic hhides.1).elim⟩
        intro hfills
        obtain ⟨o, ho, name, hregister, hparen⟩ := hfills.exists_register
        have hplain := List.all_eq_true.mp hoperands o ho
        rw [hregister] at hplain
        exact of_decide_eq_true hplain hparen
      exact ⟨r, files, symbols, emissions, body, kinds, rfl, hfrom, hbody⟩

lemma IsBody.eq_of_text {body text : String} (h : IsBody m r files body)
    (htext : let boundary : Boundary := ⟨r.arch, m.marker, debugFile files⟩
      r.text = Line.textAll boundary.opening ++ text ++ Line.textAll (boundary.closing r.helpers)) :
    body = text := by
  have hsplit := h.split.symm.trans htext
  rwa [String.append_left_inj, String.append_right_inj] at hsplit

/-- A load into a register with a number is replaced by lines that are not read. -/
theorem exists_load_not_read :
    let m := single .x86_64 "\tmovq foo@GOTPCREL(%rip), %st(1)\n"
    ∃ r files symbols emissions, SealedFrom m r files symbols emissions ∧
      ¬ ∃ body kinds, IsBody m r files body ∧ Separate .x86_64 emissions body kinds := by
  intro m
  -- the lines for the load, of which the addition is no instruction
  let text := "# WAS movq foo@GOTPCREL(%rip), %st(1)\n\tleaq -128(%rsp), %rsp\n\tpushf\n" ++
    "\tleaq foo_GOTPCREL_external(%rip), %st(1)\n\taddq (%st(1)), %st(1)\n" ++
    "\tmovq (%st(1)), %st(1)\n\tpopf\n\tleaq 128(%rsp), %rsp\n"
  have hok : m.sealed.toOption.any (fun r => r.arch = .x86_64 ∧
      r.text = Line.textAll (Boundary.opening ⟨.x86_64, m.marker, none⟩) ++ text ++
        Line.textAll (Boundary.closing ⟨.x86_64, m.marker, none⟩ r.helpers)) = true := by
    decide +kernel
  have hread : (m.files .x86_64).toOption.any (fun files => debugFile files = none) = true := by
    decide +kernel
  have hunread : (liveKinds .x86_64 text).toOption.isNone = true := by decide +kernel
  cases h : m.sealed with
  | error e =>
      rw [h] at hok
      cases hok
  | ok r =>
      rw [h] at hok
      obtain ⟨harch, htext⟩ := of_decide_eq_true (p := _ ∧ _) hok
      obtain ⟨files, symbols, emissions, hfrom⟩ := exists_sealedFrom h
      have hfiles := hfrom.read
      rw [harch] at hfiles
      rw [hfiles] at hread
      have hdebug : debugFile files = none := of_decide_eq_true hread
      refine ⟨r, files, symbols, emissions, hfrom, ?_⟩
      rintro ⟨body, kinds, hbody, hseparate⟩
      obtain rfl : body = text := hbody.eq_of_text (by rw [harch, hdebug]; exact htext)
      rw [hseparate.together] at hunread
      cases hunread

end CodeModule

end Hermetic

/-
What becomes of numeric labels and of the references to them, for x86-64.

* `Statement.textMarks_text`: the text of a statement, read on its own, has the marks that the
  statement has;
* `Statement.SkipsLoad`: the statements for which a numeric label is put in;
* `X86.OperandSealed.mark?`, `X86.exists_kept_of_loadPlan`: operands that refer to numeric labels
  are written as they are;
* `Statement.KeepsMarks`, `Statement.keepsMarks_of_emission`: what is written for a statement has
  its marks, and no other label but the one that is put in.
-/
import Hermetic.Proofs.Module.Helpers
import Hermetic.Proofs.Sealing.Instructions
import Hermetic.Proofs.Sealing.Labels

namespace Hermetic

open Statement (Kind)

variable {scope : Scope} {s : Statement} {e : Emission}

/-! ### Texts of statements -/

/-- The text of a statement that is read, read on its own, has the marks that the statement has. -/
lemma Statement.textMarks_text {arch : Arch} {text : String} {statements : List Statement}
    (h : parse arch text = .ok statements) (hs : s ∈ statements) :
    textMarks arch s.text = s.kind.marks := by
  obtain ⟨c, d, hread⟩ := (parse_eq_ok_iff.mp h).exists_ofCursor hs
  rcases shape_of_ofCursor hread with hshape | ⟨-, -, hline⟩
  · exact textMarks_of_shape hshape
  · exact textMarks_of_shape_line hline

/-- The number of the label that is put in behind a load that a jump goes around. -/
def skipNumber : List Char := "999".toList

/-- Whether a statement loads an address from the offset table under a condition. -/
def Statement.SkipsLoad (s : Statement) : Prop :=
  ∃ insn skip source target m, s.kind = .instruction insn ∧
    X86.Family.of insn = .conditionalMove skip source target ∧
    source.kind = .memory m ∧ m.tag = some "GOTPCREL"

/-- How the marks that are written for a statement go with its own: they are written, and no label
is written but them and the one that is put in, which is never where a reference is. -/
structure Statement.KeepsMarks (s : Statement) (e : Emission) : Prop where
  mem : ∀ mark ∈ s.kind.marks, mark ∈ e.marks
  own : ∀ {number}, .label number ∈ e.marks →
    .label number ∈ s.kind.marks ∨ number = skipNumber ∧ s.SkipsLoad
  apart : ∀ {number other forward}, .reference number forward ∈ s.kind.marks →
    .label other ∉ e.marks

lemma mark?_ne_label {o : Operand} {number : List Char} : o.mark? ≠ some (.label number) := by
  unfold Operand.mark?
  split <;> nofun

/-- No statement is a numeric label and refers to one. -/
lemma Statement.Kind.label_notMem_marks {kind : Kind} {number other : List Char} {forward : Bool}
    (h : .reference number forward ∈ kind.marks) : .label other ∉ kind.marks := by
  cases kind with
  | label l =>
      cases l with
      | numeric name =>
          obtain h : Mark.reference number forward = .label _ := List.mem_singleton.mp h
          cases h
      | _ => cases h
  | instruction insn =>
      intro hlabel
      obtain ⟨o, -, ho⟩ := List.mem_filterMap.mp hlabel
      exact mark?_ne_label ho
  | _ => cases h

lemma Statement.KeepsMarks.of_eq (h : e.marks = s.kind.marks) : s.KeepsMarks e where
  mem _ hown := h ▸ hown
  own hwritten := .inl (h ▸ hwritten)
  apart hown := h ▸ Kind.label_notMem_marks hown

/-! ### Operands -/

namespace X86

variable {insn : Instruction} {i : ℕ} {o : Operand} {change : OperandChange}

lemma mark?_copied (ho : IsRead o) : (Line.Operand.copied o).mark? = o.mark? := by
  rw [Line.Operand.mark?, Line.Operand.text, ho.2]

lemma mark?_of_kind (h : ∀ text, o.kind ≠ .localLabel text) : o.mark? = none := by
  unfold Operand.mark?
  split
  · next text hkind => exact (h text hkind).elim
  · rfl

lemma mark?_symbol {name : String} (h : IsName name) :
    (Line.Operand.symbol name).mark? = none :=
  mark?_display (spelled_ofSymbol h) (.inl rfl) (text_memory _)

lemma mark?_ripRelative {name : String} (h : IsName name) :
    (Line.Operand.memory (.ripRelative name)).mark? = none :=
  mark?_display (spelled_ripRelative h) (.inl rfl) (text_memory _)

/-- A constant is no reference to a numeric label. -/
lemma mark?_dollar {p : Line.Operand} {indirect : Bool} {v : List Char}
    (htext : p.text.toList = star indirect ++ '$' :: v) : p.mark? = none := by
  have hhead : (direct p.text.toList).head? = some '$' := by
    rw [htext, direct_star_dollar]
    rfl
  exact mark?_of_direct hhead (by decide)

/-- An operand that refers to a numeric label is written as it is, and no other operand becomes
one. -/
lemma OperandSealed.mark? (h : OperandSealed scope insn i o change) (ho : IsRead o) :
    change.operand.mark? = o.mark? := by
  -- what is written anew is no reference by a number, and neither was what it stands for
  have hnone (hkind : ∀ text, o.kind ≠ .localLabel text)
      (hwritten : change.operand.mark? = none) : change.operand.mark? = o.mark? := by
    rw [hwritten, mark?_of_kind hkind]
  have hmemory {m m' : MemoryRef} (hkind : o.kind = .memory m) (hm' : Spelled m')
      (hdisplay : isNumericReference m'.display.toList = false) :
      (Line.Operand.built (o.withKind (.memory m'))).mark? = none := by
    obtain ⟨-, -, hgroups, -⟩ := spelled_of_operand ho.2 ho.1.whole ho.1.trimmed hkind
    exact mark?_memory hm' hdisplay hgroups (toList_display_withKind o (.memory m'))
  cases h with
  | @reference m hkind htag =>
      have hspelled : Spelled { m with symbol := m.symbol.map scope.inside } :=
        (ho.spelled hkind).withSymbol fun _ => Scope.isName_inside
      refine hnone (by simp [hkind]) (hmemory hkind hspelled ?_)
      cases hsymbol : m.symbol with
      | some name =>
          rw [hsymbol] at hspelled
          exact isNumericReference_display hspelled (.inl rfl)
      | none =>
          -- without a symbol nothing changes, and it was not read as such a reference
          obtain ⟨-, hread, -⟩ :=
            kind_display_of_operand ho.2 ho.1.whole ho.1.trimmed hkind
          have hsame : { m with symbol := none } = m := by rw [← hsymbol]
          rw [Option.map_none, hsame]
          exact not_isNumericReference_of_kind hread nofun
  | @linkage m hkind htag hjump =>
      have hsymbol : (m.symbol.map scope.branchTarget).map Prod.fst =
          m.symbol.map fun name => (scope.branchTarget name).1 := by
        rw [Option.map_map]
        rfl
      have hspelled : Spelled { m with symbol := m.symbol.map fun name =>
          (scope.branchTarget name).1 } :=
        (ho.spelled hkind).withSymbol fun _ => Scope.isName_branchTarget
      have hsome : m.symbol.isSome = true := ((ho.spelled hkind).tag _ htag).1
      rw [← hsymbol] at hspelled
      exact hnone (by simp [hkind]) (hmemory hkind hspelled.withoutTag
        (isNumericReference_display hspelled.withoutTag (.inl (by simp [hsome]))))
  | branch hkind htag =>
      exact hnone (by simp [hkind])
        (mark?_symbol (Scope.isName_branchTarget ((ho.spelled hkind).isName_of_tag htag)))
  | load => exact mark?_copied ho
  | distance hkind => exact hnone (by simp [hkind]) (mark?_ripRelative Symbol.isName_gotDelta)
  | address hkind => exact hnone (by simp [hkind]) (mark?_ripRelative Symbol.isName_gotDelta)
  | offset => exact mark?_copied ho
  | @constant sigil value hkind =>
      obtain ⟨body, hbody, -⟩ := exists_of_operand ho.2 ho.1.whole ho.1.trimmed
      rw [hkind] at hbody
      obtain ⟨v, -, rfl, -⟩ := immediate_of_kind hbody
      have htext : (o.withKind (.immediate (some '$')
          (value.mapSymbols scope.localized))).display.toList = star o.indirect ++
            '$' :: ((value.mapSymbols scope.localized).display.toList ++ o.decorators.toList) := by
        rw [toList_display_withKind]
        simp [Operand.Kind.display]
      exact hnone (by simp [hkind]) (mark?_dollar htext)
  | other => exact mark?_copied ho

lemma OperandsSealed.exists_operandSealed {k : ℕ} {os : List Operand}
    {changes : List OperandChange} (h : OperandsSealed scope insn k os changes) (ho : o ∈ os) :
    (∃ j, ∃ change ∈ changes, OperandSealed scope insn j o change) ∨
      ∃ change ∈ changes, change.last = true := by
  induction h with
  | nil => cases ho
  | last _ hlast => exact .inr ⟨_, List.mem_cons_self, hlast⟩
  | cons hsealed _ _ ih =>
      rcases List.mem_cons.mp ho with rfl | ho
      · exact .inl ⟨_, _, List.mem_cons_self, hsealed⟩
      · rcases ih ho with ⟨j, change, hc, hsealed⟩ | ⟨change, hc, hlast⟩
        · exact .inl ⟨j, change, List.mem_cons_of_mem _ hc, hsealed⟩
        · exact .inr ⟨change, List.mem_cons_of_mem _ hc, hlast⟩

/-! ### Frames -/

/-- The marks of the lines of a frame. -/
def Frame.marks (f : Frame) : List Mark :=
  f.lines.flatMap Line.marks

/-- What stands inside frames is written if none of them takes its place. -/
lemma mem_wrap_body {frames : List Frame} {body : List Line} {line : Line}
    (hframes : ∀ lines, .instead lines ∉ frames) (h : line ∈ body) :
    line ∈ Frame.wrap frames body := by
  induction frames with
  | nil => exact h
  | cons f frames ih =>
      cases f with
      | instead lines => exact (hframes lines List.mem_cons_self).elim
      | around before after =>
          have hinner := ih fun lines hlines => hframes lines (List.mem_cons_of_mem _ hlines)
          exact List.mem_append_left _ (List.mem_append_right _ hinner)

lemma mem_marks_afterwards {mnemonic : String} {operands : List Line.Operand}
    {p : Line.Operand} {r : Mark} (hp : p ∈ operands) (hr : p.mark? = some r) :
    r ∈ (Frame.afterwards (.spaced mnemonic operands)).marks :=
  List.mem_flatMap.mpr ⟨_, List.mem_singleton_self _, List.mem_filterMap.mpr ⟨p, hp, hr⟩⟩

/-- What surrounds a load has the references of the operands that it takes. -/
lemma exists_kept_of_loadPlan {plan : LoadPlan} {load : Operand} {r : Mark}
    (hinsn : IsInstruction insn) (hload : insn.operands[i]? = some load)
    (hnone : load.mark? = none) (h : loadPlan insn.mnemonic i (Family.of insn) = .ok plan)
    (hplace : (Family.of insn).loadsAnywhere = true ∨ i = 0) (ho : o ∈ insn.operands)
    (hr : o.mark? = some r) : ∃ f ∈ plan.frames, r ∈ f.marks := by
  have hbeside : Beside insn i o := by
    obtain ⟨j, hj⟩ := List.mem_iff_getElem?.mp ho
    refine ⟨j, ?_, hj⟩
    rintro rfl
    obtain rfl : load = o := Option.some.inj (hload.symm.trans hj)
    rw [hr] at hnone
    cases hnone
  by_cases hanywhere : (Family.of insn).loadsAnywhere = true
  · obtain ⟨hi, -⟩ := List.getElem?_eq_some_iff.mp hload
    obtain ⟨operands, hf, hcopied⟩ := exists_copied_of_loadPlan h hanywhere hi hbeside
    exact ⟨_, hf, mem_marks_afterwards hcopied ((mark?_copied (hinsn.operands o ho)).trans hr)⟩
  · -- no reference stands where a register does
    obtain rfl := hplace.resolve_left hanywhere
    obtain ⟨name, hname⟩ :=
      exists_register_of_loadPlan h (Bool.eq_false_iff.mpr hanywhere) hbeside
    rw [mark?_of_kind fun text hlabel => by simp [Operand.register?, hlabel] at hname] at hr
    cases hr

/-- No label is put around a load, but behind a conditional one. -/
lemma skips_of_loadPlan {mnemonic : String} {family : Family} {plan : LoadPlan}
    (h : loadPlan mnemonic i family = .ok plan) :
    (∀ f ∈ plan.frames, Line.labels f.lines = []) ∨ ∃ skip source target r,
      family = .conditionalMove skip source target ∧ target.register? = some r := by
  cases loadPlanned_of_loadPlan h with
  | conditionalMove hr => exact .inr ⟨_, _, _, _, rfl, hr⟩
  | push | transform => exact .inl (List.forall_mem_singleton.mpr rfl)
  | move => exact .inl (List.forall_mem_nil _)
  | compare | combine | combineVector | threeArg => exact .inl (LoadPlan.forall_scratch rfl rfl)

lemma skips_of_viaGeneral {mnemonic : String} {first plan : LoadPlan}
    (hfirst : ∀ f ∈ first.frames, Line.labels f.lines = [])
    (h : viaGeneral mnemonic first = .ok plan) : ∀ f ∈ plan.frames, Line.labels f.lines = [] :=
  forall_frames_of_viaGeneral h hfirst fun _ _ _ => ⟨rfl, rfl⟩

lemma prefix_of_viaGeneral {mnemonic : String} {first plan : LoadPlan}
    (h : viaGeneral mnemonic first = .ok plan) : first.frames <+: plan.frames := by
  rcases viaGeneral_eq_ok h with ⟨-, rfl⟩ | ⟨temp, -, rfl⟩
  · exact List.prefix_rfl
  · exact List.prefix_append ..

/-- The conditional moves of an address from the offset table into a register. -/
def LoadsConditionally (insn : Instruction) : Prop :=
  ∃ skip source target m r, Family.of insn = .conditionalMove skip source target ∧
    source.kind = .memory m ∧ m.tag = some "GOTPCREL" ∧ target.register? = some r

/-- Only in the frames around a conditional move of an address is there a label. -/
lemma OperandSealed.labels_or_loadsConditionally (h : OperandSealed scope insn i o change)
    (ho : insn.operands[i]? = some o) :
    (∀ f ∈ change.frames, Line.labels f.lines = []) ∨ LoadsConditionally insn := by
  cases h with
  | @load m frames helpers hkind htag hload =>
      obtain ⟨-, -, hplace, first, plan, hfirst, hplan, rfl, -⟩ := gotLoad_eq_ok hload
      rcases skips_of_loadPlan hfirst with hnone | ⟨skip, source, target, r, hfamily, hr⟩
      · refine .inl (List.forall_mem_append.mpr
          ⟨skips_of_viaGeneral hnone hplan, List.forall_mem_singleton.mpr ?_⟩)
        unfold addressOf
        split
        · rfl
        · cases plan.redZoneCleared <;> rfl
      · obtain ⟨hops, hanywhere⟩ := operands_of_moves (.inr ⟨skip, hfamily⟩)
        rw [hanywhere] at hplace
        obtain rfl : i = 0 := hplace.resolve_left Bool.false_ne_true
        rw [hops] at ho
        obtain rfl : source = o := Option.some.inj ho
        exact .inr ⟨skip, source, target, m, r, hfamily, hkind, htag, hr⟩
  | distance | address | offset => exact .inl (List.forall_mem_singleton.mpr rfl)
  | reference | linkage | branch | constant | other => exact .inl (List.forall_mem_nil _)

/-- A conditional move of an address refers to no numeric label. -/
lemma LoadsConditionally.mark? (h : LoadsConditionally insn) (ho : o ∈ insn.operands) :
    o.mark? = none := by
  obtain ⟨skip, source, target, m, r, hfamily, hkind, -, hr⟩ := h
  rw [(operands_of_moves (.inr ⟨skip, hfamily⟩)).1] at ho
  rcases List.mem_pair.mp ho with rfl | rfl
  · exact mark?_of_kind (by simp [hkind])
  · refine mark?_of_kind fun text hlabel => ?_
    rw [Operand.register?, hlabel] at hr
    cases hr

/-! ### Instructions -/

/-- The numeric labels of lines are among their labels. -/
lemma mem_labels_of_mem_marks {lines : List Line} {number : List Char}
    (h : .label number ∈ lines.flatMap Line.marks) : ∃ name ∈ Line.labels lines,
      (Statement.labelOf name.toList).mark? = some (.label number) := by
  obtain ⟨line, hline, hmark⟩ := List.mem_flatMap.mp h
  cases line with
  | label name => exact ⟨name, Line.mem_labels_iff.mpr hline, Option.mem_toList.mp hmark⟩
  | instruction modifiers mnemonic gap operands =>
      exfalso
      obtain ⟨p, -, hp⟩ := List.mem_filterMap.mp hmark
      unfold Line.Operand.mark? at hp
      split at hp
      · exact mark?_ne_label hp
      · cases hp
  | directive | landingPad => cases hmark

/-- The lines of frames that leave room for others are written. -/
lemma mem_wrap_of_mem {f : Frame} {frames rest : List Frame} {body : List Line} {line : Line}
    (hframes : ∀ g ∈ frames, ∃ before after, g = .around before after) (hf : f ∈ frames)
    (h : line ∈ f.lines) : line ∈ Frame.wrap (frames ++ rest) body := by
  obtain ⟨outer, inner, rfl⟩ := List.append_of_mem hf
  rw [List.append_cons, List.append_assoc, Frame.wrap_append]
  exact mem_wrap_of_around (fun g hg => hframes g (List.mem_append_left _ hg)) h

/-- Where no address is loaded, lines take the place of an instruction only for an offset in the
table, which is its first operand. The other one is written as it was. -/
lemma OperandsSealed.exists_offset {changes : List OperandChange} {lines : List Line}
    (h : OperandsSealed scope insn 0 insn.operands changes)
    (hload : ∀ change ∈ changes, change.last = false)
    (hlines : .instead lines ∈ changes.flatMap (·.frames)) :
    ∃ first target symbol fromTable slot, insn.operands = [first, target] ∧
      first.kind = .gotOffset symbol fromTable ∧
      .spaced "movq" [.memory (.ripRelative slot), .copied target] ∈ changedLines insn changes := by
  obtain ⟨change, hc, hframe⟩ := List.mem_flatMap.mp hlines
  obtain ⟨j, o, hget, hchange, hhead⟩ := h.exists_getElem? hc
  rw [Nat.zero_add] at hchange
  cases hchange with
  | @offset symbol fromTable target hkind _ htarget =>
      obtain ⟨rfl, first, hops⟩ := targetOfFirst_eq_some htarget
      obtain ⟨rest, rfl⟩ := List.head?_eq_some_iff.mp (hhead rfl)
      rw [hops] at hget
      obtain rfl : first = o := Option.some.inj hget
      exact ⟨first, target, symbol, fromTable, _, hops, hkind,
        mem_wrap_cons (List.mem_singleton_self _)⟩
  | load => cases hload _ hc
  | distance | address => cases List.mem_singleton.mp hframe
  | reference | linkage | branch | constant | other => cases hframe

/-- Where an offset in the table takes the place of an instruction, the other operand is kept. -/
lemma mem_marks_of_instead {changes : List OperandChange} {r : Mark} {lines : List Line}
    (hinsn : IsInstruction insn) (hsealed : OperandsSealed scope insn 0 insn.operands changes)
    (hload : ∀ change ∈ changes, change.last = false)
    (hlines : .instead lines ∈ changes.flatMap (·.frames)) (ho : o ∈ insn.operands)
    (hr : o.mark? = some r) : r ∈ (changedLines insn changes).flatMap Line.marks := by
  have hread : IsRead o := hinsn.operands o ho
  obtain ⟨first, target, symbol, fromTable, slot, hops, hkind, hline⟩ :=
    hsealed.exists_offset hload hlines
  rw [hops] at ho
  rcases List.mem_pair.mp ho with rfl | rfl
  · rw [mark?_of_kind (by simp [hkind])] at hr
    cases hr
  · refine List.mem_flatMap.mpr ⟨_, hline,
      List.mem_filterMap.mpr ⟨.copied o, ?_, (mark?_copied hread).trans hr⟩⟩
    exact List.mem_cons_of_mem _ List.mem_cons_self

/-- The references of an instruction are written in the lines in its place. -/
lemma mem_marks_changedLines {changes : List OperandChange} {r : Mark}
    (hinsn : IsInstruction insn) (hsealed : OperandsSealed scope insn 0 insn.operands changes)
    (ho : o ∈ insn.operands) (hr : o.mark? = some r) :
    r ∈ (changedLines insn changes).flatMap Line.marks := by
  -- a load keeps the references of the other operands in its frames
  by_cases hload : ∃ change ∈ changes, change.last = true
  · obtain ⟨change, hc, hlast⟩ := hload
    obtain ⟨j, load, hj, hchange, -⟩ := hsealed.exists_getElem? hc
    rw [Nat.zero_add] at hchange
    cases hchange with
    | @load m frames helpers hkind htag hgot =>
        have hframes := hsealed.frames_eq (mnemonic_ne_of_gotLoad hgot) hc hlast
        obtain ⟨-, -, hplace, first, plan, hfirst, hplan, rfl, -⟩ := gotLoad_eq_ok hgot
        obtain ⟨f, hf, hrf⟩ := exists_kept_of_loadPlan hinsn hj
          (mark?_of_kind (by simp [hkind])) hfirst hplace ho hr
        obtain ⟨line, hline, hmark⟩ := List.mem_flatMap.mp hrf
        refine List.mem_flatMap.mpr ⟨line, ?_, hmark⟩
        rw [changedLines, hframes]
        exact mem_wrap_of_mem
          (fun g hg => (viaGeneral_frames (loadPlan_frames hfirst) hplan g hg).around)
          ((prefix_of_viaGeneral hplan).subset hf) hline
    | _ => cases hlast
  · obtain ⟨_, change, hc, hchange⟩ := (hsealed.exists_operandSealed ho).resolve_right hload
    -- lines in the place of the instruction name them themselves
    by_cases hinstead : ∃ lines, .instead lines ∈ changes.flatMap (·.frames)
    · obtain ⟨lines, hlines⟩ := hinstead
      refine mem_marks_of_instead hinsn hsealed (fun c hc => ?_) hlines ho hr
      exact Bool.eq_false_iff.mpr fun hlast => hload ⟨c, hc, hlast⟩
    · refine List.mem_flatMap.mpr ⟨_, mem_wrap_body (fun lines hlines => hinstead ⟨lines, hlines⟩)
        (List.mem_singleton_self _), List.mem_filterMap.mpr ⟨change.operand, ?_, ?_⟩⟩
      · exact List.mem_map_of_mem hc
      · rw [hchange.mark? (hinsn.operands o ho), hr]

/-- What is written for an instruction has its references to numeric labels, and no numeric label
but the one that a conditional move of an address jumps to. -/
lemma keepsMarks_sealInstruction (hkind : s.kind = .instruction insn) (hinsn : IsInstruction insn)
    (htext : Statement.textMarks .x86_64 s.text = s.kind.marks)
    (h : sealInstruction scope s insn = .ok e) : s.KeepsMarks e := by
  obtain ⟨changes, hsealed, ⟨-, rfl⟩ | ⟨-, rfl⟩⟩ := sealInstruction_eq_ok h
  · exact .of_eq (Emission.marks_copy.trans htext)
  -- a numeric label that is put in stands in a frame
  have hlabel {number : List Char}
      (hnumber : .label number ∈ (changedLines insn changes).flatMap Line.marks) :
      number = skipNumber ∧ LoadsConditionally insn := by
    obtain ⟨name, hname, hmark⟩ := mem_labels_of_mem_marks hnumber
    rcases mem_wrap (Line.mem_labels_iff.mp hname) with ⟨hline, -⟩ | ⟨f, hf, hline⟩
    · cases List.mem_singleton.mp hline
    · obtain ⟨change, hc, hf⟩ := List.mem_flatMap.mp hf
      obtain ⟨j, o, ho, hchange, -⟩ := hsealed.exists_getElem? hc
      rw [Nat.zero_add] at hchange
      have hmem := Line.mem_labels_iff.mpr hline
      rcases hchange.labels_or_loadsConditionally ho with hnone | hloads
      · rw [hnone f hf] at hmem
        cases hmem
      · refine ⟨?_, hloads⟩
        rcases hchange.labels_frames f hf with hlabels | hlabels
        · rw [hlabels] at hmem
          cases hmem
        · rw [hlabels, List.mem_singleton] at hmem
          subst hmem
          exact (Mark.label.inj (Option.some.inj hmark)).symm
  have hmarks : (Emission.replace s (changedLines insn changes)
      (changes.flatMap (·.helpers))).marks = _ := Emission.marks_replace
  refine ⟨fun mark hmark => ?_, fun hnumber => ?_, fun hown hnumber => ?_⟩
  · rw [hkind] at hmark
    obtain ⟨o, ho, hmark⟩ := List.mem_filterMap.mp hmark
    rw [hmarks]
    exact mem_marks_changedLines hinsn hsealed ho hmark
  · rw [hmarks] at hnumber
    obtain ⟨hnumber, skip, source, target, m, r, hfamily, hm, htag, -⟩ := hlabel hnumber
    exact .inr ⟨hnumber, insn, skip, source, target, m, hkind, hfamily, hm, htag⟩
  · rw [hmarks] at hnumber
    rw [hkind] at hown
    obtain ⟨o, ho, hmark⟩ := List.mem_filterMap.mp hown
    rw [(hlabel hnumber).2.mark? ho] at hmark
    cases hmark

end X86

/-! ### Statements -/

namespace Statement

lemma mark?_labelOf_localAlias (name : String) :
    (labelOf (Symbol.localAlias name).toList).mark? = none := by
  have hdigit : ¬ (Symbol.localAlias name).toList.head?.any Char.isDigit = true := by
    simp [Symbol.localAlias]
  rw [labelOf, if_neg hdigit]
  split <;> rfl

lemma marks_of_isPlainChunk {c : Chunk} (h : s.IsPlainChunk c)
    (htext : textMarks .x86_64 s.text = []) : c.marks = [] := by
  rcases h with rfl | rfl | ⟨_, _, _, _, rfl⟩
  · exact htext
  · rfl
  · rfl

/-- A label is written with its own number, if it has one, and no alias has a number. -/
lemma marks_emission_label {text : String} {statements : List Statement} {inBss : Bool}
    {label : Label} (h : parse .x86_64 text = .ok statements) (hs : s ∈ statements)
    (hkind : s.kind = .label label) (he : s.emission .x86_64 scope inBss = .ok e) :
    e.marks = s.kind.marks := by
  have htext := textMarks_text h hs
  have hshape := shape_of_label h hs hkind
  cases label with
  | symbol name =>
      rw [hkind] at htext
      unfold emission at he
      rw [hkind] at he
      cases inBss with
      | true =>
          cases he
          change textMarks .x86_64 s.text ++
            ((labelOf (Symbol.localAlias name).toList).mark?.toList ++ []) = _
          rw [htext, mark?_labelOf_localAlias, hkind]
          rfl
      | false =>
          simp only [sealCode, hkind] at he
          cases he
          change (labelOf (Symbol.localAlias name).toList).mark?.toList ++
            (textMarks .x86_64 s.text ++ []) = _
          rw [htext, mark?_labelOf_localAlias, hkind]
          rfl
  | dotLocal name =>
      rw [emission_of_dotLocal hkind] at he
      cases he
      rw [Emission.marks, sealLabel, List.flatMap_singleton, Chunk.marks, hkind]
      exact (textMarks_of_shape (shape_replaceFirst scope.index hshape)).trans rfl
  | numeric name =>
      unfold emission at he
      rw [hkind] at he
      have hcopy : Emission.copy s = e := by
        cases inBss <;> simpa only [sealCode, hkind, sealLabel, Except.ok.injEq] using he
      rw [← hcopy, Emission.marks_copy, htext]

/-- What is written for a statement has its numeric labels and its references to such, and no other
numeric label but the one that is put in. -/
theorem keepsMarks_of_emission {text : String} {statements : List Statement} {inBss : Bool}
    (h : parse .x86_64 text = .ok statements) (hs : s ∈ statements)
    (he : s.emission .x86_64 scope inBss = .ok e) : s.KeepsMarks e := by
  have htext := textMarks_text h hs
  by_cases hlabel : ∃ label, s.kind = .label label
  · obtain ⟨label, hkind⟩ := hlabel
    exact .of_eq (marks_emission_label h hs hkind he)
  by_cases hinsn : ∃ insn, s.kind = .instruction insn
  · obtain ⟨insn, hkind⟩ := hinsn
    have hsealed := (sealInstruction_of_emission hkind he).2
    obtain ⟨c, d, hread⟩ := (parse_eq_ok_iff.mp h).exists_ofCursor hs
    have hisInsn : X86.IsInstruction insn := by
      rcases shape_of_ofCursor hread with hshape | ⟨-, -, hshape⟩
      all_goals
        rw [hkind] at hshape
        exact X86.isInstruction_of_shape hshape
    exact X86.keepsMarks_sealInstruction hkind hisInsn htext hsealed
  · -- nothing else is a label, or refers to one by a number
    have hplain := isPlainChunk_emission (fun label hkind => hlabel ⟨label, hkind⟩)
      (fun insn hkind => hinsn ⟨insn, hkind⟩) he
    have hnone : s.kind.marks = [] := by
      cases hkind : s.kind with
      | label label => exact (hlabel ⟨label, hkind⟩).elim
      | instruction insn => exact (hinsn ⟨insn, hkind⟩).elim
      | _ => rfl
    refine .of_eq ?_
    rw [hnone, Emission.marks, List.flatMap_eq_nil_iff]
    exact fun c hc => marks_of_isPlainChunk (hplain c hc) (htext.trans hnone)

end Statement

end Hermetic

/-
What is written for an instruction of x86-64 is read again.

* `X86.IsInstruction`: instructions that are read from a text, with `X86.isInstruction_of_shape`;
* `Line.Readable`, `X86.Frame.Readable`: lines and frames that are read;
* `X86.FillsNumbered`, `X86.HidesMnemonic`: the instructions for which something is written that
  is not read, or read as another instruction;
* `X86.Beside`: the operands beside one that is loaded, with `X86.exists_copied_of_loadPlan` and
  `X86.exists_register_of_loadPlan`: they are copied behind the load, or registers;
* `X86.isRead_of_loadPlan`, `X86.readable_of_gotLoad`: the frames of a load from the offset table;
* `X86.OperandSealed.isOperand`, `X86.OperandSealed.readable`: what becomes of an operand, and its
  frames;
* `X86.exists_writes_sealInstruction`: what is written for an instruction.
-/
import Hermetic.Proofs.Helpers.X86
import Hermetic.Proofs.Sealing.Marks
import Hermetic.Proofs.Sealing.Statements

namespace Hermetic

open Scan (Whole)

/-- Whether a line is read as statements, with its numeric labels and references to such. -/
def Line.Readable (line : Line) : Prop :=
  ∃ kinds, Says .x86_64 line.text.toList kinds ∧
    kinds.flatMap Statement.Kind.marks = line.marks

namespace X86

variable {scope : Scope} {insn : Instruction}

/-! ### Instructions that are read -/

/-- Operands that are read from their texts. -/
def IsRead (o : Operand) : Prop :=
  IsOperand o.text.toList ∧ operand o.text.toList = .ok o

/-- Instructions that are read from a text. -/
structure IsInstruction (insn : Instruction) : Prop where
  named : IsMnemonic insn.modifiers insn.mnemonic
  operands : ∀ o ∈ insn.operands, IsRead o

lemma isInstruction_of_shape {l : List Char}
    (h : Statement.Shape .x86_64 l (.instruction insn)) : IsInstruction insn := by
  obtain ⟨lead, body, -, hbody, -⟩ := h
  cases hbody with
  | directive _ _ _ _ _ _ _ hkind => cases Statement.isDirective_of_directiveKind hkind
  | instruction hwords _ _ _ _ hargs _ hos =>
      refine ⟨hwords.isMnemonic, fun o ho => ?_⟩
      obtain ⟨p, hp, hne, hread⟩ := Outcome.exists_of_mem_forall₂ hos ho
      refine ⟨isOperand_of_piece hargs.whole hp hne hread, ?_⟩
      obtain ⟨k, -, rfl⟩ := operand_eq_ok_iff.mp hread
      rwa [String.toList_ofList]

/-- A register that is read is spelled as one. -/
lemma IsRead.isRegister {o : Operand} {r : String} (h : IsRead o) (hr : o.register? = some r) :
    isRegister r.toList = true := by
  have hkind : o.kind = .register r := by
    unfold Operand.register? at hr
    split at hr
    · next name hkind =>
        cases hr
        exact hkind
    · cases hr
  obtain ⟨body, hbody, -⟩ := exists_of_operand h.2 h.1.whole h.1.trimmed
  rw [hkind] at hbody
  unfold kind at hbody
  split at hbody
  · cases hbody
  · next value =>
      exfalso
      obtain hvalue : immediate value = .register r := by simpa using hbody
      unfold immediate at hvalue
      repeat' split at hvalue
      all_goals cases hvalue
  · repeat' split at hbody
    all_goals try cases hbody
    · next hregister =>
        rwa [String.toList_ofList]
    · obtain ⟨m, -, hm⟩ := Outcome.map_eq_ok_iff.mp hbody
      cases hm

/-! ### Lines and frames -/

/-- Mnemonics that change no other. -/
def IsPlain (mnemonic : String) : Prop :=
  IsWord mnemonic.toList ∧ mnemonic.toLower ∉ Statement.modifierWords

/-- Whether every line of a frame is read as statements. -/
def Frame.Readable (f : Frame) : Prop :=
  ∀ line ∈ f.lines, line.Readable

/-- The operands of a line, read again, have the marks that they are written with. -/
lemma filterMap_mark? {operands : List Line.Operand} {os : List Operand}
    (h : List.Forall₂ (fun t o => operand t.toList = .ok o) (operands.map Line.Operand.text) os) :
    os.filterMap Operand.mark? = operands.filterMap Line.Operand.mark? := by
  rw [List.forall₂_map_left_iff] at h
  induction h with
  | nil => rfl
  | cons ho _ ih => rw [List.filterMap_cons, List.filterMap_cons, ih, Line.Operand.mark?, ho]

lemma readable_line {modifiers : List String} {mnemonic gap : String}
    {operands : List Line.Operand} (hm : IsMnemonic modifiers mnemonic)
    (hgap : gap = " " ∨ gap = "\t") (hops : ∀ o ∈ operands, IsOperand o.text.toList)
    (hfirst : mnemonic.toLower ∈ Statement.modifierWords →
      ¬ Statement.StartsWithLetter (operands.map Line.Operand.text)) :
    (Line.instruction modifiers mnemonic gap operands).Readable := by
  have htexts (t : String) (ht : t ∈ operands.map Line.Operand.text) : IsOperand t.toList := by
    obtain ⟨o, ho, rfl⟩ := List.mem_map.mp ht
    exact hops o ho
  obtain ⟨os, hos, hshape⟩ := Statement.exists_shape_instruction hm hgap htexts hfirst
  exact ⟨_, ⟨_, .single hshape, rfl⟩, (List.flatMap_singleton ..).trans (filterMap_mark? hos)⟩

lemma readable_instruction {mnemonic gap : String} {operands : List Line.Operand}
    (hm : IsPlain mnemonic) (hgap : gap = " " ∨ gap = "\t")
    (hops : ∀ o ∈ operands, IsOperand o.text.toList) :
    (Line.instruction [] mnemonic gap operands).Readable :=
  readable_line ⟨nofun, hm.1⟩ hgap hops fun hmem => (hm.2 hmem).elim

instance (l : List Char) : Decidable (IsWord l) :=
  match l with
  | [] => isFalse id
  | ch :: l => decidable_of_iff (ch.isAlpha = true ∧ l.all isWordChar = true)
      (and_congr_right' List.all_eq_true)

instance (mnemonic : String) : Decidable (IsPlain mnemonic) :=
  inferInstanceAs (Decidable (_ ∧ _))

lemma isOperand_builtRegister {r : String} (h : isRegister r.toList = true) :
    IsOperand (Line.Operand.register r).text.toList := by
  rw [Line.Operand.register, Line.Operand.text_ofKind]
  exact isOperand_register h

lemma isOperand_rsp : IsOperand Frame.rsp.text.toList :=
  isOperand_builtRegister (by decide)

lemma isOperand_stack {offset : String} (h : Offset.IsOffset offset.toList) :
    IsOperand (Frame.stack offset).text.toList :=
  isOperand_ofRegister (by decide) (by decide) h

/-- The numeric label that conditional moves are jumped around to is read. -/
lemma isOperand_skipLabel :
    IsOperand (Line.Operand.ofKind (.localLabel "999f")).text.toList := by
  have hundecorated : undecorated "999f".toList = ("999f".toList, []) := by
    have hpeel : peel [] "999f".toList.reverse = ("999f".toList.reverse, []) :=
      peel_of_head (by decide)
    rw [undecorated, hpeel]
    · rfl
    · rintro _ ⟨⟩
  have hdirect : direct "999f".toList = "999f".toList := rfl
  have hread : operand "999f".toList = .ok { text := "999f", kind := .localLabel "999f" } := by
    refine operand_eq_ok_iff.mpr ⟨.localLabel "999f", ?_, ?_⟩
    · rw [hdirect, hundecorated]
      rfl
    · rw [hdirect, hundecorated]
      rfl
  rw [Line.Operand.text_ofKind]
  refine ⟨⟨{}, rfl, .inl rfl, rfl⟩, ⟨fun d hd => ?_, fun d hd => ?_⟩, by rintro ⟨⟩, _, hread⟩
  · cases hd
    decide
  · cases hd
    decide

/-- An instruction with a space before its operands, all of which are read. -/
lemma readable_spaced {mnemonic : String} {operands : List Line.Operand} (hm : IsPlain mnemonic)
    (hops : ∀ o ∈ operands, IsOperand o.text.toList) : (Line.spaced mnemonic operands).Readable :=
  readable_instruction hm (.inl rfl) hops

lemma readable_spaced_nil {mnemonic : String} (hm : IsPlain mnemonic) :
    (Line.spaced mnemonic []).Readable :=
  readable_spaced hm (List.forall_mem_nil _)

lemma readable_spaced_one {mnemonic : String} {a : Line.Operand} (hm : IsPlain mnemonic)
    (ha : IsOperand a.text.toList) : (Line.spaced mnemonic [a]).Readable :=
  readable_spaced hm fun o ho => by rwa [List.mem_singleton.mp ho]

lemma readable_spaced_two {mnemonic : String} {a b : Line.Operand} (hm : IsPlain mnemonic)
    (ha : IsOperand a.text.toList) (hb : IsOperand b.text.toList) :
    (Line.spaced mnemonic [a, b]).Readable := by
  refine readable_spaced hm fun o ho => ?_
  rcases List.mem_pair.mp ho with rfl | rfl
  · exact ha
  · exact hb

/-- The mnemonics that are written around an instruction and instead of one. -/
def Frame.mnemonics : List String :=
  ["pushf", "popf", "pushq", "popq", "leaq", "movq", "vmovq", "addq", "xchg"]

lemma Frame.isPlain {mnemonic : String} (h : mnemonic ∈ mnemonics) : IsPlain mnemonic := by
  have hall : ∀ m ∈ mnemonics, IsPlain m := by decide +kernel
  exact hall mnemonic h

/-- The offsets that are written from where the stack ends are offsets. -/
lemma Frame.isOffset {offset : String} (h : offset ∈ ["-" ++ redZone, redZone, "8"]) :
    Offset.IsOffset offset.toList := by
  have hall : ∀ o ∈ ["-" ++ redZone, redZone, "8"],
      Offset.take o.toList = (o.toList, []) := by decide +kernel
  exact hall offset h

lemma readable_clearRedZone : Frame.clearRedZone.Readable :=
  readable_spaced_two (Frame.isPlain (by decide)) (isOperand_stack (Frame.isOffset (by simp)))
    isOperand_rsp

lemma readable_restoreRedZone : Frame.restoreRedZone.Readable :=
  readable_spaced_two (Frame.isPlain (by decide)) (isOperand_stack (Frame.isOffset (by simp)))
    isOperand_rsp

/-! ### Frames -/

namespace Frame

lemma readable_pushResult : pushResult.Readable := by
  have hrax : IsOperand (Line.Operand.register "%rax").text.toList :=
    isOperand_builtRegister (by decide)
  have hstack : IsOperand (stack "").text.toList := isOperand_stack Offset.isOffset_nil
  refine List.forall_mem_cons.mpr ⟨readable_spaced_one (isPlain (by decide)) hrax, ?_⟩
  exact List.forall_mem_singleton.mpr (readable_spaced_two (isPlain (by decide)) hrax hstack)

lemma readable_skipIf {condition : String} (h : IsPlain ("j" ++ condition)) :
    (skipIf condition).Readable := by
  refine List.forall_mem_cons.mpr ⟨readable_spaced_one h isOperand_skipLabel,
    List.forall_mem_singleton.mpr ?_⟩
  have hname : LabelName "999".toList := .inl ⟨rfl, List.all_eq_true.mp (by decide)⟩
  have hlabel : Says .x86_64 ("999".toList ++ [':']) _ :=
    ⟨_, .single (Statement.shape_label hname), rfl⟩
  exact ⟨_, hlabel.append says_newline, rfl⟩

lemma readable_saveRegister {r : String} (h : isRegister r.toList = true) :
    (saveRegister r).Readable :=
  List.forall_mem_cons.mpr ⟨readable_clearRedZone, List.forall_mem_cons.mpr
    ⟨readable_spaced_one (isPlain (by decide)) (isOperand_builtRegister h),
      List.forall_mem_cons.mpr
        ⟨readable_spaced_one (isPlain (by decide)) (isOperand_builtRegister h),
          List.forall_mem_singleton.mpr readable_restoreRedZone⟩⟩⟩

lemma readable_afterwards {line : Line} (h : line.Readable) : (afterwards line).Readable :=
  List.forall_mem_singleton.mpr h

lemma readable_moveTo {target source : String} {avx : Bool} (ht : isRegister target.toList = true)
    (hs : isRegister source.toList = true) : (moveTo target avx source).Readable := by
  refine readable_afterwards (readable_spaced_two ?_ (isOperand_builtRegister hs)
    (isOperand_builtRegister ht))
  cases avx <;> exact isPlain (by decide)

lemma readable_combineVector {mnemonic target temp : String} (hm : IsPlain mnemonic)
    (ht : isRegister target.toList = true) (hs : isRegister temp.toList = true) :
    (combineVector mnemonic target temp).Readable := by
  exact List.forall_mem_cons.mpr
    ⟨readable_spaced_one (isPlain (by decide)) (isOperand_builtRegister hs),
      List.forall_mem_cons.mpr
        ⟨readable_spaced_two hm (isOperand_stack Offset.isOffset_nil) (isOperand_builtRegister ht),
          List.forall_mem_singleton.mpr
            (readable_spaced_two (isPlain (by decide)) (isOperand_stack (isOffset (by simp)))
              isOperand_rsp)⟩⟩

lemma readable_loadAddress {symbol register : String} (hs : IsName symbol)
    (hr : isRegister register.toList = true) : (loadAddress symbol register).Readable := by
  refine List.forall_mem_singleton.mpr (readable_instruction (isPlain (by decide)) (.inr rfl)
    fun o ho => ?_)
  rcases List.mem_pair.mp ho with rfl | rfl
  · exact isOperand_ripRelative hs
  · exact isOperand_builtRegister hr

/-- The address of a symbol outside the module is loaded through any register but one whose name
has a number. -/
lemma readable_loadFromGot {symbol register : String} {cleared : Bool} (hs : IsName symbol)
    (hr : isRegister register.toList = true) (hparen : '(' ∉ register.toList) :
    (loadFromGot symbol register cleared).Readable := by
  have hregister := isOperand_builtRegister hr
  have hpointed : IsOperand (Line.Operand.memory (.ofRegister register)).text.toList :=
    isOperand_ofRegister hr hparen Offset.isOffset_nil
  have hslot := isOperand_ripRelative (Symbol.isName_gotSlot hs)
  have hbody : ∀ line ∈ ([.spaced "pushf" [],
      .spaced "leaq" [.memory (.ripRelative (Symbol.gotSlot symbol)), .register register],
      .spaced "addq" [.memory (.ofRegister register), .register register],
      .spaced "movq" [.memory (.ofRegister register), .register register],
      .spaced "popf" []] : List Line), line.Readable := by
    simp only [List.forall_mem_cons]
    exact ⟨readable_spaced_nil (isPlain (by decide)),
      readable_spaced_two (isPlain (by decide)) hslot hregister,
      readable_spaced_two (isPlain (by decide)) hpointed hregister,
      readable_spaced_two (isPlain (by decide)) hpointed hregister,
      readable_spaced_nil (isPlain (by decide)), nofun⟩
  cases cleared with
  | true => exact hbody
  | false =>
      refine List.forall_mem_cons.mpr ⟨readable_clearRedZone, fun line hline => ?_⟩
      rcases List.mem_append.mp hline with hline | hline
      · exact hbody line hline
      · rw [List.mem_singleton.mp hline]
        exact readable_restoreRedZone

lemma readable_loadGotOffset {slot : String} {target : Line.Operand} (hs : IsName slot)
    (ht : IsOperand target.text.toList) : (loadGotOffset slot target).Readable :=
  List.forall_mem_singleton.mpr
    (readable_spaced_two (isPlain (by decide)) (isOperand_ripRelative hs) ht)

end Frame

/-! ### Families -/

/-- What is known of an instruction by its family: its operands, and that the mnemonics that are
written for it change no other. -/
inductive Known (insn : Instruction) : Family → Prop
  | push {a : Operand} : insn.operands = [a] → IsPlain insn.mnemonic → Known insn (.push a)
  | jump {a : Operand} : insn.operands = [a] → IsPlain insn.mnemonic → Known insn (.jump a)
  | move {a b : Operand} : insn.operands = [a, b] → IsPlain insn.mnemonic → Known insn (.move a b)
  | conditionalMove {skip : String} {a b : Operand} : insn.operands = [a, b] →
      IsPlain insn.mnemonic → IsPlain ("j" ++ skip) → Known insn (.conditionalMove skip a b)
  | combine {a b : Operand} : insn.operands = [a, b] → IsPlain insn.mnemonic →
      Known insn (.combine a b)
  | compare {a b : Operand} : insn.operands = [a, b] → IsPlain insn.mnemonic →
      Known insn (.compare a b)
  | transform {a b : Operand} : insn.operands = [a, b] → IsPlain insn.mnemonic →
      Known insn (.transform a b)
  | combineVector {a b : Operand} : insn.operands = [a, b] → IsPlain insn.mnemonic →
      Known insn (.combineVector a b)
  | threeArg {a b c : Operand} : insn.operands = [a, b, c] → IsPlain insn.mnemonic →
      Known insn (.threeArg a b c)
  | other : Known insn .other

/-- No word that changes a mnemonic starts like a jump, a call or a conditional move. -/
lemma isPlain_of_head {mnemonic : String}
    (hhead : mnemonic.toList.head? = some 'c' ∨ mnemonic.toList.head? = some 'j')
    (hall : mnemonic.toList.all isWordChar = true) : IsPlain mnemonic := by
  have hwords : ∀ w ∈ Statement.modifierWords,
      w.toList.head? ≠ some 'c' ∧ w.toList.head? ≠ some 'j' := by decide +kernel
  have hword {ch : Char} (hch : mnemonic.toList.head? = some ch) (halpha : ch.isAlpha = true) :
      IsWord mnemonic.toList := by
    obtain ⟨l, hl⟩ := List.head?_eq_some_iff.mp hch
    rw [hl, List.all_cons, Bool.and_eq_true] at hall
    rw [hl]
    exact ⟨halpha, List.all_eq_true.mp hall.2⟩
  have hlower {ch : Char} (hch : mnemonic.toList.head? = some ch) :
      mnemonic.toLower.toList.head? = some ch.toLower := by
    change (mnemonic.map Char.toLower).toList.head? = _
    rw [String.toList_map, List.head?_map, hch, Option.map_some]
  rcases hhead with hhead | hhead
  · exact ⟨hword hhead rfl, fun hmem => (hwords _ hmem).1 (hlower hhead)⟩
  · exact ⟨hword hhead rfl, fun hmem => (hwords _ hmem).2 (hlower hhead)⟩

lemma isPlain_of_skipCondition {mnemonic skip : String} (h : skipCondition mnemonic = some skip) :
    IsPlain mnemonic ∧ IsPlain ("j" ++ skip) := by
  have hall : ∀ p ∈ oppositeConditions, p.2.toList.all isWordChar = true ∧
      ∀ condition ∈ p.1, condition.toList.all isWordChar = true := by
    decide +kernel
  unfold skipCondition at h
  split at h
  · next condition hcondition =>
      obtain ⟨p, hfind, rfl⟩ := Option.map_eq_some_iff.mp h
      obtain ⟨rest, hafter, hbefore⟩ := Option.bind_eq_some_iff.mp hcondition
      have hmnemonic : mnemonic.toList = "cmov".toList ++ (condition ++ ['q']) := by
        rw [Text.after?_eq_some_iff.mp hafter, Text.before?_eq_some_iff.mp hbefore]
      obtain ⟨hskip, hconditions⟩ := hall p (List.mem_of_find?_eq_some hfind)
      have hletters : condition.all isWordChar = true := by
        have hmem : String.ofList condition ∈ p.1 := by simpa using List.find?_some hfind
        simpa using hconditions _ hmem
      refine ⟨isPlain_of_head (.inl (by rw [hmnemonic]; rfl)) ?_,
        isPlain_of_head (.inr (by rw [String.toList_append]; rfl)) ?_⟩
      · rw [hmnemonic, List.all_append, List.all_append, hletters]
        rfl
      · rw [String.toList_append, List.all_append, hskip]
        rfl
  · cases h

lemma known_ofOne {a : Operand} (hops : insn.operands = [a]) :
    Known insn (Family.ofOne insn.mnemonic a) := by
  have hpush : ∀ m ∈ ["push", "pushq"], IsPlain m := by decide +kernel
  have hjump : ∀ m ∈ jumps, (m.toList.head? = some 'c' ∨ m.toList.head? = some 'j') ∧
      m.toList.all isWordChar = true := by decide +kernel
  unfold Family.ofOne
  split
  · next hm => exact .push hops (hpush _ hm)
  · split
    · next hm => exact .jump hops (isPlain_of_head (hjump _ hm).1 (hjump _ hm).2)
    · exact .other

lemma known_ofTwo {a b : Operand} (hops : insn.operands = [a, b]) :
    Known insn (Family.ofTwo insn.mnemonic a b) := by
  have hmove : ∀ m ∈ ["mov", "movq", "vmovq", "movsd", "vmovsd"], IsPlain m := by decide +kernel
  have hcombine : ∀ m ∈ ["orq", "andq", "xorq"], IsPlain m := by decide +kernel
  have hvector : ∀ m ∈ ["movlps", "movhps", "movlpd", "movhpd"], IsPlain m := by decide +kernel
  unfold Family.ofTwo
  split
  · next hm => exact .move hops (hmove _ hm)
  · split
    · next hm => exact .combine hops (hcombine _ hm)
    · split
      · next hm =>
          refine .compare hops ?_
          rw [hm]
          decide +kernel
      · split
        · next hm =>
            refine .transform hops ?_
            rw [hm]
            decide +kernel
        · split
          · next hm => exact .combineVector hops (hvector _ hm)
          · split
            · next hskip =>
                obtain ⟨hplain, hjump⟩ := isPlain_of_skipCondition hskip
                exact .conditionalMove hops hplain hjump
            · exact .other

lemma known_ofThree {a b c : Operand} (hops : insn.operands = [a, b, c]) :
    Known insn (Family.ofThree insn.mnemonic a b c) := by
  have hshift : ∀ m ∈ ["sarxq", "shlxq", "shrxq"], IsPlain m := by decide +kernel
  unfold Family.ofThree
  split
  · next hm => exact .threeArg hops (hshift _ hm)
  · exact .other

lemma known_of (insn : Instruction) : Known insn (Family.of insn) := by
  unfold Family.of
  split
  · next hops => exact known_ofOne hops
  · next hops => exact known_ofTwo hops
  · next hops => exact known_ofThree hops
  · exact .other

lemma Known.isPlain {family : Family} (h : Known insn family) (hfamily : family ≠ .other) :
    IsPlain insn.mnemonic := by
  cases h with
  | other => exact (hfamily rfl).elim
  | conditionalMove _ hplain _ => exact hplain
  | _ => assumption

/-- The operands of a move, under a condition or not, the first of which may be loaded. -/
lemma operands_of_moves {source target : Operand}
    (h : Family.of insn = .move source target ∨
      ∃ skip, Family.of insn = .conditionalMove skip source target) :
    insn.operands = [source, target] ∧ (Family.of insn).loadsAnywhere = false := by
  have hknown := known_of insn
  rcases h with h | ⟨skip, h⟩
  · rw [h] at hknown ⊢
    cases hknown with
    | move hops _ => exact ⟨hops, rfl⟩
  · rw [h] at hknown ⊢
    cases hknown with
    | conditionalMove hops _ _ => exact ⟨hops, rfl⟩

/-- A word that changes a mnemonic belongs to no family. -/
lemma family_eq_other (h : insn.mnemonic.toLower ∈ Statement.modifierWords) :
    Family.of insn = .other :=
  not_not.mp fun hfamily => ((known_of insn).isPlain hfamily).2 h

/-! ### Operands beside a load -/

/-- An operand of an instruction beside number `i`. -/
def Beside (insn : Instruction) (i : ℕ) (p : Operand) : Prop :=
  ∃ j, j ≠ i ∧ insn.operands[j]? = some p

/-- The other operand of two. -/
lemma beside_two {i : ℕ} {a b p : Operand} (hops : insn.operands = [a, b]) (hi : i < 2) :
    Beside insn i p ↔ p = if i = 0 then b else a := by
  unfold Beside
  rw [hops]
  constructor
  · rintro ⟨j, hne, hj⟩
    match j, hj with
    | 0, hj => rw [if_neg (Ne.symm hne), Option.some.inj hj]
    | 1, hj => rw [if_pos (by omega), Option.some.inj hj]
  · rintro rfl
    match i, hi with
    | 0, _ => exact ⟨1, Nat.one_ne_zero, rfl⟩
    | 1, _ => exact ⟨0, Nat.zero_ne_one, rfl⟩

/-- The other two operands of three, beside one of the first two. -/
lemma beside_three {i : ℕ} {a b c p : Operand} (hops : insn.operands = [a, b, c]) (hi : i < 2) :
    Beside insn i p ↔ (p = if i = 0 then b else a) ∨ p = c := by
  unfold Beside
  rw [hops]
  constructor
  · rintro ⟨j, hne, hj⟩
    match j, hj with
    | 0, hj => rw [if_neg (Ne.symm hne)]; exact .inl (Option.some.inj hj).symm
    | 1, hj => rw [if_pos (by omega)]; exact .inl (Option.some.inj hj).symm
    | 2, hj => exact .inr (Option.some.inj hj).symm
  · rintro (rfl | rfl)
    · match i, hi with
      | 0, _ => exact ⟨1, Nat.one_ne_zero, rfl⟩
      | 1, _ => exact ⟨0, Nat.zero_ne_one, rfl⟩
    · exact ⟨2, by omega, rfl⟩

/-- Where any operand may be loaded, the others are copied to an instruction after the load. -/
lemma exists_copied_of_loadPlan {i : ℕ} {plan : LoadPlan} {p : Operand}
    (h : loadPlan insn.mnemonic i (Family.of insn) = .ok plan)
    (hanywhere : (Family.of insn).loadsAnywhere = true) (hi : i < insn.operands.length)
    (hp : Beside insn i p) : ∃ operands,
      .afterwards (.spaced insn.mnemonic operands) ∈ plan.frames ∧ .copied p ∈ operands := by
  have hknown := known_of insn
  generalize Family.of insn = family at h hanywhere hknown
  cases loadPlanned_of_loadPlan h with
  | push | move | conditionalMove | transform | combine | combineVector => cases hanywhere
  | compare =>
      cases hknown with
      | compare hops =>
          rw [hops] at hi
          obtain rfl := (beside_two hops hi).mp hp
          exact ⟨_, List.mem_cons_of_mem _ (List.mem_singleton_self _),
            LoadPlan.mem_sources.mpr (.inr rfl)⟩
  | threeArg hplace =>
      cases hknown with
      | threeArg hops =>
          refine ⟨_, List.mem_cons_of_mem _ (List.mem_singleton_self _), List.mem_append.mpr ?_⟩
          rcases (beside_three hops hplace).mp hp with rfl | rfl
          · exact .inl (LoadPlan.mem_sources.mpr (.inr rfl))
          · exact .inr (List.mem_singleton_self _)

/-- Where only the first operand may be loaded, the other is a register. -/
lemma exists_register_of_loadPlan {plan : LoadPlan} {p : Operand}
    (h : loadPlan insn.mnemonic 0 (Family.of insn) = .ok plan)
    (hfirst : (Family.of insn).loadsAnywhere = false) (hp : Beside insn 0 p) :
    ∃ r, p.register? = some r := by
  have hknown := known_of insn
  have htwo {a b : Operand} {r : String} (hops : insn.operands = [a, b])
      (hr : b.register? = some r) : ∃ r, p.register? = some r := by
    obtain rfl := (beside_two hops Nat.two_pos).mp hp
    exact ⟨r, hr⟩
  generalize Family.of insn = family at h hfirst hknown
  cases loadPlanned_of_loadPlan h with
  | compare | threeArg => cases hfirst
  | push =>
      cases hknown with
      | push hops =>
          obtain ⟨_ | j, hne, hj⟩ := hp
          · exact (hne rfl).elim
          · rw [hops] at hj
            cases hj
  | move hr => cases hknown with | move hops => exact htwo hops hr
  | conditionalMove hr => cases hknown with | conditionalMove hops => exact htwo hops hr
  | transform hr => cases hknown with | transform hops => exact htwo hops hr
  | combine hr => cases hknown with | combine hops => exact htwo hops hr
  | combineVector hr => cases hknown with | combineVector hops => exact htwo hops hr

/-! ### Loads from the offset table -/

/-- Whether an instruction loads the address of a symbol outside the module into a register that
has a number and is no vector: nothing can be loaded from where such a register points. -/
def FillsNumbered (scope : Scope) (insn : Instruction) : Prop :=
  ∃ source target m r,
    (Family.of insn = .move source target ∨
      ∃ skip, Family.of insn = .conditionalMove skip source target) ∧
    source.kind = .memory m ∧ m.tag = some "GOTPCREL" ∧
    scope.isExternal (m.symbol.getD "") = true ∧
    target.register? = some r ∧ holdsAddress r = true ∧ '(' ∈ r.toList

lemma FillsNumbered.exists_register (h : FillsNumbered scope insn) :
    ∃ o ∈ insn.operands, ∃ r, o.register? = some r ∧ '(' ∈ r.toList := by
  obtain ⟨source, target, -, r, hfamily, -, -, -, hregister, -, hparen⟩ := h
  exact ⟨target, by simp [(operands_of_moves hfamily).1], r, hregister, hparen⟩

/-- What surrounds the computation of an address is read, and the register that it goes to is
spelled as one. -/
structure LoadPlan.IsRead (plan : LoadPlan) : Prop where
  frames : ∀ f ∈ plan.frames, f.Readable
  target : isRegister plan.target.toList = true

lemma isRegister_of_scratch {inUse : List String} {temp : String}
    (h : Frame.scratch inUse = .ok temp) : isRegister temp.toList = true ∧ '(' ∉ temp.toList := by
  have hall : ∀ r ∈ Frame.scratchRegisters, isRegister r.toList = true ∧ '(' ∉ r.toList := by
    decide
  unfold Frame.scratch at h
  split at h
  · next r hfind =>
      cases h
      exact hall temp (List.mem_of_find?_eq_some hfind)
  · cases h

lemma Frame.readable_line {mnemonic : String} {operands : List Line.Operand}
    (hm : IsPlain mnemonic) (hops : ∀ o ∈ operands, IsOperand o.text.toList) :
    (Frame.afterwards (.spaced mnemonic operands)).Readable :=
  readable_afterwards (readable_spaced hm hops)

/-- A plan for an instruction that is read, and where its address may go to a register that has a
number. -/
lemma isRead_of_loadPlan {i : ℕ} {plan : LoadPlan} (hinsn : IsInstruction insn)
    (h : loadPlan insn.mnemonic i (Family.of insn) = .ok plan) :
    plan.IsRead ∧ (holdsAddress plan.target = true → '(' ∈ plan.target.toList →
      ∃ source target, (Family.of insn = .move source target ∨
        ∃ skip, Family.of insn = .conditionalMove skip source target) ∧
          target.register? = some plan.target) := by
  have hcopied {o : Operand} (ho : o ∈ insn.operands) :
      IsOperand (Line.Operand.copied o).text.toList :=
    (hinsn.operands o ho).1
  have hregister {o : Operand} {r : String} (ho : o ∈ insn.operands) (hr : o.register? = some r) :
      isRegister r.toList = true :=
    (hinsn.operands o ho).isRegister hr
  -- a register that is saved for the load has no number, and so no parenthesis in its name
  have hscratch {inUse : List String} {temp : String} {rest : Frame}
      (htemp : Frame.scratch inUse = .ok temp)
      (hrest : isRegister temp.toList = true → rest.Readable) :
      (LoadPlan.scratch temp rest).IsRead ∧ '(' ∉ temp.toList := by
    obtain ⟨htemp, hparen⟩ := isRegister_of_scratch htemp
    exact ⟨⟨LoadPlan.forall_scratch (Frame.readable_saveRegister htemp) (hrest htemp), htemp⟩,
      hparen⟩
  have hsources {temp : String} {a b : Operand} {rest : List Operand}
      (hops : insn.operands = a :: b :: rest) (htemp : isRegister temp.toList = true) :
      ∀ o ∈ LoadPlan.sources i temp (if i = 0 then b else a), IsOperand o.text.toList := by
    intro o ho
    rcases LoadPlan.mem_sources.mp ho with rfl | rfl
    · exact isOperand_builtRegister htemp
    · exact hcopied (by split <;> simp [hops])
  have hknown := known_of insn
  have hplanned := loadPlanned_of_loadPlan h
  revert hknown hplanned
  generalize Family.of insn = family
  intro hknown hplanned
  -- by the plan; its family tells which operands the instruction has
  cases hplanned with
  | push =>
      have hread : ∀ f ∈ [Frame.pushResult], f.Readable :=
        List.forall_mem_singleton.mpr Frame.readable_pushResult
      exact ⟨⟨hread, by decide⟩, fun _ hparen => absurd hparen (by decide)⟩
  | move hr =>
      cases hknown with
      | move hops _ =>
          exact ⟨⟨List.forall_mem_nil _, hregister (by simp [hops]) hr⟩,
            fun _ _ => ⟨_, _, .inl rfl, hr⟩⟩
  | conditionalMove hr =>
      cases hknown with
      | conditionalMove hops _ hskip =>
          exact ⟨⟨List.forall_mem_singleton.mpr (Frame.readable_skipIf hskip),
            hregister (by simp [hops]) hr⟩, fun _ _ => ⟨_, _, .inr ⟨_, rfl⟩, hr⟩⟩
  | compare htemp =>
      cases hknown with
      | compare hops hplain =>
          obtain ⟨hread, hparen⟩ := hscratch htemp fun htemp =>
            Frame.readable_line hplain (hsources hops htemp)
          exact ⟨hread, fun _ hmem => (hparen hmem).elim⟩
  | transform hr hvector =>
      cases hknown with
      | transform hops hplain =>
          have hr := hregister (by simp [hops]) hr
          refine ⟨⟨List.forall_mem_singleton.mpr (Frame.readable_line hplain ?_), hr⟩,
            fun hholds => by simp [hvector] at hholds⟩
          simpa using isOperand_builtRegister hr
  | combine hr _ htemp =>
      cases hknown with
      | combine hops hplain =>
          have hr := hregister (by simp [hops]) hr
          obtain ⟨hread, hparen⟩ := hscratch htemp fun htemp =>
            Frame.readable_line hplain <| List.forall_mem_cons.mpr
              ⟨isOperand_builtRegister htemp,
                List.forall_mem_singleton.mpr (isOperand_builtRegister hr)⟩
          exact ⟨hread, fun _ hmem => (hparen hmem).elim⟩
  | combineVector hr _ htemp =>
      cases hknown with
      | combineVector hops hplain =>
          obtain ⟨hread, hparen⟩ := hscratch htemp fun htemp =>
            Frame.readable_combineVector hplain (hregister (by simp [hops]) hr) htemp
          exact ⟨hread, fun _ hmem => (hparen hmem).elim⟩
  | @threeArg a b c temp _ htemp =>
      cases hknown with
      | threeArg hops hplain =>
          have hc : c ∈ insn.operands := by simp [hops]
          obtain ⟨hread, hparen⟩ := hscratch htemp fun htemp => Frame.readable_line hplain <|
            List.forall_mem_append.mpr ⟨hsources hops htemp,
              List.forall_mem_singleton.mpr (hcopied hc)⟩
          exact ⟨hread, fun _ hmem => (hparen hmem).elim⟩

/-- A plan whose address goes to a register that can hold one. -/
lemma isRead_of_viaGeneral {mnemonic : String} {first plan : LoadPlan} (hfirst : first.IsRead)
    (h : viaGeneral mnemonic first = .ok plan) :
    plan.IsRead ∧ (plan = first ∧ holdsAddress first.target = true ∨ '(' ∉ plan.target.toList) := by
  have hframes := forall_frames_of_viaGeneral h hfirst.frames fun avx temp htemp =>
    have hregister := (isRegister_of_scratch htemp).1
    ⟨Frame.readable_saveRegister hregister, Frame.readable_moveTo hfirst.target hregister⟩
  rcases viaGeneral_eq_ok h with ⟨hholds, rfl⟩ | ⟨temp, htemp, rfl⟩
  · exact ⟨hfirst, .inl ⟨rfl, hholds⟩⟩
  · obtain ⟨hregister, hparen⟩ := isRegister_of_scratch htemp
    exact ⟨⟨hframes, hregister⟩, .inr hparen⟩

/-- The frames of a load from the table. -/
lemma readable_of_gotLoad {i : ℕ} {o : Operand} {m : MemoryRef} {frames : List Frame}
    {helpers : List Helper} (hinsn : IsInstruction insn) (hfills : ¬ FillsNumbered scope insn)
    (h : gotLoad scope insn i m = .ok (frames, helpers)) (ho : insn.operands[i]? = some o)
    (hkind : o.kind = .memory m) (htag : m.tag = some "GOTPCREL")
    (hname : IsName (m.symbol.getD "")) : ∀ f ∈ frames, f.Readable := by
  obtain ⟨-, -, hplace, first, plan, hfirst, hplan, rfl, -⟩ := gotLoad_eq_ok h
  obtain ⟨hread, hnumbered⟩ := isRead_of_loadPlan hinsn hfirst
  obtain ⟨hread', hsame⟩ := isRead_of_viaGeneral hread hplan
  intro f hf
  rcases List.mem_append.mp hf with hf | hf
  · exact hread'.frames f hf
  · rw [List.mem_singleton.mp hf]
    unfold addressOf
    cases hinside : scope.inside? (m.symbol.getD "") with
    | some name =>
        exact Frame.readable_loadAddress (Scope.isName_of_inside? hname hinside) hread'.target
    | none =>
        refine Frame.readable_loadFromGot hname hread'.target fun hparen => ?_
        obtain ⟨rfl, hholds⟩ := hsame.resolve_right fun hnot => hnot hparen
        obtain ⟨source, target, hfamily, hregister⟩ := hnumbered hholds hparen
        refine hfills ⟨source, target, m, _, hfamily, ?_, htag,
          Scope.inside?_eq_none_iff.mp hinside, hregister, hholds, hparen⟩
        -- the source is the first operand, and no other one may load
        obtain ⟨hops, hloads⟩ := operands_of_moves hfamily
        obtain rfl : i = 0 := by simpa [hloads] using hplace
        rw [hops] at ho
        cases ho
        exact hkind

/-! ### Operands -/

/-- A reference without its relocation tag. -/
lemma Spelled.withoutTag {m : MemoryRef} (h : Spelled m) :
    Spelled { m with tag := none, tagOffset := "" } where
  lead := h.lead
  symbol := h.symbol
  offset := h.offset
  signed := h.signed
  tag := nofun
  tagOffset := Offset.isOffset_nil
  tagSigned := nofun
  untagged _ := rfl
  segment := h.segment
  base := h.base
  given := h.given

lemma IsRead.spelled {o : Operand} {m : MemoryRef} (h : IsRead o) (hkind : o.kind = .memory m) :
    Spelled m :=
  (spelled_of_operand h.2 h.1.whole h.1.trimmed hkind).1

/-- The symbol that a relocation tag belongs to. -/
lemma Spelled.isName_of_tag {m : MemoryRef} (h : Spelled m) {tag : String}
    (htag : m.tag = some tag) : IsName (m.symbol.getD "") := by
  obtain ⟨symbol, hsymbol⟩ := Option.isSome_iff_exists.mp (h.tag tag htag).1
  rw [hsymbol]
  exact h.symbol symbol hsymbol

variable {i : ℕ} {o : Operand} {change : OperandChange}

/-- What becomes of an operand is read. -/
lemma OperandSealed.isOperand (h : OperandSealed scope insn i o change) (ho : IsRead o) :
    IsOperand change.operand.text.toList := by
  have hmemory {m m' : MemoryRef} (hkind : o.kind = .memory m) (hm' : Spelled m')
      (hbase : m'.base = m.base) :
      IsOperand (Line.Operand.built (o.withKind (.memory m'))).text.toList :=
    isOperand_withMemory ho.2 ho.1.whole ho.1.trimmed hkind hm' hbase
  cases h with
  | reference hkind htag =>
      exact hmemory hkind ((ho.spelled hkind).withSymbol fun _ => Scope.isName_inside) rfl
  | @linkage m hkind htag hjump =>
      have hsymbol : (m.symbol.map scope.branchTarget).map Prod.fst =
          m.symbol.map fun name => (scope.branchTarget name).1 := by
        rw [Option.map_map]
        rfl
      rw [hsymbol]
      exact hmemory hkind
        ((ho.spelled hkind).withSymbol fun _ => Scope.isName_branchTarget).withoutTag rfl
  | branch hkind htag =>
      exact isOperand_symbol (Scope.isName_branchTarget ((ho.spelled hkind).isName_of_tag htag))
  | load => exact ho.1
  | distance => exact isOperand_ripRelative Symbol.isName_gotDelta
  | address => exact isOperand_ripRelative Symbol.isName_gotDelta
  | offset => exact ho.1
  | constant hkind =>
      exact isOperand_withImmediate ho.2 ho.1.whole ho.1.trimmed hkind
        fun _ => Scope.isName_localized
  | other => exact ho.1

/-- The distance from a local label to the offset table names that label. -/
lemma isName_of_kind_gotDistance {l : List Char} {anchor : String}
    (h : kind l = .ok (.gotDistance anchor)) : IsName anchor := by
  unfold kind at h
  split at h
  · cases h
  · next value =>
      obtain hvalue : immediate value = .gotDistance anchor := by simpa using h
      unfold immediate at hvalue
      split at hvalue
      · split at hvalue
        · next hname =>
            cases hvalue
            rw [Bool.and_eq_true] at hname
            rw [IsName, String.toList_ofList]
            exact hname.2
        · cases hvalue
      · repeat' split at hvalue
        all_goals cases hvalue
  · repeat' split at h
    all_goals try cases h
    obtain ⟨m, -, hm⟩ := Outcome.map_eq_ok_iff.mp h
    cases hm

lemma isName_of_kind_gotOffset {l : List Char} {symbol : String} {fromTable : Bool}
    (h : kind l = .ok (.gotOffset symbol fromTable)) : IsName symbol := by
  unfold kind at h
  split at h
  · cases h
  · next value =>
      obtain hvalue : immediate value = .gotOffset symbol fromTable := by simpa using h
      unfold immediate at hvalue
      split at hvalue
      · split at hvalue <;> cases hvalue
      · split at hvalue
        · next hname =>
            cases hvalue
            rw [IsName, String.toList_ofList]
            exact (Option.filter_eq_some_iff.mp hname).2
        · split at hvalue
          · next hname =>
              cases hvalue
              rw [IsName, String.toList_ofList]
              exact (Option.filter_eq_some_iff.mp hname).2
          · cases hvalue
  · repeat' split at h
    all_goals try cases h
    obtain ⟨m, -, hm⟩ := Outcome.map_eq_ok_iff.mp h
    cases hm

/-- The distance from a local label to the word that holds the distance to the table. -/
lemma isOperand_distance {anchor : String} (h : IsName anchor) :
    IsOperand (Line.Operand.ofKind (.immediate (some '$')
      ⟨[.symbol Symbol.gotDelta, .other "-", .symbol anchor]⟩)).text.toList := by
  have htext : (Line.Operand.ofKind (.immediate (some '$')
      ⟨[.symbol Symbol.gotDelta, .other "-", .symbol anchor]⟩)).text.toList =
        '$' :: (Symbol.gotDelta.toList ++ ('-' :: anchor.toList)) := by
    rw [Line.Operand.text_ofKind]
    simp [Operand.Kind.display, Expr.display, Term.text]
  obtain ⟨ch, l, hanchor, -, hchars⟩ := exists_cons_of_isSymbolName h
  have hinert : ∀ d ∈ '$' :: (Symbol.gotDelta.toList ++ ('-' :: anchor.toList)), Scan.Inert d := by
    intro d hd
    simp only [List.mem_cons, List.mem_append] at hd
    rcases hd with rfl | hd | rfl | hd
    · decide
    · exact Scan.inert_of_isSymbolChar
        (List.all_eq_true.mp (by decide : Symbol.gotDelta.toList.all isSymbolChar = true) d hd)
    · decide
    · exact Scan.inert_of_isSymbolChar (hchars d hd)
  rw [htext]
  refine isOperand_dollar ?_ (fun d hd => ?_) false
  · have hwhole : Whole .x86_64 false
        ('$' :: (Symbol.gotDelta.toList ++ ('-' :: anchor.toList)) ++ []) :=
      (Scan.whole_inert_append hinert).mpr Whole.nil
    rwa [List.append_nil] at hwhole
  · have hmem : d ∈ anchor.toList := by
      rw [List.getLast?_append_of_ne_nil _ (by simp), hanchor, List.getLast?_cons_cons] at hd
      rw [hanchor]
      exact List.mem_of_getLast? hd
    simpa using not_isBlank_of_isSymbolChar (hchars d hmem)

/-- The frames of an operand. -/
lemma OperandSealed.readable (h : OperandSealed scope insn i o change)
    (hinsn : IsInstruction insn) (hfills : ¬ FillsNumbered scope insn)
    (ho : insn.operands[i]? = some o) : ∀ f ∈ change.frames, f.Readable := by
  have hread : IsRead o := hinsn.operands o (List.mem_of_getElem? ho)
  obtain ⟨body, hbody, -⟩ := exists_of_operand hread.2 hread.1.whole hread.1.trimmed
  -- the target is an operand of the instruction, and is copied
  have htarget {target : Operand} (h : targetOfFirst insn i = some target) :
      IsOperand (Line.Operand.copied target).text.toList := by
    obtain ⟨-, first, hops⟩ := targetOfFirst_eq_some h
    exact (hinsn.operands target (by simp [hops])).1
  have hdelta := isOperand_ripRelative Symbol.isName_gotDelta
  have hnone : ∀ f ∈ ([] : List Frame), f.Readable := List.forall_mem_nil _
  cases h with
  | reference => exact hnone
  | linkage => exact hnone
  | branch => exact hnone
  | constant => exact hnone
  | other => exact hnone
  | load hkind htag hload =>
      exact readable_of_gotLoad hinsn hfills hload ho hkind htag
        ((hread.spelled hkind).isName_of_tag htag)
  | distance hkind _ h =>
      rw [hkind] at hbody
      exact List.forall_mem_singleton.mpr (Frame.readable_afterwards
        (readable_spaced_two (Frame.isPlain (by decide))
          (isOperand_distance (Scope.isName_localized (isName_of_kind_gotDistance hbody)))
          (htarget h)))
  | address _ _ h =>
      exact List.forall_mem_singleton.mpr (Frame.readable_afterwards
        (readable_spaced_two (Frame.isPlain (by decide)) hdelta (htarget h)))
  | offset hkind _ h =>
      rw [hkind] at hbody
      exact List.forall_mem_singleton.mpr (Frame.readable_loadGotOffset
        (Symbol.isName_gotOffsetSlot (Scope.isName_localized (isName_of_kind_gotOffset hbody)) _)
        (htarget h))

/-! ### Words that change a mnemonic -/

/-- Whether a word that changes a mnemonic stands where the mnemonic should, and its first operand
starts like one. -/
def HidesMnemonic (insn : Instruction) : Prop :=
  insn.mnemonic.toLower ∈ Statement.modifierWords ∧
    Statement.StartsWithLetter (insn.operands.map (·.text))

/-- A symbol is referred to by its name, or by one that starts with a point. -/
lemma head?_inside (scope : Scope) (name : String) :
    scope.inside name = name ∨ (scope.inside name).toList.head? = some '.' := by
  unfold Scope.inside Scope.inside?
  split
  · right
    simp [Symbol.localAlias]
  · split
    · next hlocal =>
        right
        obtain ⟨suffix, -, hrenamed⟩ := Symbol.exists_renamed_eq name scope.index
        obtain ⟨r, hr⟩ := List.isPrefixOf_iff_prefix.mp hlocal
        rw [Option.getD_some, hrenamed, ← hr]
        rfl
    · split
      · exact .inl rfl
      · exact .inl rfl

/-- How a reference to another symbol starts. -/
lemma head?_withSymbol {m : MemoryRef} {f : String → String}
    (hf : ∀ name, f name = name ∨ (f name).toList.head? = some '.') :
    ({ m with symbol := m.symbol.map f } : MemoryRef).display.toList.head? = some '.' ∨
      ({ m with symbol := m.symbol.map f } : MemoryRef).display.toList.head? =
        m.display.toList.head? := by
  obtain ⟨segment, lead, symbol, offset, tag, tagOffset, base⟩ := m
  rw [toList_display, toList_display]
  cases symbol with
  | none => exact .inr rfl
  | some name =>
      rcases hf name with hsame | hpoint
      · rw [Option.map_some, hsame]
        exact .inr rfl
      · -- the symbol comes first unless something stands before it
        cases segment <;> cases lead <;>
          simp [segmentText, leadText, symbolText, hpoint]

/-- A reference starts as the operand that it is read from, but for a star. -/
lemma IsRead.head?_display {m : MemoryRef} (h : IsRead o) (hkind : o.kind = .memory m)
    (hdirect : o.indirect = false) : m.display.toList.head? = o.text.toList.head? := by
  obtain ⟨k, hk, ho⟩ := operand_eq_ok_iff.mp h.2
  have hstar : o.text.toList.head? ≠ some '*' := by
    intro hstar
    rw [ho] at hdirect
    simp [hstar] at hdirect
  obtain rfl : k = .memory m := by rw [← hkind, ho]
  rw [direct_of_head hstar] at hk
  obtain ⟨-, -, hhead⟩ := undecorated_spec h.1.trimmed
  obtain ⟨hmemory, hsegment⟩ := memoryRef_of_kind hk
  obtain ⟨hspelled, blanks, -, hbody⟩ := spelled_of_memoryRef hmemory hsegment
  obtain ⟨ch, r, hdisplay, -⟩ := exists_cons_display hspelled
  rw [← hhead, hbody, hdisplay]
  rfl

/-- Where the first operand starts with no letter, what becomes of it does not either. -/
lemma OperandSealed.head?_text (h : OperandSealed scope insn i o change) (ho : IsRead o)
    (hfamily : Family.of insn = .other) (hm : insn.mnemonic ∉ ["movabsq", "leaq"]) {ch : Char}
    (hch : change.operand.text.toList.head? = some ch) (halpha : ch.isAlpha = true) :
    o.text.toList.head? = some ch := by
  -- a star would come first, and is no letter
  have hbuilt {kind : Operand.Kind}
      (hch : (Line.Operand.built (o.withKind kind)).text.toList.head? = some ch) :
      o.indirect = false ∧ (kind.display.toList ++ o.decorators.toList).head? = some ch := by
    have htext := toList_display_withKind o kind
    rw [Line.Operand.text, htext] at hch
    cases hindirect : o.indirect with
    | false => exact ⟨rfl, by simpa [star, hindirect] using hch⟩
    | true =>
        obtain rfl : '*' = ch := by simpa [star, hindirect] using hch
        exact absurd halpha (by decide)
  have hjump : (Family.of insn).isJump = false := by rw [hfamily]; rfl
  cases h with
  | @reference m hkind htag =>
      obtain ⟨hindirect, hhead⟩ := hbuilt hch
      rw [← ho.head?_display hkind hindirect]
      have hisName (name : String) (hname : IsName name) : IsName (scope.inside name) :=
        Scope.isName_inside hname
      obtain ⟨d, r, hdisplay, -⟩ := exists_cons_display ((ho.spelled hkind).withSymbol hisName)
      rw [Operand.Kind.display, hdisplay] at hhead
      have hd : d = ch := by simpa using hhead
      -- the name for the file starts as the name does, or with the point
      rcases head?_withSymbol (m := m) (head?_inside scope) with hpoint | hsame
      · rw [hdisplay, hd] at hpoint
        cases hpoint
        exact absurd halpha (by decide)
      · rw [← hsame, hdisplay, hd]
        rfl
  | linkage _ _ hj => exact absurd (hjump.symm.trans hj) (by decide)
  | branch _ _ hj => exact absurd (hjump.symm.trans hj) (by decide)
  | load => exact hch
  | distance _ hmnemonic => exact (hm (by simp [hmnemonic])).elim
  | address _ hmnemonic => exact (hm (by simp [hmnemonic])).elim
  | offset _ hmnemonic => exact (hm (by simp [hmnemonic])).elim
  | constant hkind =>
      obtain ⟨-, hhead⟩ := hbuilt hch
      obtain ⟨body, hbody, -⟩ := exists_of_operand ho.2 ho.1.whole ho.1.trimmed
      rw [hkind] at hbody
      obtain ⟨v, -, rfl, -⟩ := immediate_of_kind hbody
      obtain rfl : '$' = ch := by simpa [Operand.Kind.display] using hhead
      exact absurd halpha (by decide)
  | other => exact hch

lemma OperandsSealed.startsWithLetter {os : List Operand} {k : ℕ} {changes : List OperandChange}
    (h : OperandsSealed scope insn k os changes) (hos : ∀ o ∈ os, IsRead o)
    (hmem : insn.mnemonic.toLower ∈ Statement.modifierWords)
    (hstarts : Statement.StartsWithLetter ((changes.map (·.operand)).map Line.Operand.text)) :
    Statement.StartsWithLetter (os.map (·.text)) := by
  have hother : insn.mnemonic ∉ ["movabsq", "leaq"] := by
    intro hmnemonic
    rcases List.mem_pair.mp hmnemonic with hm | hm
    all_goals
      rw [hm] at hmem
      exact absurd hmem (by decide +kernel)
  obtain ⟨t, ht, ch, hch, halpha⟩ := hstarts
  have hhead {o : Operand} {change : OperandChange} (ho : IsRead o)
      (hsealed : OperandSealed scope insn k o change) (hc : change.operand.text = t) :
      ∃ t, some o.text = some t ∧ ∃ ch, t.toList.head? = some ch ∧ ch.isAlpha = true := by
    subst hc
    exact ⟨_, rfl, ch, hsealed.head?_text ho (family_eq_other hmem) hother hch halpha, halpha⟩
  cases h with
  | nil => cases ht
  | last hsealed _ => exact hhead (hos _ List.mem_cons_self) hsealed (Option.some.inj ht)
  | cons hsealed _ _ => exact hhead (hos _ List.mem_cons_self) hsealed (Option.some.inj ht)

/-- An instruction that is written has the mnemonic of the one in its place, or is a move in the
place of one of a constant. -/
lemma OperandsSealed.mnemonic {os : List Operand} {k : ℕ} {changes : List OperandChange}
    (h : OperandsSealed scope insn k os changes) :
    (changes.filterMap (·.mnemonic)).getLast?.getD insn.mnemonic = insn.mnemonic ∨
      insn.mnemonic = "movabsq" ∧
        (changes.filterMap (·.mnemonic)).getLast?.getD insn.mnemonic = "movq" := by
  cases hlast : (changes.filterMap (·.mnemonic)).getLast? with
  | none => exact .inl rfl
  | some m =>
      obtain ⟨change, hc, hm⟩ := List.mem_filterMap.mp (List.mem_of_getLast? hlast)
      obtain ⟨j, o, -, hsealed, -⟩ := h.exists_getElem? hc
      cases hsealed with
      | distance _ hmnemonic =>
          cases hm
          exact .inr ⟨hmnemonic, rfl⟩
      | _ => cases hm

/-! ### Instructions -/

/-- The lines in the place of an instruction are read, unless that loads into a register with a
number or hides its mnemonic. -/
lemma readable_changedLines {changes : List OperandChange} (hinsn : IsInstruction insn)
    (hsealed : OperandsSealed scope insn 0 insn.operands changes)
    (hfills : ¬ FillsNumbered scope insn) (hhides : ¬ HidesMnemonic insn) :
    ∀ line ∈ changedLines insn changes, line.Readable := by
  -- operands and frames are readable one by one
  have hchange {change : OperandChange} (hc : change ∈ changes) :
      IsOperand change.operand.text.toList ∧ ∀ f ∈ change.frames, f.Readable := by
    obtain ⟨j, o, ho, hoperand, -⟩ := hsealed.exists_getElem? hc
    rw [Nat.zero_add] at hoperand
    exact ⟨hoperand.isOperand (hinsn.operands o (List.mem_of_getElem? ho)),
      hoperand.readable hinsn hfills ho⟩
  have hmnemonic : IsMnemonic insn.modifiers
      ((changes.filterMap (·.mnemonic)).getLast?.getD insn.mnemonic) := by
    rcases hsealed.mnemonic with hsame | ⟨-, hmove⟩
    · rw [hsame]
      exact hinsn.named
    · rw [hmove]
      exact ⟨hinsn.named.modifiers, (Frame.isPlain (by decide)).1⟩
  -- an instruction that may be taken for a modifier is followed by no letter
  have hfirst : ((changes.filterMap (·.mnemonic)).getLast?.getD insn.mnemonic).toLower ∈
      Statement.modifierWords →
        ¬ Statement.StartsWithLetter ((changes.map (·.operand)).map Line.Operand.text) := by
    intro hmem hstarts
    rcases hsealed.mnemonic with hsame | ⟨-, hmove⟩
    · rw [hsame] at hmem
      exact hhides ⟨hmem, hsealed.startsWithLetter hinsn.operands hmem hstarts⟩
    · rw [hmove] at hmem
      exact absurd hmem (by decide +kernel)
  intro line hline
  rcases mem_wrap hline with ⟨hbody, -⟩ | ⟨f, hf, hline⟩
  · rw [List.mem_singleton.mp hbody]
    refine readable_line hmnemonic (.inr rfl) (fun o ho => ?_) hfirst
    obtain ⟨change, hc, rfl⟩ := List.mem_map.mp ho
    exact (hchange hc).1
  · obtain ⟨change, hc, hf⟩ := List.mem_flatMap.mp hf
    exact (hchange hc).2 f hf line hline

/-- What is written for an instruction is read, unless that loads into a register with a number
or hides its mnemonic. -/
lemma exists_writes_sealInstruction {s : Statement} {e : Emission}
    (hshape : Statement.Shape .x86_64 s.text.toList (.instruction insn))
    (he : sealInstruction scope s insn = .ok e) (hfills : ¬ FillsNumbered scope insn)
    (hhides : HidesMnemonic insn → e = .copy s) : ∃ kinds, Writes .x86_64 e.chunks kinds := by
  obtain ⟨changes, hsealed, ⟨-, rfl⟩ | ⟨-, rfl⟩⟩ := sealInstruction_eq_ok he
  · exact ⟨_, .copied hshape⟩
  · have hlines := readable_changedLines (isInstruction_of_shape hshape) hsealed hfills
      fun h => nomatch hhides h
    obtain ⟨kinds, hkinds⟩ := exists_writes_lines fun line hline =>
      (hlines line hline).imp fun _ => And.left
    exact ⟨kinds, .quoted hkinds⟩

end X86

end Hermetic

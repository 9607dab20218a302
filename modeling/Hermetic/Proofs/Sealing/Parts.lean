/-
What an instruction of x86-64 says beside its mnemonic and the kinds of its operands.

The words before a mnemonic, the segments, stars and decorations of operands are parts of an
instruction.  Some of them are not written again where an instruction refers to the offset table.

* `Part`, `Bears`: the parts of an instruction, and those that it has;
* `Reappears`: a part stands in lines, on the operand that it belongs to;
* `loadPlace?`, `Survives`: the operand that loads from the offset table, and the parts that do
  not depend on it;
* `OperandSealed.shows`, `OperandSealed.beside`: what becomes of the details of an operand, and
  which operands are written around it;
* `sealInstruction_reappears_iff`: the parts that are written again;
* `exists_part_lost`: the mask of a vector is not.
-/
import Hermetic.Proofs.Sealing.Numeric
import Hermetic.Proofs.Sealing.Resolved

namespace Hermetic

/-- The words before the mnemonic of a line. -/
def Line.modifiers : Line → List String
  | instruction modifiers _ _ _ => modifiers
  | _ => []

namespace X86

variable {scope : Scope} {insn : Instruction} {i : ℕ} {o p : Operand} {change : OperandChange}

/-! ### Parts -/

/-- What an operand may have beside its kind: a segment, the star of an indirect target, and
decorations in braces. -/
inductive Detail
  | segment (name : String)
  | star
  | decorators (text : String)
deriving DecidableEq

/-- Whether an operand has a detail. -/
def shows (o : Operand) : Detail → Bool
  | .segment name => o.memory?.any (·.segment == some name)
  | .star => o.indirect
  | .decorators text => text != "" && o.decorators == text

/-- A part of an instruction: a word before the mnemonic, or a detail of an operand. -/
inductive Part
  | word (word : String)
  | detail (operand : Operand) (detail : Detail)
deriving DecidableEq

/-- Whether an operand refers to the offset table or to an entry there. -/
def refersToTable (o : Operand) : Bool :=
  isLoad o ||
    match o.kind with
    | .gotAddress | .gotDistance _ | .gotOffset _ _ => true
    | _ => false

/-- The parts of an instruction.  The star of a reference to the table belongs to its kind. -/
def Bears (insn : Instruction) : Part → Prop
  | .word w => w ∈ insn.modifiers
  | .detail o d => o ∈ insn.operands ∧ shows o d = true ∧ (d = .star → refersToTable o = false)

/-- A part stands in some lines: a word before a mnemonic, a detail on the same operand, perhaps
with another kind. -/
def Reappears (lines : List Line) : Part → Prop
  | .word w => ∃ line ∈ lines, w ∈ line.modifiers
  | .detail o d => ∃ line ∈ lines, ∃ p ∈ line.operands,
      p = o.withKind p.kind ∧ shows p d = true

instance (insn : Instruction) (part : Part) : Decidable (Bears insn part) :=
  match part with
  | .word w => inferInstanceAs (Decidable (w ∈ insn.modifiers))
  | .detail o d => inferInstanceAs
      (Decidable (o ∈ insn.operands ∧ shows o d = true ∧ (d = .star → refersToTable o = false)))

instance (lines : List Line) (part : Part) : Decidable (Reappears lines part) :=
  match part with
  | .word w => inferInstanceAs (Decidable (∃ line ∈ lines, w ∈ line.modifiers))
  | .detail o d => inferInstanceAs (Decidable
      (∃ line ∈ lines, ∃ p ∈ line.operands, p = o.withKind p.kind ∧ shows p d = true))

/-- The number of the operand by which an instruction loads from the offset table. -/
def loadPlace? (insn : Instruction) : Option ℕ :=
  if (Family.of insn).isJump then none else insn.operands.findIdx? isLoad

/-- Whether an operand is an offset in the table. -/
def isTableOffset (o : Operand) : Bool :=
  match o.kind with
  | .gotOffset _ _ => true
  | _ => false

/-- The parts that do not get lost: the words of an instruction that is written again, and the
details of its operands that do not refer to the table.  If an address is loaded in the place of
an operand, they are those of the other operands, where both orders of operands are possible. -/
def Survives (insn : Instruction) : Part → Prop
  | .word _ => loadPlace? insn = none ∧ ∀ o ∈ insn.operands, isTableOffset o = false
  | .detail o _ => ∃ j, insn.operands[j]? = some o ∧
      match loadPlace? insn with
      | none => refersToTable o = false
      | some i => (Family.of insn).loadsAnywhere = true ∧ j ≠ i

/-! ### Details of operands that are written -/

/-- Whether an operand has no details. -/
def isBare (o : Operand) : Bool :=
  !o.indirect && o.decorators == "" && (o.memory?.bind (·.segment)).isNone

lemma not_shows_of_isBare (h : isBare o = true) (d : Detail) : shows o d = false := by
  simp only [isBare, Bool.and_eq_true, Bool.not_eq_true', beq_iff_eq, Option.isNone_iff_eq_none]
    at h
  obtain ⟨⟨hstar, hdecorators⟩, hsegment⟩ := h
  cases d with
  | star => exact hstar
  | decorators text =>
      cases htext : text == "" with
      | true => simp [shows, eq_of_beq htext]
      | false =>
          rw [shows, hdecorators, Bool.beq_comm, htext, Bool.and_false]
  | segment name =>
      unfold shows
      cases hm : o.memory? with
      | none => rfl
      | some m =>
          rw [hm, Option.bind_some] at hsegment
          simp [hsegment]

/-- An operand keeps its details with a kind that has the same segment. -/
lemma shows_withKind {kind : Operand.Kind} {d : Detail}
    (hsegment : ∀ m, o.kind = .memory m → ∃ m', kind = .memory m' ∧ m'.segment = m.segment)
    (h : shows o d = true) : shows (o.withKind kind) d = true := by
  cases d with
  | star => exact h
  | decorators text => exact h
  | segment name =>
      cases hkind : o.kind with
      | memory m =>
          obtain ⟨m', rfl, hm'⟩ := hsegment m hkind
          simpa [shows, Operand.memory?, Operand.withKind, hkind, hm'] using h
      | _ => simp [shows, Operand.memory?, hkind] at h

/-- An operand that does not refer to the table is written with its details. -/
lemma OperandSealed.shows (h : OperandSealed scope insn i o change)
    (htable : refersToTable o = false) :
    change.operand.operand = o.withKind change.operand.operand.kind ∧
      ∀ d, shows o d = true → shows change.operand.operand d = true := by
  rw [refersToTable, Bool.or_eq_false_iff] at htable
  obtain ⟨hload, hkinds⟩ := htable
  cases h with
  | reference hkind =>
      refine ⟨rfl, fun d hd => shows_withKind (fun m hm => ?_) hd⟩
      rw [hkind] at hm
      cases hm
      exact ⟨_, rfl, rfl⟩
  | linkage hkind =>
      refine ⟨rfl, fun d hd => shows_withKind (fun m hm => ?_) hd⟩
      rw [hkind] at hm
      cases hm
      exact ⟨_, rfl, rfl⟩
  | constant hkind =>
      refine ⟨rfl, fun d hd => shows_withKind (fun m hm => ?_) hd⟩
      rw [hkind] at hm
      cases hm
  | branch hkind hgot => simp [isLoad, hkind, hgot] at hload
  | load hkind hgot => simp [isLoad, hkind, hgot] at hload
  | distance hkind => simp [hkind] at hkinds
  | address hkind => simp [hkind] at hkinds
  | offset hkind => simp [hkind] at hkinds
  | other => exact ⟨rfl, fun d hd => hd⟩

lemma refersToTable_of_other (hmemory : ∀ m, o.kind ≠ .memory m) (haddress : o.kind ≠ .gotAddress)
    (hdistance : ∀ anchor, o.kind ≠ .gotDistance anchor)
    (hoffset : ∀ symbol fromTable, o.kind ≠ .gotOffset symbol fromTable) :
    refersToTable o = false := by
  unfold refersToTable isLoad
  cases hkind : o.kind with
  | memory m => exact (hmemory m hkind).elim
  | gotAddress => exact (haddress hkind).elim
  | gotDistance anchor => exact (hdistance anchor hkind).elim
  | gotOffset symbol fromTable => exact (hoffset symbol fromTable hkind).elim
  | _ => rfl

lemma exists_instead_of_addressOf (symbol register : String) (cleared : Bool) :
    ∃ lines, (addressOf scope symbol register cleared).1 = .instead lines := by
  unfold addressOf
  split <;> exact ⟨_, rfl⟩

/-- The computation of an address takes the place of the instruction. -/
lemma exists_instead_of_gotLoad {m : MemoryRef} {frames : List Frame} {helpers : List Helper}
    (h : gotLoad scope insn i m = .ok (frames, helpers)) : ∃ lines, .instead lines ∈ frames := by
  obtain ⟨-, -, -, first, plan, -, -, rfl, -⟩ := gotLoad_eq_ok h
  obtain ⟨lines, hlines⟩ :=
    exists_instead_of_addressOf (m.symbol.getD "") plan.target plan.redZoneCleared
  exact ⟨lines, List.mem_append_right _ (List.mem_singleton.mpr hlines.symm)⟩

/-- What is written for an operand that refers to the table has no details, if the instruction is
written again. -/
lemma OperandSealed.not_shows (h : OperandSealed scope insn i o change)
    (htable : refersToTable o = true) (hframes : ∀ lines, .instead lines ∉ change.frames)
    (d : Detail) : X86.shows change.operand.operand d = false := by
  cases h with
  | reference hkind hnone => simp [refersToTable, isLoad, hkind, hnone] at htable
  | linkage hkind hplt => simp [refersToTable, isLoad, hkind, hplt] at htable
  | branch => exact not_shows_of_isBare rfl d
  | load _ _ hload =>
      obtain ⟨lines, hlines⟩ := exists_instead_of_gotLoad hload
      exact (hframes lines hlines).elim
  | distance => exact not_shows_of_isBare rfl d
  | address => exact not_shows_of_isBare rfl d
  | offset => exact (hframes _ (List.mem_singleton_self _)).elim
  | constant hkind => simp [refersToTable, isLoad, hkind] at htable
  | other hmemory haddress hdistance hoffset =>
      rw [refersToTable_of_other hmemory haddress hdistance hoffset] at htable
      cases htable

/-! ### Operands that are written around another -/

/-- The lines of a frame have no words before their mnemonics, and operands without details, or
ones that are kept. -/
def Frame.Around (kept : Operand → Prop) (f : Frame) : Prop :=
  ∀ line ∈ f.lines, line.modifiers = [] ∧ ∀ p ∈ line.operands, isBare p = true ∨ kept p

/-- An operand beside number `i` that is kept if an address is loaded in the place of that
operand. -/
def KeptBeside (insn : Instruction) (i : ℕ) (p : Operand) : Prop :=
  (Family.of insn).loadsAnywhere = true ∧ Beside insn i p

section Frames

variable {kept : Operand → Prop}

lemma Frame.Around.of_bare {f : Frame} (hwords : f.lines.all (·.modifiers.isEmpty) = true)
    (h : f.operands.all isBare = true) : f.Around kept := by
  intro line hline
  refine ⟨List.isEmpty_iff.mp (List.all_eq_true.mp hwords line hline), fun p hp => .inl ?_⟩
  exact List.all_eq_true.mp h p (List.mem_flatMap.mpr ⟨line, hline, hp⟩)

/-- A line after an instruction with operands without details or ones that are kept. -/
lemma Frame.around_afterwards {mnemonic : String} {operands : List Line.Operand}
    (h : ∀ p ∈ operands, isBare p.operand = true ∨ kept p.operand) :
    (Frame.afterwards (.spaced mnemonic operands)).Around kept := by
  refine List.forall_mem_singleton.mpr ⟨rfl, fun p hp => ?_⟩
  obtain ⟨q, hq, rfl⟩ := List.mem_map.mp hp
  exact h q hq

end Frames

/-- What surrounds a load in the place of operand `i` has details only where it keeps another
operand. -/
lemma around_of_loadPlan {plan : LoadPlan} (hi : i < insn.operands.length)
    (h : loadPlan insn.mnemonic i (Family.of insn) = .ok plan) :
    ∀ f ∈ plan.frames, f.Around (KeptBeside insn i) := by
  have hknown := known_of insn
  -- what the load itself adds has registers only
  have hone {f : Frame} (hwords : f.lines.all (·.modifiers.isEmpty) = true)
      (hf : f.operands.all isBare = true) : ∀ g ∈ [f], g.Around (KeptBeside insn i) :=
    List.forall_mem_singleton.mpr (.of_bare hwords hf)
  have hscratch (temp : String) {rest : Frame} (hrest : rest.Around (KeptBeside insn i)) :
      ∀ g ∈ (LoadPlan.scratch temp rest).frames, g.Around (KeptBeside insn i) :=
    LoadPlan.forall_scratch (.of_bare rfl rfl) hrest
  -- the operand beside the load is kept, and the load is a register by then
  have hsources {temp : String} {q : Operand} (hq : KeptBeside insn i q) :
      ∀ r ∈ LoadPlan.sources i temp q, isBare r.operand = true ∨ KeptBeside insn i r.operand := by
    intro r hr
    rcases LoadPlan.mem_sources.mp hr with rfl | rfl
    · exact .inl rfl
    · exact .inr hq
  generalize hfamily : Family.of insn = family at h hknown
  cases loadPlanned_of_loadPlan h with
  | push | conditionalMove | transform => exact hone rfl rfl
  | move => exact List.forall_mem_nil _
  | combine | combineVector => exact hscratch _ (.of_bare rfl rfl)
  | compare =>
      cases hknown with
      | compare hops =>
          rw [hops] at hi
          exact hscratch _ (Frame.around_afterwards
            (hsources ⟨by rw [hfamily]; rfl, (beside_two hops hi).mpr rfl⟩))
  | threeArg hplace =>
      cases hknown with
      | threeArg hops =>
          have hkept {q : Operand} (hq : Beside insn i q) : KeptBeside insn i q :=
            ⟨by rw [hfamily]; rfl, hq⟩
          refine hscratch _ (Frame.around_afterwards (List.forall_mem_append.mpr
            ⟨hsources (hkept ((beside_three hops hplace).mpr (.inl rfl))), ?_⟩))
          exact List.forall_mem_singleton.mpr
            (.inr (hkept ((beside_three hops hplace).mpr (.inr rfl))))

lemma around_of_viaGeneral {mnemonic : String} {kept : Operand → Prop} {first plan : LoadPlan}
    (hfirst : ∀ f ∈ first.frames, f.Around kept) (h : viaGeneral mnemonic first = .ok plan) :
    ∀ f ∈ plan.frames, f.Around kept :=
  forall_frames_of_viaGeneral h hfirst fun _ _ _ => ⟨.of_bare rfl rfl, .of_bare rfl rfl⟩

lemma around_addressOf {symbol register : String} {cleared : Bool} {kept : Operand → Prop} :
    (addressOf scope symbol register cleared).1.Around kept := by
  unfold addressOf
  split
  · exact .of_bare rfl rfl
  · cases cleared <;> exact .of_bare rfl rfl

/-- The lines of a load in the place of operand `i` have no words before their mnemonics, and have
details only where they keep another operand. -/
lemma around_of_gotLoad {m : MemoryRef} {frames : List Frame} {helpers : List Helper}
    (hi : i < insn.operands.length) (h : gotLoad scope insn i m = .ok (frames, helpers)) :
    ∀ f ∈ frames, f.Around (KeptBeside insn i) := by
  obtain ⟨-, -, -, first, plan, hfirst, hplan, rfl, -⟩ := gotLoad_eq_ok h
  exact List.forall_mem_append.mpr ⟨around_of_viaGeneral (around_of_loadPlan hi hfirst) hplan,
    List.forall_mem_singleton.mpr around_addressOf⟩

/-- An operand that is kept beside a load is written. -/
lemma exists_line_of_keptBeside {m : MemoryRef} {frames : List Frame} {helpers : List Helper}
    (hi : i < insn.operands.length) (h : gotLoad scope insn i m = .ok (frames, helpers))
    (hp : KeptBeside insn i p) (body : List Line) :
    ∃ line ∈ Frame.wrap frames body, p ∈ line.operands := by
  obtain ⟨-, -, -, first, plan, hfirst, hplan, rfl, -⟩ := gotLoad_eq_ok h
  obtain ⟨operands, hf, hcopied⟩ := exists_copied_of_loadPlan hfirst hp.1 hi hp.2
  exact ⟨_, mem_wrap_of_mem
    (fun g hg => (viaGeneral_frames (loadPlan_frames hfirst) hplan g hg).around)
    ((prefix_of_viaGeneral hplan).subset hf) (List.mem_singleton_self _),
    List.mem_map_of_mem hcopied⟩

/-- The lines around an operand that loads nothing have details only where they keep another
operand. -/
lemma OperandSealed.around (h : OperandSealed scope insn i o change)
    (hlast : change.last = false) : ∀ f ∈ change.frames, f.Around (Beside insn 0) := by
  have htarget {target : Operand} (h : targetOfFirst insn i = some target) :
      Beside insn 0 target := by
    obtain ⟨-, first, hops⟩ := targetOfFirst_eq_some h
    exact ⟨1, Nat.one_ne_zero, by rw [hops]; rfl⟩
  cases h with
  | load => cases hlast
  | distance _ _ ht | address _ _ ht =>
      refine List.forall_mem_singleton.mpr (Frame.around_afterwards fun q hq => ?_)
      rcases List.mem_pair.mp hq with rfl | rfl
      · exact .inl rfl
      · exact .inr (htarget ht)
  | offset _ _ ht =>
      refine List.forall_mem_singleton.mpr (List.forall_mem_singleton.mpr ⟨rfl, fun q hq => ?_⟩)
      rcases List.mem_pair.mp hq with rfl | rfl
      · exact .inl rfl
      · exact .inr (htarget ht)
  | _ => exact List.forall_mem_nil _

/-! ### Which operand loads -/

/-- The operands that are sealed end with the one that loads, if there is one. -/
lemma OperandsSealed.findIdx? {k : ℕ} {os : List Operand} {changes : List OperandChange}
    (h : OperandsSealed scope insn k os changes) (hjump : (Family.of insn).isJump = false) :
    os.findIdx? isLoad = none ∧ (∀ change ∈ changes, change.last = false) ∨
      ∃ j load change, os.findIdx? isLoad = some j ∧ os[j]? = some load ∧ change ∈ changes ∧
        change.last = true ∧ OperandSealed scope insn (k + j) load change := by
  induction h with
  | nil => exact .inl ⟨rfl, List.forall_mem_nil _⟩
  | @last k o os change hsealed hlast =>
      refine .inr ⟨0, o, change, ?_, rfl, List.mem_cons_self, hlast, hsealed⟩
      rw [hsealed.last_eq, Bool.and_eq_true] at hlast
      rw [List.findIdx?_cons, if_pos hlast.1]
  | @cons k o os change changes hsealed hlast _ ih =>
      have hload : isLoad o = false := by
        rw [hsealed.last_eq, hjump, Bool.not_false, Bool.and_true] at hlast
        exact hlast
      rw [List.findIdx?_cons, if_neg (Bool.eq_false_iff.mp hload)]
      rcases ih with ⟨hnone, hall⟩ | ⟨j, load, last, hj, hget, hmem, hl, hsealed'⟩
      · rw [hnone]
        exact .inl ⟨rfl, List.forall_mem_cons.mpr ⟨hlast, hall⟩⟩
      · refine .inr ⟨j + 1, load, last, by rw [hj]; rfl, hget, List.mem_cons_of_mem _ hmem, hl, ?_⟩
        rwa [Nat.add_right_comm, Nat.add_assoc] at hsealed'

/-- The operands of an instruction: none of them loads, or the last that plays a role does. -/
lemma OperandsSealed.loadPlace? {changes : List OperandChange}
    (h : OperandsSealed scope insn 0 insn.operands changes) :
    X86.loadPlace? insn = none ∧ (∀ change ∈ changes, change.last = false) ∨
      ∃ i load change, X86.loadPlace? insn = some i ∧ insn.operands[i]? = some load ∧
        change ∈ changes ∧ change.last = true ∧ OperandSealed scope insn i load change := by
  unfold X86.loadPlace?
  cases hjump : (Family.of insn).isJump with
  | true =>
      refine .inl ⟨if_pos rfl, fun change hc => ?_⟩
      obtain ⟨j, o, -, hsealed, -⟩ := h.exists_of_mem hc
      rw [hsealed.last_eq, hjump, Bool.not_true, Bool.and_false]
  | false =>
      rw [if_neg Bool.false_ne_true]
      simpa only [Nat.zero_add] using h.findIdx? hjump

/-- If no operand loads, every one is sealed by its number. -/
lemma OperandsSealed.exists_change_getElem? {k : ℕ} {os : List Operand}
    {changes : List OperandChange} (h : OperandsSealed scope insn k os changes)
    (hlast : ∀ change ∈ changes, change.last = false) {j : ℕ} (ho : os[j]? = some o) :
    ∃ change ∈ changes, OperandSealed scope insn (k + j) o change := by
  induction h generalizing j with
  | nil => cases ho
  | last _ hl =>
      rw [hlast _ List.mem_cons_self] at hl
      cases hl
  | cons hsealed _ _ ih =>
      cases j with
      | zero =>
          cases ho
          exact ⟨_, List.mem_cons_self, hsealed⟩
      | succ j =>
          obtain ⟨change, hc, hsealed'⟩ := ih (fun c hc => hlast c (List.mem_cons_of_mem _ hc)) ho
          refine ⟨change, List.mem_cons_of_mem _ hc, ?_⟩
          rwa [Nat.add_right_comm, Nat.add_assoc] at hsealed'

/-- If no operand loads, only the first may refer to the offset table. -/
lemma OperandsSealed.not_refersToTable {changes : List OperandChange}
    (h : OperandsSealed scope insn 0 insn.operands changes)
    (hlast : ∀ change ∈ changes, change.last = false) (ho : Beside insn 0 o) :
    refersToTable o = false := by
  obtain ⟨j, hj, hget⟩ := ho
  obtain ⟨change, hc, hsealed⟩ := h.exists_change_getElem? hlast hget
  have hfirst {target : Operand} (ht : targetOfFirst insn (0 + j) = some target) : False :=
    hj ((Nat.zero_add j).symm.trans (targetOfFirst_eq_some ht).1)
  cases hsealed with
  | reference hkind hnone => simp [refersToTable, isLoad, hkind, hnone]
  | linkage hkind hplt => simp [refersToTable, isLoad, hkind, hplt]
  | branch _ _ hjump =>
      obtain ⟨hlt, -⟩ := List.getElem?_eq_some_iff.mp hget
      have hlength := length_operands_of_isJump hjump
      omega
  | load => cases hlast _ hc
  | distance _ _ ht => exact (hfirst ht).elim
  | address _ _ ht => exact (hfirst ht).elim
  | offset _ _ ht => exact (hfirst ht).elim
  | constant hkind => simp [refersToTable, isLoad, hkind]
  | other hmemory haddress hdistance hoffset =>
      exact refersToTable_of_other hmemory haddress hdistance hoffset

/-! ### Instructions -/

/-- Operands of an instruction with the same text are the same. -/
def ToldByText (insn : Instruction) : Prop :=
  ∀ o ∈ insn.operands, ∀ p ∈ insn.operands, o.text = p.text → o = p

section Lines

variable {changes : List OperandChange} {lines : List Line} {part : Part}

/-- Where an address is loaded, the details of the operands that are kept beside it are written
again, and nothing else. -/
lemma reappears_iff_of_load (htext : ToldByText insn)
    (hplace : loadPlace? insn = some i)
    (hlines : ∀ line ∈ lines, line.modifiers = [] ∧
      ∀ p ∈ line.operands, isBare p = true ∨ KeptBeside insn i p)
    (hkept : ∀ p, KeptBeside insn i p → ∃ line ∈ lines, p ∈ line.operands)
    (hbears : Bears insn part) : Reappears lines part ↔ Survives insn part := by
  cases part with
  -- no line has a word before its mnemonic
  | word w =>
      refine iff_of_false ?_ fun ⟨hnone, _⟩ => ?_
      · rintro ⟨line, hline, hw⟩
        rw [(hlines line hline).1] at hw
        cases hw
      · rw [hplace] at hnone
        cases hnone
  | detail o d =>
      constructor
      · rintro ⟨line, hline, p, hp, hkind, hshows⟩
        rcases (hlines line hline).2 p hp with hbare | ⟨hanywhere, j, hj, hget⟩
        · rw [not_shows_of_isBare hbare] at hshows
          cases hshows
        · obtain rfl := htext p (List.mem_of_getElem? hget) o hbears.1
            (congrArg Operand.text hkind :)
          refine ⟨j, hget, ?_⟩
          rw [hplace]
          exact ⟨hanywhere, hj⟩
      · rintro ⟨j, hget, hsurvives⟩
        rw [hplace] at hsurvives
        obtain ⟨line, hline, hp⟩ := hkept o ⟨hsurvives.1, j, hsurvives.2, hget⟩
        exact ⟨line, hline, o, hp, rfl, hbears.2.1⟩

lemma exists_instead_of_isTableOffset (h : OperandSealed scope insn i o change)
    (hoffset : isTableOffset o = true) : ∃ lines, .instead lines ∈ change.frames := by
  unfold isTableOffset at hoffset
  split at hoffset
  · next hkind =>
      cases h with
      | offset => exact ⟨_, List.mem_singleton_self _⟩
      | other _ _ _ hnot => exact (hnot _ _ hkind).elim
      | reference h' | linkage h' | branch h' | load h' | distance h' | address h' | constant h' =>
          rw [hkind] at h'
          cases h'
  · cases hoffset

/-- Where no address is loaded, the words before the mnemonic are written again if the instruction
is. -/
lemma word_reappears_iff (hsealed : OperandsSealed scope insn 0 insn.operands changes)
    (hplace : loadPlace? insn = none) (hlast : ∀ change ∈ changes, change.last = false)
    {w : String} (hw : w ∈ insn.modifiers) :
    Reappears (changedLines insn changes) (.word w) ↔ Survives insn (.word w) := by
  constructor
  · rintro ⟨line, hline, hmem⟩
    refine ⟨hplace, fun o ho => ?_⟩
    rcases mem_wrap hline with ⟨-, hnone⟩ | ⟨f, hf, hline⟩
    · obtain ⟨j, change, hc, hchange⟩ := hsealed.exists_change hlast o ho
      refine Bool.eq_false_iff.mpr fun hoffset => ?_
      obtain ⟨lines, hlines⟩ := exists_instead_of_isTableOffset hchange hoffset
      exact hnone lines (List.mem_flatMap.mpr ⟨change, hc, hlines⟩)
    · obtain ⟨change, hc, hf⟩ := List.mem_flatMap.mp hf
      obtain ⟨j, p, -, hchange, -⟩ := hsealed.exists_of_mem hc
      rw [(hchange.around (hlast change hc) f hf line hline).1] at hmem
      cases hmem
  · rintro ⟨-, hnone⟩
    refine ⟨_, mem_wrap_body (fun lines hlines => ?_) (List.mem_singleton_self _), hw⟩
    obtain ⟨first, target, symbol, fromTable, slot, hops, hkind, -⟩ :=
      hsealed.exists_offset hlast hlines
    have hoffset := hnone first (by rw [hops]; exact List.mem_cons_self)
    rw [isTableOffset, hkind] at hoffset
    cases hoffset

/-- Where no address is loaded, an operand that does not refer to the table is written with its
details. -/
lemma exists_line_of_plain (hsealed : OperandsSealed scope insn 0 insn.operands changes)
    (hlast : ∀ change ∈ changes, change.last = false) (ho : o ∈ insn.operands)
    (htable : refersToTable o = false) {d : Detail} (hd : shows o d = true) :
    Reappears (changedLines insn changes) (.detail o d) := by
  by_cases hinstead : ∃ lines, .instead lines ∈ changes.flatMap (·.frames)
  · obtain ⟨lines, hlines⟩ := hinstead
    obtain ⟨first, target, symbol, fromTable, slot, hops, hkind, hline⟩ :=
      hsealed.exists_offset hlast hlines
    rw [hops] at ho
    rcases List.mem_pair.mp ho with rfl | rfl
    · rw [refersToTable, hkind, Bool.or_true] at htable
      cases htable
    · exact ⟨_, hline, o, List.mem_cons_of_mem _ List.mem_cons_self, rfl, hd⟩
  · obtain ⟨j, change, hc, hchange⟩ := hsealed.exists_change hlast o ho
    obtain ⟨hkind, hshows⟩ := hchange.shows htable
    refine ⟨_, mem_wrap_body (fun lines hlines => hinstead ⟨lines, hlines⟩)
      (List.mem_singleton_self _), _, List.mem_map_of_mem (List.mem_map_of_mem hc), hkind,
      hshows d hd⟩

/-- Where no address is loaded, the details of an operand are written again if it does not refer to
the table. -/
lemma detail_reappears_iff (htext : ToldByText insn)
    (hsealed : OperandsSealed scope insn 0 insn.operands changes)
    (hplace : loadPlace? insn = none) (hlast : ∀ change ∈ changes, change.last = false)
    {d : Detail} (ho : o ∈ insn.operands) (hd : shows o d = true) :
    Reappears (changedLines insn changes) (.detail o d) ↔ Survives insn (.detail o d) := by
  have hsurvives : Survives insn (.detail o d) ↔ refersToTable o = false := by
    unfold Survives
    rw [hplace]
    obtain ⟨j, hget⟩ := List.mem_iff_getElem?.mp ho
    exact ⟨fun ⟨_, _, h⟩ => h, fun h => ⟨j, hget, h⟩⟩
  rw [hsurvives]
  refine ⟨?_, fun htable => exists_line_of_plain hsealed hlast ho htable hd⟩
  rintro ⟨line, hline, p, hp, hkind, hshows⟩
  -- operands with one text are one operand, so that it is known which one is written
  have hsame : p.text = o.text := (congrArg Operand.text hkind :)
  rcases mem_wrap hline with ⟨hbody, hnone⟩ | ⟨f, hf, hline⟩
  · rw [List.mem_singleton.mp hbody] at hp
    obtain ⟨operand, hoperand, rfl⟩ := List.mem_map.mp hp
    obtain ⟨change, hc, rfl⟩ := List.mem_map.mp hoperand
    obtain ⟨j, q, hq, hchange, -⟩ := hsealed.exists_of_mem hc
    cases htable : refersToTable q with
    | true =>
        rw [hchange.not_shows htable fun lines hlines =>
          hnone lines (List.mem_flatMap.mpr ⟨change, hc, hlines⟩)] at hshows
        cases hshows
    | false =>
        have hq' := congrArg Operand.text (hchange.shows htable).1
        rwa [← htext q hq o ho (hq'.symm.trans hsame)]
  · obtain ⟨change, hc, hf⟩ := List.mem_flatMap.mp hf
    obtain ⟨j, q, -, hchange, -⟩ := hsealed.exists_of_mem hc
    rcases (hchange.around (hlast change hc) f hf line hline).2 p hp with hbare | hbeside
    · rw [not_shows_of_isBare hbare] at hshows
      cases hshows
    · obtain ⟨j, -, hget⟩ := id hbeside
      rw [← htext p (List.mem_of_getElem? hget) o ho hsame]
      exact hsealed.not_refersToTable hlast hbeside

end Lines

/-- A part of an instruction is written again exactly if it does not depend on an operand that
refers to the offset table: the words before a mnemonic if neither an address nor an offset is
loaded, and the details of an operand if it does not refer to the table itself, nor is only the
name of its register used for a load. -/
theorem sealInstruction_reappears_iff {text : String} {statements : List Statement} {s : Statement}
    {e : Emission} {part : Part} (hparse : Statement.parse .x86_64 text = .ok statements)
    (hs : s ∈ statements) (hinsn : s.kind = .instruction insn)
    (h : sealInstruction scope s insn = .ok e) (hreplaced : e ≠ .copy s)
    (hbears : Bears insn part) : Reappears e.lines part ↔ Survives insn part := by
  -- an operand is read from its text, so that its text tells it
  have htext : ToldByText insn := by
    intro o ho p hp heq
    obtain ⟨l, hl⟩ := Statement.exists_operand hparse hs hinsn o ho
    obtain ⟨l', hl'⟩ := Statement.exists_operand hparse hs hinsn p hp
    obtain ⟨k, hk, rfl⟩ := operand_eq_ok_iff.mp hl
    obtain ⟨k', hk', rfl⟩ := operand_eq_ok_iff.mp hl'
    obtain rfl : l = l' := String.ofList_inj.mp heq
    rw [hk] at hk'
    cases hk'
    rfl
  obtain ⟨changes, hsealed, ⟨-, rfl⟩ | ⟨-, rfl⟩⟩ := sealInstruction_eq_ok h
  · exact (hreplaced rfl).elim
  rw [Emission.lines_replace]
  -- without a load the operands are written one by one
  rcases hsealed.loadPlace? with ⟨hplace, hlast⟩ | ⟨i, load, change, hplace, hget, hc, hlast, hload⟩
  · cases part with
    | word w => exact word_reappears_iff hsealed hplace hlast hbears
    | detail o d => exact detail_reappears_iff htext hsealed hplace hlast hbears.1 hbears.2.1
  · cases hload with
    | @load m frames helpers hkind htag hgot =>
        have hi := (List.getElem?_eq_some_iff.mp hget).1
        have hframes := hsealed.frames_eq (mnemonic_ne_of_gotLoad hgot) hc hlast
        refine reappears_iff_of_load htext hplace (fun line hline => ?_) (fun p hp => ?_) hbears
        · rw [changedLines, hframes] at hline
          rcases mem_wrap hline with ⟨-, hnone⟩ | ⟨f, hf, hline⟩
          · obtain ⟨lines, hlines⟩ := exists_instead_of_gotLoad hgot
            exact (hnone lines hlines).elim
          · exact around_of_gotLoad hi hgot f hf line hline
        · rw [changedLines, hframes]
          exact exists_line_of_keptBeside hi hgot hp _
    | _ => cases hlast

/-- A word before a mnemonic and a segment, for a symbol of the module. -/
theorem sealInstruction_reappears_iff_locked :
    let scope : Scope := ⟨⟨.insert "x" .empty⟩, Symbol.defaultMarker, 1⟩
    ∃ s insn e, sealOne scope "\tlock incq %fs:x\n" = some (s, insn, e) ∧
      e ≠ .copy s ∧ (∃ o, Bears insn (.detail o (.segment "%fs")) ∧
        (Reappears e.lines (.detail o (.segment "%fs")) ↔
          Survives insn (.detail o (.segment "%fs")))) ∧
      Bears insn (.word "lock") ∧
      (Reappears e.lines (.word "lock") ↔ Survives insn (.word "lock")) := by
  intro scope
  have hok : (sealOne scope "\tlock incq %fs:x\n").any (fun p => decide (p.2.2 ≠ .copy p.1 ∧
      (∃ o ∈ p.2.1.operands, Bears p.2.1 (.detail o (.segment "%fs"))) ∧
        Bears p.2.1 (.word "lock"))) = true := by
    decide +kernel
  cases h : sealOne scope "\tlock incq %fs:x\n" with
  | none =>
      rw [h] at hok
      cases hok
  | some p =>
      rw [h] at hok
      obtain ⟨hne, ⟨o, -, ho⟩, hword⟩ := of_decide_eq_true hok
      obtain ⟨statements, hparse, hs, hinsn, hseal⟩ := exists_of_sealOne h
      have hiff {part : Part} (hpart : Bears p.2.1 part) :=
        sealInstruction_reappears_iff hparse hs hinsn hseal hne hpart
      exact ⟨p.1, p.2.1, p.2.2, rfl, hne, ⟨o, ho, hiff ho⟩, hword, hiff hword⟩

/-- The mask of a vector that is filled with an address is written nowhere. -/
theorem exists_part_lost :
    let scope : Scope := ⟨{}, Symbol.defaultMarker, 1⟩
    ∃ s insn e o, sealOne scope "\tvpbroadcastq foo@GOTPCREL(%rip), %zmm0{%k1}{z}\n" =
        some (s, insn, e) ∧ e ≠ .copy s ∧ Bears insn (.detail o (.decorators "{%k1}{z}")) ∧
      ¬ Reappears e.lines (.detail o (.decorators "{%k1}{z}")) := by
  intro scope
  have hok : (sealOne scope "\tvpbroadcastq foo@GOTPCREL(%rip), %zmm0{%k1}{z}\n").any (fun p =>
      decide (p.2.2 ≠ .copy p.1 ∧
        ∃ o ∈ p.2.1.operands, Bears p.2.1 (.detail o (.decorators "{%k1}{z}")) ∧
          ¬ Reappears p.2.2.lines (.detail o (.decorators "{%k1}{z}")))) = true := by
    decide +kernel
  cases h : sealOne scope "\tvpbroadcastq foo@GOTPCREL(%rip), %zmm0{%k1}{z}\n" with
  | none =>
      rw [h] at hok
      cases hok
  | some p =>
      rw [h] at hok
      obtain ⟨hne, o, -, hbears, hlost⟩ := of_decide_eq_true hok
      exact ⟨p.1, p.2.1, p.2.2, o, rfl, hne, hbears, hlost⟩

end X86

end Hermetic

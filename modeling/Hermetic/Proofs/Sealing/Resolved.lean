/-
What the operands refer to that are written for an instruction of x86-64.

* `Line.operands`, `Emission.operands`: the operands that are written;
* `Resolved`, `X86.Settled`: names that are reached where they are written, and operands with such
  names and without relocation tags;
* `X86.Kept`: the operands that are written as they are, beside an address that is computed;
* `X86.sealInstruction_settled`: every operand that is written is settled, or kept;
* `X86.exists_kept_not_settled`: a constant that is kept with its local names.
-/
import Hermetic.Proofs.Helpers.X86
import Hermetic.Proofs.Symbol.Names

namespace Hermetic

/-! ### Operands that are written -/

/-- The operand that an operand of a line is. -/
def Line.Operand.operand : Line.Operand → Hermetic.Operand
  | copied o | built o => o

/-- The operands of a line. -/
def Line.operands : Line → List Hermetic.Operand
  | instruction _ _ _ operands => operands.map Operand.operand
  | _ => []

/-- The operands that are written for an instruction: its own if it is copied, and those of the
lines in its place. -/
def Emission.operands (insn : Instruction) (e : Emission) : List Operand :=
  e.chunks.flatMap fun
    | .copied _ => insn.operands
    | .line l => l.operands
    | _ => []

lemma Emission.operands_copy (insn : Instruction) (s : Statement) :
    (Emission.copy s).operands insn = insn.operands := by
  simp [Emission.operands, Emission.copy]

lemma Emission.operands_replace (insn : Instruction) (s : Statement) (lines : List Line)
    (helpers : List Helper) :
    (Emission.replace s lines helpers).operands insn = lines.flatMap Line.operands := by
  simp [Emission.operands, Emission.replace, List.flatMap_map]

/-- Whether an expression carries a relocation tag, which stands in the text between its names. -/
def Expr.isTagged (e : Expr) : Bool :=
  e.terms.any fun
    | .symbol _ => false
    | .other text => text.toList.contains '@'

lemma Expr.isTagged_mapSymbols (f : String → String) (e : Expr) :
    (e.mapSymbols f).isTagged = e.isTagged := by
  unfold isTagged mapSymbols
  rw [List.any_map]
  refine congrArg (List.any e.terms) (funext fun t => ?_)
  cases t <;> rfl

/-- Whether an operand carries a relocation tag. -/
def Operand.isTagged (o : Operand) : Bool :=
  match o.kind with
  | .memory m => m.tag.isSome
  | .gotOffset .. => true
  | .immediate _ value => value.isTagged
  | _ => false

/-! ### Names -/

/-- Names that are reached where they are written: aliases of the symbols of the module, local
names as they are written for their file, helpers that are asked for, and names outside the
module. -/
inductive Resolved (scope : Scope) (insn : Instruction) (helpers : List Helper) : String → Prop
  | aliased {symbol : String} : symbol ∈ insn.symbols → scope.defines symbol = true →
      Resolved scope insn helpers (Symbol.localAlias symbol)
  | renamed {symbol : String} : symbol ∈ insn.symbols → Symbol.isDotLocal symbol = true →
      Resolved scope insn helpers (Symbol.renamed symbol scope.index)
  | helper {helper : Helper} : helper ∈ helpers → Resolved scope insn helpers (helper.name .x86_64)
  | outside {symbol : String} : symbol ∈ insn.symbols → scope.defines symbol = false →
      Symbol.isDotLocal symbol = false → Resolved scope insn helpers symbol

namespace Resolved

variable {scope : Scope} {insn : Instruction} {helpers more : List Helper} {name symbol : String}

lemma mono (h : Resolved scope insn helpers name) (hsub : helpers ⊆ more) :
    Resolved scope insn more name := by
  cases h with
  | aliased hmem hdefines => exact .aliased hmem hdefines
  | renamed hmem hlocal => exact .renamed hmem hlocal
  | helper hh => exact .helper (hsub hh)
  | outside hmem hdefines hlocal => exact .outside hmem hdefines hlocal

lemma inside (hmem : symbol ∈ insn.symbols) :
    Resolved scope insn helpers (scope.inside symbol) := by
  rcases scope.inside_cases symbol with ⟨hdefines, heq⟩ | ⟨hlocal, heq⟩ | ⟨hdefines, hlocal, heq⟩
  · exact heq ▸ .aliased hmem hdefines
  · exact heq ▸ .renamed hmem hlocal
  · rw [heq]
    exact .outside hmem hdefines hlocal

lemma branchTarget (hmem : symbol ∈ insn.symbols) :
    Resolved scope insn (scope.branchTarget symbol).2 (scope.branchTarget symbol).1 := by
  rcases scope.branchTarget_fst symbol with hinside | ⟨hredirector, htarget⟩
  · rw [hinside]
    exact .inside hmem
  · rw [htarget]
    exact .helper hredirector

lemma localized (hmem : symbol ∈ insn.symbols) (hlocal : Symbol.isDotLocal symbol = true) :
    Resolved scope insn helpers (scope.localized symbol) := by
  rw [Scope.localized, Symbol.localized, if_pos hlocal]
  exact .renamed hmem hlocal

/-- Where the symbols of a module are public, a name that is reached is the public name of one of
them only as the name of a helper. -/
lemma exists_helper_of_defines (h : Resolved scope insn helpers name)
    (hpublic : scope.symbols.IsPublic)
    (hname : scope.defines name = true) : ∃ helper ∈ helpers, name = helper.name .x86_64 := by
  have hnotLocal := Bool.eq_false_iff.mp (hpublic name hname)
  cases h with
  | aliased => exact absurd (Symbol.isDotLocal_localAlias _) hnotLocal
  | renamed _ hlocal => exact absurd (Symbol.isDotLocal_renamed hlocal _) hnotLocal
  | helper hh => exact ⟨_, hh, rfl⟩
  | outside _ hdefines =>
      rw [hdefines] at hname
      cases hname

end Resolved

namespace X86

variable {scope : Scope} {insn : Instruction} {helpers more : List Helper} {o : Operand} {i : ℕ}
variable {change : OperandChange}

/-! ### Operands -/

/-- Operands whose names are reached where they are written.  Only a constant carries a tag, and
only one that the instruction has. -/
structure Settled (scope : Scope) (insn : Instruction) (helpers : List Helper) (o : Operand) :
    Prop where
  untagged : o.isTagged = true → ∃ source ∈ insn.operands, ∃ sigil value,
    source.kind = .immediate sigil value ∧ source.isTagged = true ∧
      o.kind = .immediate sigil (value.mapSymbols scope.localized)
  names : ∀ name ∈ o.kind.symbols, Resolved scope insn helpers name

lemma Settled.mono (h : Settled scope insn helpers o) (hsub : helpers ⊆ more) :
    Settled scope insn more o :=
  ⟨h.untagged, fun name hname => (h.names name hname).mono hsub⟩

/-- Whether an operand has neither names nor relocation tags. -/
def isClear (o : Operand) : Bool :=
  o.kind.symbols.isEmpty && !o.isTagged

lemma settled_of_isClear (h : isClear o = true) : Settled scope insn helpers o := by
  rw [isClear, Bool.and_eq_true, List.isEmpty_iff, Bool.not_eq_true'] at h
  refine ⟨fun htag => ?_, fun name hname => ?_⟩
  · rw [h.2] at htag
    cases htag
  · rw [h.1] at hname
    cases hname

lemma settled_memory {m : MemoryRef} (hkind : o.kind = .memory m) (htag : m.tag = none)
    (hname : ∀ name, m.symbol = some name → Resolved scope insn helpers name) :
    Settled scope insn helpers o := by
  refine ⟨fun h => ?_, fun name hmem => ?_⟩
  · rw [Operand.isTagged, hkind] at h
    dsimp only at h
    rw [htag] at h
    cases h
  · rw [hkind, Operand.Kind.symbols, Option.mem_toList] at hmem
    exact hname name hmem

/-- A reference relative to the instruction pointer. -/
lemma settled_ripRelative {name : String} (h : Resolved scope insn helpers name) :
    Settled scope insn helpers (Line.Operand.memory (.ripRelative name)).operand :=
  settled_memory rfl rfl fun n hn => by
    cases hn
    exact h

/-- A constant that mentions local names, as they are written for the file. -/
lemma settled_constant {source : Operand} {sigil : Option Char} {value : Expr}
    (hmem : source ∈ insn.operands) (hsource : source.kind = .immediate sigil value)
    (hlocal : ∀ name ∈ value.symbols, Symbol.isDotLocal name = true)
    (hkind : o.kind = .immediate sigil (value.mapSymbols scope.localized)) :
    Settled scope insn helpers o := by
  refine ⟨fun htag => ⟨source, hmem, sigil, value, hsource, ?_, hkind⟩, fun name hname => ?_⟩
  · rw [Operand.isTagged, hkind] at htag
    rw [Operand.isTagged, hsource]
    exact (Expr.isTagged_mapSymbols _ _).symm.trans htag
  · rw [hkind, Operand.Kind.symbols, Expr.symbols_mapSymbols, List.mem_map] at hname
    obtain ⟨symbol, hsymbol, rfl⟩ := hname
    refine .localized (List.mem_flatMap.mpr ⟨source, hmem, ?_⟩) (hlocal symbol hsymbol)
    rw [hsource]
    exact hsymbol

/-! ### Operands that are read -/

/-- The kinds of operand that are read: distances to the offset table are those of local names,
and there are no forms of the other architecture. -/
def IsReadKind : Operand.Kind → Prop
  | .gotDistance anchor => Symbol.isDotLocal anchor = true
  | .relocation _ | .indexed _ => False
  | _ => True

lemma isReadKind_immediate (l : List Char) : IsReadKind (immediate l) := by
  unfold immediate
  split
  · split
    · next hanchor => exact (Bool.and_eq_true_iff.mp hanchor).1
    · trivial
  · split
    · trivial
    · split
      · trivial
      · trivial

lemma isReadKind_of_kind {l : List Char} {k : Operand.Kind} (h : kind l = .ok k) :
    IsReadKind k := by
  unfold kind at h
  split at h
  · cases h
    trivial
  · cases h
    exact isReadKind_immediate _
  · repeat' split at h
    · cases h
      trivial
    · cases h
      trivial
    · cases h
      trivial
    · cases h
    · obtain ⟨m, -, rfl⟩ := Outcome.map_eq_ok_iff.mp h
      trivial

/-- What is known of an operand that is read. -/
structure FromText (o : Operand) : Prop where
  tagged : Tagged o
  kind : IsReadKind o.kind

lemma fromText_of_operand {l : List Char} (h : operand l = .ok o) : FromText o := by
  refine ⟨tagged_of_operand h, ?_⟩
  obtain ⟨k, hkind, ho⟩ := Outcome.bind_eq_ok_iff.mp h
  cases ho
  exact isReadKind_of_kind hkind

/-- An operand that is left alone has no names if it is read. -/
lemma isClear_of_other (hread : FromText o) (hmemory : ∀ m, o.kind ≠ .memory m)
    (haddress : o.kind ≠ .gotAddress) (hdistance : ∀ anchor, o.kind ≠ .gotDistance anchor)
    (hoffset : ∀ symbol fromTable, o.kind ≠ .gotOffset symbol fromTable)
    (himmediate : ∀ sigil value, o.kind ≠ .immediate sigil value) : isClear o = true := by
  have hkinds := hread.kind
  unfold isClear Operand.isTagged
  cases hkind : o.kind with
  | memory m => exact absurd hkind (hmemory m)
  | gotAddress => exact absurd hkind haddress
  | gotDistance anchor => exact absurd hkind (hdistance anchor)
  | gotOffset symbol fromTable => exact absurd hkind (hoffset symbol fromTable)
  | immediate sigil value => exact absurd hkind (himmediate sigil value)
  | relocation r | indexed x =>
      rw [hkind] at hkinds
      exact hkinds.elim
  | _ => rfl

/-- The computation of an address takes the place of the instruction. -/
lemma exists_addressOf (scope : Scope) (symbol register : String) (cleared : Bool) :
    ∃ lines, (addressOf scope symbol register cleared).1 = .instead lines := by
  unfold addressOf
  split
  · exact ⟨_, rfl⟩
  · exact ⟨_, rfl⟩

/-- An operand that is written where it stands is settled. -/
lemma OperandSealed.settled (h : OperandSealed scope insn i o change) (hread : FromText o)
    (hmem : o ∈ insn.operands) (hframes : ∀ lines, .instead lines ∉ change.frames) :
    Settled scope insn change.helpers change.operand.operand := by
  have hsymbol {symbol : String} (h : symbol ∈ o.kind.symbols) : symbol ∈ insn.symbols :=
    Instruction.mem_symbols hmem h
  cases h with
  | @reference m hkind htag =>
      refine settled_memory rfl htag fun name hname => ?_
      obtain ⟨symbol, hs, rfl⟩ := Option.map_eq_some_iff.mp hname
      exact .inside (hsymbol (Operand.mem_symbols_of_memory hkind hs))
  | @linkage m hkind htag =>
      obtain ⟨symbol, hs⟩ := hread.tagged m hkind (by rw [htag]; rfl)
      refine settled_memory rfl rfl fun name hname => ?_
      simp only [hs, Option.map_some, Option.some.injEq] at hname
      simp only [hs, Option.map_some, Option.getD_some, ← hname]
      exact .branchTarget
        (hsymbol (Operand.mem_symbols_of_memory hkind hs))
  | @branch m hkind htag =>
      obtain ⟨symbol, hs⟩ := hread.tagged m hkind (by rw [htag]; rfl)
      rw [hs, Option.getD_some]
      refine settled_memory rfl rfl fun name hname => ?_
      cases hname
      exact .branchTarget
        (hsymbol (Operand.mem_symbols_of_memory hkind hs))
  -- the load is written by lines of its own, which are no frame around it
  | @load m _ _ _ _ hload =>
      obtain ⟨-, -, -, first, plan, -, -, rfl, -⟩ := gotLoad_eq_ok hload
      obtain ⟨lines, hlines⟩ :=
        exists_addressOf scope (m.symbol.getD "") plan.target plan.redZoneCleared
      exact absurd (List.mem_append_right _ (List.mem_singleton.mpr hlines.symm)) (hframes lines)
  | distance => exact settled_ripRelative (.helper List.mem_cons_self)
  | address => exact settled_ripRelative (.helper List.mem_cons_self)
  | offset => exact absurd List.mem_cons_self (hframes _)
  | constant hkind hlocal => exact settled_constant hmem hkind hlocal rfl
  | other hmemory haddress hdistance hoffset himmediate =>
      exact settled_of_isClear
        (isClear_of_other hread hmemory haddress hdistance hoffset himmediate)

/-- An operand that does not change is settled. -/
lemma OperandSealed.settled_of_unchanged (h : OperandSealed scope insn i o change)
    (hread : FromText o) (hmem : o ∈ insn.operands) (hchange : change.changed = false) :
    Settled scope insn helpers o := by
  cases h with
  | @reference m hkind htag =>
      refine settled_memory hkind htag fun name hname => ?_
      have hsame : m.symbol.map scope.inside = m.symbol := by simpa using hchange
      rw [hname, Option.map_some, Option.some.injEq] at hsame
      rw [← hsame]
      exact .inside (Instruction.mem_symbols hmem (Operand.mem_symbols_of_memory hkind hname))
  | @constant sigil value hkind hlocal =>
      have hsame : value.mapSymbols scope.localized = value := by simpa using hchange
      exact settled_constant hmem hkind hlocal (hsame.symm ▸ hkind)
  | other hmemory haddress hdistance hoffset himmediate =>
      exact settled_of_isClear
        (isClear_of_other hread hmemory haddress hdistance hoffset himmediate)
  | _ => cases hchange

/-! ### Operands that are kept -/

/-- Operands that are written again as they are, beside an address that takes the place of
another operand. -/
inductive Kept (insn : Instruction) : Operand → Prop
  /-- What an address from the table is compared with. -/
  | compare {i : ℕ} {a b load : Operand} : Family.of insn = .compare a b →
      insn.operands[i]? = some load → isLoad load = true → Kept insn (if i = 0 then b else a)
  /-- What is computed with an address from the table. -/
  | source {i : ℕ} {a b c load : Operand} : Family.of insn = .threeArg a b c →
      insn.operands[i]? = some load → isLoad load = true → Kept insn (if i = 0 then b else a)
  /-- Where it is put. -/
  | result {a b c load : Operand} : Family.of insn = .threeArg a b c → load ∈ insn.operands →
      isLoad load = true → Kept insn c
  /-- Where the address of the table, a distance to it or an offset in it is put. -/
  | target {first target : Operand} : insn.operands = [first, target] →
      (first.kind = .gotAddress ∨ (∃ anchor, first.kind = .gotDistance anchor) ∨
        ∃ symbol fromTable, first.kind = .gotOffset symbol fromTable) → Kept insn target

/-- The operands of the lines of a frame. -/
def Frame.operands (f : Frame) : List Operand :=
  f.lines.flatMap Line.operands

lemma Frame.operands_afterwards (mnemonic : String) (operands : List Line.Operand) :
    (Frame.afterwards (.spaced mnemonic operands)).operands =
      operands.map Line.Operand.operand := by
  simp [Frame.operands, Frame.afterwards, Frame.lines, Line.spaced, Line.operands]

/-- Whether the operands of a frame are clear or kept. -/
def Frame.Bare (insn : Instruction) (f : Frame) : Prop :=
  ∀ o ∈ f.operands, isClear o = true ∨ Kept insn o

lemma Frame.Bare.of_clear {f : Frame} (h : f.operands.all isClear = true) : f.Bare insn :=
  fun o ho => .inl (List.all_eq_true.mp h o ho)

/-- What surrounds the computation of an address has names only in what is kept. -/
lemma bare_of_loadPlan {plan : LoadPlan} {load : Operand} (hload : insn.operands[i]? = some load)
    (hl : isLoad load = true) (h : loadPlan insn.mnemonic i (Family.of insn) = .ok plan) :
    ∀ f ∈ plan.frames, f.Bare insn := by
  have hone {f : Frame} (hf : f.operands.all isClear = true) : ∀ g ∈ [f], g.Bare insn :=
    List.forall_mem_singleton.mpr (.of_clear hf)
  have hscratch (temp : String) {rest : Frame} (hrest : rest.Bare insn) :
      ∀ g ∈ (LoadPlan.scratch temp rest).frames, g.Bare insn :=
    LoadPlan.forall_scratch (.of_clear rfl) hrest
  -- of the two sources, one is the loaded register and the other is kept
  have hsources {temp : String} {kept : Operand} (hkept : Kept insn kept) :
      ∀ o ∈ (LoadPlan.sources i temp kept).map Line.Operand.operand,
        isClear o = true ∨ Kept insn o := by
    refine List.forall_mem_map.mpr fun o ho => ?_
    rcases LoadPlan.mem_sources.mp ho with rfl | rfl
    · exact .inl rfl
    · exact .inr hkept
  generalize hfamily : Family.of insn = family at h
  cases loadPlanned_of_loadPlan h with
  | push | conditionalMove | transform => exact hone rfl
  | move => exact List.forall_mem_nil _
  | combine | combineVector => exact hscratch _ (.of_clear rfl)
  | compare =>
      refine hscratch _ fun o ho => ?_
      rw [Frame.operands_afterwards] at ho
      exact hsources (.compare hfamily hload hl) o ho
  | threeArg =>
      refine hscratch _ fun o ho => ?_
      rw [Frame.operands_afterwards, List.map_append, List.mem_append] at ho
      rcases ho with ho | ho
      · exact hsources (.source hfamily hload hl) o ho
      · rw [List.mem_singleton.mp ho]
        exact .inr (.result hfamily (List.mem_of_getElem? hload) hl)

lemma bare_of_viaGeneral {mnemonic : String} {first plan : LoadPlan}
    (hfirst : ∀ f ∈ first.frames, f.Bare insn) (h : viaGeneral mnemonic first = .ok plan) :
    ∀ f ∈ plan.frames, f.Bare insn :=
  forall_frames_of_viaGeneral h hfirst fun _ _ _ => ⟨.of_clear rfl, .of_clear rfl⟩

/-- The computation of an address refers to a name inside the module, or to the helper that is
asked for. -/
lemma settled_addressOf {symbol register : String} {cleared : Bool}
    (hmem : symbol ∈ insn.symbols) :
    ∀ o ∈ (addressOf scope symbol register cleared).1.operands,
      Settled scope insn (addressOf scope symbol register cleared).2 o := by
  -- an entry is loaded, or an address is computed; neither is tagged
  have huntagged : (addressOf scope symbol register cleared).1.operands.all (!·.isTagged) := by
    unfold addressOf
    split
    · rfl
    · cases cleared <;> rfl
  have hsymbols : (addressOf scope symbol register cleared).1.operands.flatMap (·.kind.symbols) =
      (addressOf scope symbol register cleared).1.mentions := by
    unfold addressOf
    split
    · rfl
    · cases cleared <;> rfl
  refine fun o ho => ⟨fun htag => ?_, fun name hname => ?_⟩
  · have hnone := List.all_eq_true.mp huntagged o ho
    rw [htag] at hnone
    cases hnone
  · have hn : name ∈ (addressOf scope symbol register cleared).1.mentions := by
      rw [← hsymbols]
      exact List.mem_flatMap.mpr ⟨o, ho, hname⟩
    rw [mentions_addressOf] at hn
    rw [helpers_addressOf]
    by_cases he : scope.isExternal symbol = true
    · rw [if_pos he, List.mem_singleton] at hn
      rw [if_pos he, hn]
      exact .helper List.mem_cons_self
    · rw [if_neg he, List.mem_singleton] at hn
      rw [hn]
      exact .inside hmem

/-- The operands of the frames around an operand are settled or kept. -/
lemma OperandSealed.settled_or_kept (h : OperandSealed scope insn i o change) (hread : FromText o)
    (hi : insn.operands[i]? = some o) :
    ∀ f ∈ change.frames, ∀ p ∈ f.operands,
      Settled scope insn change.helpers p ∨ Kept insn p := by
  have hmem := List.mem_of_getElem? hi
  have hsymbol {symbol : String} (h : symbol ∈ o.kind.symbols) : symbol ∈ insn.symbols :=
    Instruction.mem_symbols hmem h
  -- the target of a form that only one frame is for is the second operand
  have htarget {target : Operand} (h : targetOfFirst insn i = some target)
      (hkind : o.kind = .gotAddress ∨ (∃ anchor, o.kind = .gotDistance anchor) ∨
        ∃ symbol fromTable, o.kind = .gotOffset symbol fromTable) : Kept insn target := by
    obtain ⟨rfl, first, hops⟩ := targetOfFirst_eq_some h
    rw [hops] at hi
    cases hi
    exact .target hops hkind
  cases h with
  | @load m frames helpers hkind htag hload =>
      obtain ⟨symbol, hs⟩ := hread.tagged m hkind (by rw [htag]; rfl)
      have hl : isLoad o = true := by simp [isLoad, hkind, htag]
      obtain ⟨-, -, -, first, plan, hfirst, hplan, rfl, rfl⟩ := gotLoad_eq_ok hload
      have hframes := bare_of_viaGeneral (bare_of_loadPlan hi hl hfirst) hplan
      intro f hf p hp
      rcases List.mem_append.mp hf with hf | hf
      · exact (hframes f hf p hp).imp_left settled_of_isClear
      · rw [List.mem_singleton.mp hf, hs, Option.getD_some] at hp
        rw [hs, Option.getD_some]
        exact .inl (settled_addressOf
          (hsymbol (Operand.mem_symbols_of_memory hkind hs)) p hp)
  | @distance anchor target hkind hm ht =>
      have hlocal : Symbol.isDotLocal anchor = true := by
        have hkinds := hread.kind
        rwa [hkind] at hkinds
      refine List.forall_mem_singleton.mpr fun p hp => ?_
      rw [Frame.operands_afterwards] at hp
      rcases List.mem_pair.mp hp with rfl | rfl
      · refine .inl ⟨(by rintro ⟨⟩), fun name hname => ?_⟩
        have hname : name ∈ [Symbol.gotDelta, scope.localized anchor] := hname
        rcases List.mem_pair.mp hname with rfl | rfl
        · exact .helper List.mem_cons_self
        · exact .localized (hsymbol (by rw [hkind]; exact List.mem_cons_self)) hlocal
      · exact .inr (htarget ht (.inr (.inl ⟨anchor, hkind⟩)))
  | address hkind _ ht =>
      refine List.forall_mem_singleton.mpr fun p hp => ?_
      rw [Frame.operands_afterwards] at hp
      rcases List.mem_pair.mp hp with rfl | rfl
      · exact .inl (settled_ripRelative (.helper List.mem_cons_self))
      · exact .inr (htarget ht (.inl hkind))
  | @offset symbol fromTable target hkind _ ht =>
      refine List.forall_mem_singleton.mpr fun p hp => ?_
      have hp : p ∈ [(Line.Operand.memory (.ripRelative
          (Symbol.gotOffsetSlot (scope.localized symbol) fromTable))).operand, target] := hp
      rcases List.mem_pair.mp hp with rfl | rfl
      · exact .inl (settled_ripRelative (.helper List.mem_cons_self))
      · exact .inr (htarget ht (.inr (.inr ⟨symbol, fromTable, hkind⟩)))
  | _ => exact List.forall_mem_nil _

/-! ### Instructions -/

/-- If no load is accepted, every operand plays a role. -/
lemma OperandsSealed.exists_change {k : ℕ} {os : List Operand} {changes : List OperandChange}
    (h : OperandsSealed scope insn k os changes) (hlast : ∀ change ∈ changes, change.last = false) :
    ∀ o ∈ os, ∃ j, ∃ change ∈ changes, OperandSealed scope insn j o change := by
  induction h with
  | nil => exact List.forall_mem_nil _
  | last _ hl =>
      have hnot := hlast _ List.mem_cons_self
      rw [hl] at hnot
      cases hnot
  | cons hsealed _ _ ih =>
      refine List.forall_mem_cons.mpr ⟨⟨_, _, List.mem_cons_self, hsealed⟩, fun o ho => ?_⟩
      obtain ⟨j, change, hc, hj⟩ := ih (fun c hc => hlast c (List.mem_cons_of_mem _ hc)) o ho
      exact ⟨j, change, List.mem_cons_of_mem _ hc, hj⟩

/-- Every operand that is written for an instruction is settled, or kept as it is. -/
lemma settled_or_kept_of_sealInstruction {s : Statement} {e : Emission}
    (hread : ∀ o ∈ insn.operands, FromText o) (h : sealInstruction scope s insn = .ok e) :
    ∀ o ∈ e.operands insn, Settled scope insn e.helpers o ∨ Kept insn o := by
  obtain ⟨changes, hsealed, ⟨hany, rfl⟩ | ⟨-, rfl⟩⟩ := sealInstruction_eq_ok h
  · -- nothing has changed, so no operand was left out
    have hchanged (change : OperandChange) (hc : change ∈ changes) : change.changed = false := by
      simpa using List.any_eq_false.mp hany change hc
    have hlast (change : OperandChange) (hc : change ∈ changes) : change.last = false := by
      obtain ⟨j, o, -, hchange, -⟩ := hsealed.exists_of_mem hc
      have hsame := hchanged change hc
      cases hchange <;> first | rfl | cases hsame
    intro o ho
    rw [Emission.operands_copy] at ho
    obtain ⟨j, change, hc, hchange⟩ := hsealed.exists_change hlast o ho
    exact .inl (hchange.settled_of_unchanged (hread o ho) ho (hchanged change hc))
  · have hsub {change : OperandChange} (hc : change ∈ changes) :
        change.helpers ⊆ changes.flatMap (·.helpers) :=
      fun helper hh => List.mem_flatMap.mpr ⟨change, hc, hh⟩
    intro p hp
    rw [Emission.operands_replace] at hp
    obtain ⟨line, hline, hp⟩ := List.mem_flatMap.mp hp
    rcases mem_wrap hline with ⟨hbody, hframes⟩ | ⟨f, hf, hline⟩
    · rw [List.mem_singleton.mp hbody] at hp
      obtain ⟨operand, hoperand, rfl⟩ := List.mem_map.mp hp
      obtain ⟨change, hc, rfl⟩ := List.mem_map.mp hoperand
      obtain ⟨j, o, ho, hchange, -⟩ := hsealed.exists_of_mem hc
      have hnone (lines : List Line) : .instead lines ∉ change.frames := fun hl =>
        hframes lines (List.mem_flatMap.mpr ⟨change, hc, hl⟩)
      exact .inl ((hchange.settled (hread o ho) ho hnone).mono (hsub hc))
    · obtain ⟨change, hc, hf⟩ := List.mem_flatMap.mp hf
      obtain ⟨j, o, hj, hchange, -⟩ := hsealed.exists_getElem? hc
      rw [Nat.zero_add] at hchange
      have hp : p ∈ f.operands := List.mem_flatMap.mpr ⟨line, hline, hp⟩
      refine (hchange.settled_or_kept (hread o (List.mem_of_getElem? hj)) hj f hf p hp).imp_left ?_
      exact fun hsettled => hsettled.mono (hsub hc)

/-- Of the operands that are written for an instruction, all but those that are kept beside an
address have no relocation tag, save for constants that had one before, and name only aliases,
local names of the file, helpers that are asked for and symbols outside the module.  In
particular they name no symbol of the module by its public name, save as a helper. -/
theorem sealInstruction_settled {text : String} {statements : List Statement} {s : Statement}
    {e : Emission} (hparse : Statement.parse .x86_64 text = .ok statements)
    (hs : s ∈ statements) (hinsn : s.kind = .instruction insn)
    (h : sealInstruction scope s insn = .ok e) :
    (∀ o ∈ e.operands insn, Settled scope insn e.helpers o ∨ Kept insn o) ∧
      (scope.symbols.IsPublic →
        ∀ o ∈ e.operands insn, ¬ Kept insn o → ∀ name ∈ o.kind.symbols,
          scope.defines name = true → ∃ helper ∈ e.helpers, name = helper.name .x86_64) := by
  have hread : ∀ o ∈ insn.operands, FromText o := by
    intro o ho
    obtain ⟨l, hl⟩ := Statement.exists_operand hparse hs hinsn o ho
    exact fromText_of_operand hl
  have hsettled := settled_or_kept_of_sealInstruction hread h
  refine ⟨hsettled, fun hpublic o ho hnot name hname hdefines => ?_⟩
  exact (((hsettled o ho).resolve_right hnot).names name hname).exists_helper_of_defines
    hpublic hdefines

/-- What is written for the one instruction of a text. -/
def sealOne (scope : Scope) (text : String) : Option (Statement × Instruction × Emission) :=
  match Statement.parse .x86_64 text with
  | .ok [s] =>
    match s.kind with
    | .instruction insn => (sealInstruction scope s insn).toOption.map fun e => (s, insn, e)
    | _ => none
  | _ => none

lemma exists_of_sealOne {text : String} {s : Statement} {e : Emission}
    (h : sealOne scope text = some (s, insn, e)) :
    ∃ statements, Statement.parse .x86_64 text = .ok statements ∧ s ∈ statements ∧
      s.kind = .instruction insn ∧ sealInstruction scope s insn = .ok e := by
  unfold sealOne at h
  split at h
  · next s' hparse =>
      split at h
      · next insn' hinsn =>
          obtain ⟨e', he, heq⟩ := Option.map_eq_some_iff.mp h
          cases heq
          refine ⟨[s], hparse, List.mem_singleton.mpr rfl, hinsn, ?_⟩
          cases hseal : sealInstruction scope s insn with
          | error err =>
              rw [hseal] at he
              cases he
          | ok e' =>
              rw [hseal] at he
              cases he
              rfl
      · cases h
  · cases h

/-- A reference to a symbol of the module. -/
theorem sealInstruction_settled_reference :
    let scope : Scope := ⟨⟨.insert "x" .empty⟩, Symbol.defaultMarker, 1⟩
    ∃ s insn e, sealOne scope "\tmovq x(%rip), %rbx\n" = some (s, insn, e) ∧
      (∃ o ∈ e.operands insn, Symbol.localAlias "x" ∈ o.kind.symbols) ∧
      ∀ o ∈ e.operands insn, Settled scope insn e.helpers o ∨ Kept insn o := by
  intro scope
  have hok : (sealOne scope "\tmovq x(%rip), %rbx\n").any (fun p =>
      (p.2.2.operands p.2.1).any fun o => decide (Symbol.localAlias "x" ∈ o.kind.symbols)) =
        true := by
    decide +kernel
  cases h : sealOne scope "\tmovq x(%rip), %rbx\n" with
  | none =>
      rw [h] at hok
      cases hok
  | some p =>
      rw [h] at hok
      obtain ⟨o, ho, hname⟩ := List.any_eq_true.mp hok
      obtain ⟨statements, hparse, hs, hinsn, hseal⟩ := exists_of_sealOne h
      exact ⟨p.1, p.2.1, p.2.2, rfl, ⟨o, ho, of_decide_eq_true hname⟩,
        (sealInstruction_settled hparse hs hinsn hseal).1⟩

/-- A constant beside a load keeps a local name, although another name is written for the file. -/
theorem exists_kept_not_settled :
    let scope : Scope := ⟨{}, Symbol.defaultMarker, 1⟩
    ∃ s insn e, sealOne scope "\tcmpq $.Ly-.Lx, foo@GOTPCREL(%rip)\n" = some (s, insn, e) ∧
      ∃ o ∈ e.operands insn, ".Lx" ∈ o.kind.symbols ∧ scope.localized ".Lx" ≠ ".Lx" := by
  intro scope
  have hok : (sealOne scope "\tcmpq $.Ly-.Lx, foo@GOTPCREL(%rip)\n").any (fun p =>
      (p.2.2.operands p.2.1).any fun o => decide (".Lx" ∈ o.kind.symbols)) = true := by
    decide +kernel
  cases h : sealOne scope "\tcmpq $.Ly-.Lx, foo@GOTPCREL(%rip)\n" with
  | none =>
      rw [h] at hok
      cases hok
  | some p =>
      rw [h] at hok
      obtain ⟨o, ho, hname⟩ := List.any_eq_true.mp hok
      exact ⟨p.1, p.2.1, p.2.2, rfl, o, ho, of_decide_eq_true hname, by decide +kernel⟩

end X86

end Hermetic

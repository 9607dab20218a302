/-
The helpers that an instruction of x86-64 needs.

* `X86.upToLoad`: the operands of an instruction up to the first load from the offset table, after
  which none plays a role;
* `X86.Needs`: the helpers that an operand needs, with `X86.mem_helpers_iff`: an instruction asks
  for exactly the helpers that its operands need up to the first load;
* `X86.mentions_of_mem_helpers`: what is written for an instruction mentions every helper that is
  asked for;
* `X86.reached_or_mem_helpers`: it mentions nothing else but names of its own operands.
-/
import Hermetic.Proofs.Helpers.Names
import Hermetic.Proofs.Sealing.X86
import Hermetic.Proofs.Statement.Operands
import Mathlib.Tactic.Lemma

namespace Hermetic.X86

variable {scope : Scope} {insn : Instruction} {i : ℕ} {o : Operand} {change : OperandChange}

/-! ### Operands -/

/-- Whether an operand refers to an entry in the offset table. -/
def isLoad (o : Operand) : Bool :=
  match o.kind with
  | .memory m => m.tag == some "GOTPCREL"
  | _ => false

/-- The operands up to the first that refers to an entry in the offset table. -/
def upToLoad : List Operand → List Operand
  | [] => []
  | o :: os => if isLoad o then [o] else o :: upToLoad os

/-- The helpers that an operand of an instruction needs. -/
def Needs (scope : Scope) (insn : Instruction) (o : Operand) : Helper → Prop
  | .redirector s => (Family.of insn).isJump = true ∧ scope.isExternal s = true ∧
      ∃ m, o.kind = .memory m ∧ m.symbol = some s ∧
        (m.tag = some "PLT" ∨ m.tag = some "GOTPCREL")
  | .gotEntry s => (Family.of insn).isJump = false ∧ scope.isExternal s = true ∧
      ∃ m, o.kind = .memory m ∧ m.symbol = some s ∧ m.tag = some "GOTPCREL"
  | .gotOffset s fromTable =>
      ∃ symbol, o.kind = .gotOffset symbol fromTable ∧ s = scope.localized symbol
  | .gotDelta => o.kind = .gotAddress ∨ ∃ anchor, o.kind = .gotDistance anchor
  | .accessor .. => False

lemma helpers_addressOf (scope : Scope) (symbol register : String) (cleared : Bool) :
    (addressOf scope symbol register cleared).2 =
      if scope.isExternal symbol then [.gotEntry symbol] else [] := by
  unfold addressOf
  cases h : scope.inside? symbol with
  | none => simp [Scope.inside?_eq_none_iff.mp h]
  | some t =>
      have hn : ¬ scope.isExternal symbol = true := by
        rw [← Scope.inside?_eq_none_iff, h]
        simp
      simp [hn]

/-- An operand asks for what it needs. -/
lemma OperandSealed.mem_helpers_iff (htag : Tagged o)
    (h : OperandSealed scope insn i o change) (helper : Helper) :
    helper ∈ change.helpers ↔ Needs scope insn o helper := by
  -- by what becomes of the operand; a helper is asked for if the symbol is external
  cases h with
  | reference hkind hnone => cases helper <;> simp [Needs, hkind, hnone]
  | linkage hkind hplt hj =>
      obtain ⟨symbol, hsymbol⟩ := htag _ hkind (by rw [hplt]; rfl)
      have hhelpers := Scope.helpers_branchTarget scope symbol
      simp only [hsymbol, Option.map_some, Option.getD_some, hhelpers]
      cases helper <;> simp [Needs, hkind, hplt, hj, hsymbol]
      grind
  | branch hkind hgot hj =>
      obtain ⟨symbol, hsymbol⟩ := htag _ hkind (by rw [hgot]; rfl)
      have hhelpers := Scope.helpers_branchTarget scope symbol
      simp only [hsymbol, Option.getD_some, hhelpers]
      cases helper <;> simp [Needs, hkind, hgot, hj, hsymbol]
      grind
  | load hkind hgot hload =>
      obtain ⟨symbol, hsymbol⟩ := htag _ hkind (by rw [hgot]; rfl)
      have hj := isJump_of_gotLoad hload
      obtain ⟨-, -, -, first, plan, -, -, -, rfl⟩ := gotLoad_eq_ok hload
      simp only [hsymbol, Option.getD_some, helpers_addressOf]
      cases helper <;> simp [Needs, hkind, hgot, hj, hsymbol]
      grind
  | distance hkind => cases helper <;> simp [Needs, hkind]
  | address hkind => cases helper <;> simp [Needs, hkind]
  | offset hkind =>
      cases helper <;> simp [Needs, hkind]
      grind
  | constant hkind => cases helper <;> simp [Needs, hkind]
  | other hmemory haddress hdistance hoffset =>
      cases helper <;> simp [Needs, hmemory, haddress, hdistance, hoffset]

/-- The later operands play no role exactly after a load by an instruction that is no jump. -/
lemma OperandSealed.last_eq (h : OperandSealed scope insn i o change) :
    change.last = (isLoad o && !(Family.of insn).isJump) := by
  cases h with
  | reference hkind hnone => simp [isLoad, hkind, hnone]
  | linkage hkind hplt hj => simp [hj]
  | branch hkind hgot hj => simp [hj]
  | load hkind hgot hload => simp [isLoad, hkind, hgot, isJump_of_gotLoad hload]
  | distance hkind => simp [isLoad, hkind]
  | address hkind => simp [isLoad, hkind]
  | offset hkind => simp [isLoad, hkind]
  | constant hkind => simp [isLoad, hkind]
  | other hmemory =>
      have hload : isLoad o = false := by
        unfold isLoad
        split
        · next m hm => exact absurd hm (hmemory m)
        · rfl
      simp [hload]

/-- An operand that asks for helpers is changed. -/
lemma OperandSealed.helpers_eq_nil (h : OperandSealed scope insn i o change)
    (hc : change.changed = false) : change.helpers = [] := by
  cases h <;> first | rfl | cases hc

/-! ### Instructions -/

/-- A jump has one operand. -/
lemma length_operands_of_isJump (h : (Family.of insn).isJump = true) :
    insn.operands.length ≤ 1 := by
  unfold Family.of at h
  split at h
  · next hops => simp [hops]
  · unfold Family.ofTwo at h
    split at h <;> simp_all [Family.isJump]
    grind
  · unfold Family.ofThree at h
    split at h <;> simp_all [Family.isJump]
  · cases h

lemma mem_of_mem_upToLoad {o : Operand} {os : List Operand} (h : o ∈ upToLoad os) : o ∈ os := by
  induction os with
  | nil => cases h
  | cons p os ih =>
      rw [upToLoad] at h
      split at h
      · rw [List.mem_singleton.mp h]
        exact List.mem_cons_self
      · rcases List.mem_cons.mp h with rfl | h
        · exact List.mem_cons_self
        · exact List.mem_cons_of_mem _ (ih h)

/-- A load is among the operands up to the first exactly if it is the first. -/
lemma mem_upToLoad_iff_find? {o : Operand} {os : List Operand} (ho : isLoad o = true) :
    o ∈ upToLoad os ↔ os.find? isLoad = some o := by
  induction os with
  | nil => simp [upToLoad]
  | cons p os ih =>
      cases hp : isLoad p with
      | true =>
          rw [upToLoad, if_pos hp, List.mem_singleton, List.find?_cons_of_pos hp,
            Option.some.injEq, eq_comm]
      | false =>
          have hne : o ≠ p := by
            rintro rfl
            rw [ho] at hp
            cases hp
          rw [upToLoad, if_neg (Bool.eq_false_iff.mp hp), List.mem_cons, or_iff_right hne, ih,
            List.find?_cons_of_neg (Bool.eq_false_iff.mp hp)]

/-- All operands of a jump play a role. -/
lemma upToLoad_operands_of_isJump {insn : Instruction} (h : (Family.of insn).isJump = true) :
    upToLoad insn.operands = insn.operands := by
  have hlength := length_operands_of_isJump h
  match hops : insn.operands with
  | [] => rfl
  | [o] => simp [upToLoad]
  | _ :: _ :: _ =>
      rw [hops] at hlength
      simp at hlength

lemma OperandsSealed.mem_helpers_iff {k : ℕ} {os : List Operand} {changes : List OperandChange}
    (h : OperandsSealed scope insn k os changes) (htag : ∀ o ∈ os, Tagged o)
    (hlength : (Family.of insn).isJump = true → os.length ≤ 1) (helper : Helper) :
    helper ∈ changes.flatMap (·.helpers) ↔ ∃ o ∈ upToLoad os, Needs scope insn o helper := by
  induction h with
  | nil => simp [upToLoad]
  | @last k o os change hsealed hlast =>
      have hload : isLoad o = true := by
        rw [hsealed.last_eq, Bool.and_eq_true] at hlast
        exact hlast.1
      simp [upToLoad, hload, hsealed.mem_helpers_iff (htag o List.mem_cons_self)]
  | @cons k o os change changes hsealed hlast _ ih =>
      have hhead := hsealed.mem_helpers_iff (htag o List.mem_cons_self) helper
      have htail := ih (fun p hp => htag p (List.mem_cons_of_mem _ hp)) fun hj =>
        Nat.le_of_succ_le (hlength hj)
      rw [hsealed.last_eq] at hlast
      rw [List.flatMap_cons, List.mem_append, hhead, htail]
      cases hload : isLoad o with
      | false => simp [upToLoad, hload]
      | true =>
          -- only a jump goes on after a load, and it has no other operand
          have hj : (Family.of insn).isJump = true := by simpa [hload] using hlast
          have hnil : os = [] := by
            have hle := hlength hj
            rw [List.length_cons] at hle
            exact List.length_eq_zero_iff.mp (by omega)
          simp [upToLoad, hload, hnil]

/-- An instruction asks for exactly the helpers that its operands need, up to the first that
loads from the offset table. -/
lemma mem_helpers_iff {s : Statement} {e : Emission} (htag : ∀ o ∈ insn.operands, Tagged o)
    (h : sealInstruction scope s insn = .ok e) (helper : Helper) :
    helper ∈ e.helpers ↔ ∃ o ∈ upToLoad insn.operands, Needs scope insn o helper := by
  obtain ⟨changes, hsealed, h⟩ := sealInstruction_eq_ok h
  rw [← hsealed.mem_helpers_iff htag length_operands_of_isJump]
  rcases h with ⟨hany, rfl⟩ | ⟨-, rfl⟩
  · have hnone : changes.flatMap (·.helpers) = [] := by
      rw [List.flatMap_eq_nil_iff]
      intro change hc
      obtain ⟨j, o, -, hsealed, -⟩ := hsealed.exists_of_mem hc
      exact hsealed.helpers_eq_nil (by simpa using List.any_eq_false.mp hany change hc)
    rw [hnone]
    rfl
  · rfl

/-! ### Names in frames -/

/-- The lines of a frame. -/
def Frame.lines : Frame → List Line
  | .around before after => before ++ after
  | .instead lines => lines

/-- The symbols that the lines of a frame are put together with. -/
def Frame.mentions (f : Frame) : List String :=
  f.lines.flatMap Line.mentions

/-- A line inside frames is one of theirs, or of the body if nothing takes its place. -/
lemma mem_wrap {frames : List Frame} {body : List Line} {line : Line}
    (h : line ∈ Frame.wrap frames body) :
    (line ∈ body ∧ ∀ lines, .instead lines ∉ frames) ∨ ∃ f ∈ frames, line ∈ f.lines := by
  induction frames with
  | nil => exact .inl ⟨h, fun _ => List.not_mem_nil⟩
  | cons f frames ih =>
      cases f with
      | instead lines => exact .inr ⟨_, List.mem_cons_self, h⟩
      | around before after =>
          rw [Frame.wrap, List.mem_append, List.mem_append] at h
          rcases h with (h | h) | h
          · exact .inr ⟨_, List.mem_cons_self, List.mem_append_left _ h⟩
          · rcases ih h with ⟨h, hframes⟩ | ⟨g, hg, h⟩
            · refine .inl ⟨h, fun lines hlines => ?_⟩
              rcases List.mem_cons.mp hlines with heq | hlines
              · cases heq
              · exact hframes lines hlines
            · exact .inr ⟨g, List.mem_cons_of_mem _ hg, h⟩
          · exact .inr ⟨_, List.mem_cons_self, List.mem_append_right _ h⟩

/-- The lines of the first frame are written. -/
lemma mem_wrap_cons {f : Frame} {frames : List Frame} {body : List Line} {line : Line}
    (h : line ∈ f.lines) : line ∈ Frame.wrap (f :: frames) body := by
  cases f with
  | instead lines => exact h
  | around before after =>
      rw [Frame.wrap, List.mem_append, List.mem_append]
      rcases List.mem_append.mp h with h | h
      · exact .inl (.inl h)
      · exact .inr h

/-- Lines around a load leave the lines of the load as they are. -/
lemma mem_wrap_of_around {f : Frame} {frames : List Frame} {body : List Line} {line : Line}
    (hframes : ∀ g ∈ frames, ∃ before after, g = .around before after) (h : line ∈ f.lines) :
    line ∈ Frame.wrap (frames ++ [f]) body := by
  induction frames with
  | nil => exact mem_wrap_cons h
  | cons g frames ih =>
      obtain ⟨before, after, rfl⟩ := hframes g List.mem_cons_self
      rw [List.cons_append, Frame.wrap, List.mem_append, List.mem_append]
      exact .inl (.inr (ih fun g hg => hframes g (List.mem_cons_of_mem _ hg)))

/-- What is known of a frame around a load: it leaves room for the load, mentions no symbols, and
defines no label but a number. -/
structure Frame.Surrounds (f : Frame) : Prop where
  around : ∃ before after, f = .around before after
  mentions : f.mentions = []
  labels : Line.labels f.lines = [] ∨ Line.labels f.lines = ["999"]

/-- The frames around a load mention no symbols. -/
lemma loadPlan_frames {mnemonic : String} {family : Family} {plan : LoadPlan}
    (h : loadPlan mnemonic i family = .ok plan) : ∀ g ∈ plan.frames, g.Surrounds := by
  have hone {f : Frame} (hf : f.Surrounds) : ∀ g ∈ [f], g.Surrounds :=
    List.forall_mem_singleton.mpr hf
  have hscratch (temp : String) {rest : Frame} (hrest : rest.Surrounds) :
      ∀ g ∈ (LoadPlan.scratch temp rest).frames, g.Surrounds :=
    LoadPlan.forall_scratch ⟨⟨_, _, rfl⟩, rfl, .inl rfl⟩ hrest
  cases loadPlanned_of_loadPlan h with
  | push => exact hone ⟨⟨_, _, rfl⟩, rfl, .inl rfl⟩
  | move => exact List.forall_mem_nil _
  | conditionalMove => exact hone ⟨⟨_, _, rfl⟩, rfl, .inr rfl⟩
  | transform => exact hone ⟨⟨_, _, rfl⟩, rfl, .inl rfl⟩
  | combine | combineVector => exact hscratch _ ⟨⟨_, _, rfl⟩, rfl, .inl rfl⟩
  | compare | threeArg =>
      refine hscratch _ ⟨⟨_, _, rfl⟩, ?_, .inl rfl⟩
      unfold LoadPlan.sources
      split <;> rfl

lemma viaGeneral_frames {mnemonic : String} {first plan : LoadPlan}
    (hfirst : ∀ g ∈ first.frames, g.Surrounds) (h : viaGeneral mnemonic first = .ok plan) :
    ∀ g ∈ plan.frames, g.Surrounds :=
  forall_frames_of_viaGeneral h hfirst fun _ _ _ =>
    ⟨⟨⟨_, _, rfl⟩, rfl, .inl rfl⟩, ⟨_, _, rfl⟩, rfl, .inl rfl⟩

/-! ### Names that are written -/

/-- The computation of an address mentions the name that the symbol has inside the module, or the
helper that it needs. -/
lemma mentions_addressOf (symbol register : String) (cleared : Bool) :
    (addressOf scope symbol register cleared).1.mentions =
      if scope.isExternal symbol then [Symbol.gotSlot symbol] else [scope.inside symbol] := by
  unfold addressOf Scope.inside
  cases h : scope.inside? symbol with
  | none =>
      rw [if_pos (Scope.inside?_eq_none_iff.mp h)]
      cases cleared <;> rfl
  | some name =>
      have hn : ¬ scope.isExternal symbol = true := by
        rw [← Scope.inside?_eq_none_iff, h]
        simp
      rw [if_neg hn]
      rfl

/-- No load from the table is accepted in an instruction of another family. -/
lemma mnemonic_ne_of_gotLoad {m : MemoryRef} {frames : List Frame} {helpers : List Helper}
    (h : gotLoad scope insn i m = .ok (frames, helpers)) :
    insn.mnemonic ≠ "movabsq" ∧ insn.mnemonic ≠ "leaq" := by
  have hother (hm : insn.mnemonic = "movabsq" ∨ insn.mnemonic = "leaq") :
      Family.of insn = .other := by
    unfold Family.of
    rcases hm with hm | hm
    all_goals
      rw [hm]
      split
      · rfl
      · rfl
      · rfl
      · rfl
  obtain ⟨-, -, -, first, plan, hfirst, -⟩ := gotLoad_eq_ok h
  refine ⟨fun hm => ?_, fun hm => ?_⟩
  · rw [hother (.inl hm)] at hfirst
    cases hfirst
  · rw [hother (.inr hm)] at hfirst
    cases hfirst

/-- A branch goes to a name of the symbol, or to the redirector that is asked for. -/
lemma reached_or_redirector {symbol : String} (ho : o ∈ insn.operands)
    (hs : symbol ∈ o.kind.symbols) :
    scope.Reached insn (scope.branchTarget symbol).1 ∨
      ∃ helper ∈ (scope.branchTarget symbol).2,
        (scope.branchTarget symbol).1 = helper.name .x86_64 := by
  rcases scope.branchTarget_fst symbol with htarget | ⟨hmem, htarget⟩
  · exact .inl ⟨o, ho, symbol, hs, .inl htarget⟩
  · exact .inr ⟨.redirector symbol, hmem, htarget⟩

/-- A load from the table mentions a name of the symbol, or the entry that is asked for. -/
lemma reached_or_gotEntry {m : MemoryRef} {frames : List Frame} {helpers : List Helper}
    {symbol name : String} (ho : o ∈ insn.operands) (hs : symbol ∈ o.kind.symbols)
    (hsymbol : m.symbol = some symbol) (h : gotLoad scope insn i m = .ok (frames, helpers))
    (hn : name ∈ frames.flatMap Frame.mentions) :
    scope.Reached insn name ∨ ∃ helper ∈ helpers, name = helper.name .x86_64 := by
  obtain ⟨-, -, -, first, plan, hfirst, hplan, rfl, rfl⟩ := gotLoad_eq_ok h
  have hframes := viaGeneral_frames (loadPlan_frames hfirst) hplan
  rw [hsymbol, Option.getD_some] at hn ⊢
  rw [List.flatMap_append, List.mem_append, List.mem_flatMap] at hn
  -- only the computation of the address mentions symbols
  have hn : name ∈ (addressOf scope symbol plan.target plan.redZoneCleared).1.mentions := by
    rcases hn with ⟨g, hg, hn⟩ | hn
    · rw [(hframes g hg).mentions] at hn
      cases hn
    · simpa using hn
  rw [mentions_addressOf] at hn
  by_cases he : scope.isExternal symbol = true
  · rw [if_pos he, List.mem_singleton] at hn
    refine .inr ⟨.gotEntry symbol, ?_, hn⟩
    simp [helpers_addressOf, he]
  · rw [if_neg he, List.mem_singleton] at hn
    exact .inl ⟨o, ho, symbol, hs, .inl hn⟩

/-- What an operand becomes mentions a name of its own, or a helper that is asked for. -/
lemma OperandSealed.reached_or_mem (htag : Tagged o) (ho : o ∈ insn.operands)
    (h : OperandSealed scope insn i o change) {name : String}
    (hn : name ∈ change.frames.flatMap Frame.mentions ∨ name ∈ change.operand.mentions) :
    scope.Reached insn name ∨ ∃ helper ∈ change.helpers, name = helper.name .x86_64 := by
  -- names of the instruction itself are reached
  have hown {symbol : String} (hs : symbol ∈ o.kind.symbols)
      (hname : name = scope.inside symbol ∨ name = scope.localized symbol) :
      scope.Reached insn name := ⟨o, ho, symbol, hs, hname⟩
  cases h with
  | @reference m hkind hnone =>
      have hn : name ∈ (m.symbol.map scope.inside).toList := hn.resolve_left List.not_mem_nil
      rw [Option.mem_toList, Option.map_eq_some_iff] at hn
      obtain ⟨symbol, hsymbol, rfl⟩ := hn
      exact .inl (hown (Operand.mem_symbols_of_memory hkind hsymbol) (.inl rfl))
  | @linkage m hkind hplt hj =>
      obtain ⟨symbol, hsymbol⟩ := htag m hkind (by rw [hplt]; rfl)
      obtain rfl : name = (scope.branchTarget symbol).1 := by
        have hn := hn.resolve_left List.not_mem_nil
        simpa [Line.Operand.mentions, Operand.withKind, Operand.Kind.symbols, hsymbol] using hn
      rw [hsymbol]
      exact reached_or_redirector ho (Operand.mem_symbols_of_memory hkind hsymbol)
  | @branch m hkind hgot hj =>
      obtain ⟨symbol, hsymbol⟩ := htag m hkind (by rw [hgot]; rfl)
      obtain rfl : name = (scope.branchTarget symbol).1 := by
        have hn := hn.resolve_left List.not_mem_nil
        simpa [Line.Operand.mentions, Line.Operand.symbol, Line.Operand.memory,
          Line.Operand.ofKind, Operand.ofKind, MemoryRef.ofSymbol, Operand.Kind.symbols,
          hsymbol] using hn
      rw [hsymbol, Option.getD_some]
      exact reached_or_redirector ho (Operand.mem_symbols_of_memory hkind hsymbol)
  | @load m frames helpers hkind hgot hload =>
      obtain ⟨symbol, hsymbol⟩ := htag m hkind (by rw [hgot]; rfl)
      exact reached_or_gotEntry ho (Operand.mem_symbols_of_memory hkind hsymbol) hsymbol hload
        (hn.resolve_right List.not_mem_nil)
  | @distance anchor target hkind =>
      have hs : anchor ∈ o.kind.symbols := by simp [hkind, Operand.Kind.symbols]
      -- the frame loads the distance, and subtracts from the anchor
      have hn : name = Symbol.gotDelta ∨ name = scope.localized anchor := by
        rcases hn with hn | hn
        · simpa [Frame.mentions, Frame.lines, Frame.afterwards, Line.mentions, Line.spaced,
            Line.Operand.mentions, Line.Operand.ofKind, Operand.ofKind, Operand.Kind.symbols,
            Expr.symbols] using hn
        · exact .inl (List.mem_singleton.mp hn)
      rcases hn with hn | hn
      · exact .inr ⟨.gotDelta, List.mem_cons_self, hn⟩
      · exact .inl (hown hs (.inr hn))
  | @address target hkind =>
      have hn : name = Symbol.gotDelta := by
        rcases hn with hn | hn
        · exact List.mem_singleton.mp hn
        · exact List.mem_singleton.mp hn
      exact .inr ⟨.gotDelta, List.mem_cons_self, hn⟩
  | @offset symbol fromTable target hkind =>
      have hn := hn.resolve_right List.not_mem_nil
      exact .inr ⟨_, List.mem_cons_self, List.mem_singleton.mp hn⟩
  | @constant sigil value hkind =>
      have hn : name ∈ (value.mapSymbols scope.localized).symbols :=
        hn.resolve_left List.not_mem_nil
      rw [Expr.symbols_mapSymbols, List.mem_map] at hn
      obtain ⟨symbol, hs, rfl⟩ := hn
      exact .inl (hown (by simpa [hkind, Operand.Kind.symbols] using hs) (.inr rfl))
  | other => rcases hn with hn | hn <;> cases hn

/-- What is written for an instruction mentions names of its own operands, or helpers that are
asked for. -/
lemma reached_or_mem_helpers {s : Statement} {e : Emission}
    (htag : ∀ o ∈ insn.operands, Tagged o) (h : sealInstruction scope s insn = .ok e)
    {name : String} (hn : name ∈ e.mentions) :
    scope.Reached insn name ∨ ∃ helper ∈ e.helpers, name = helper.name .x86_64 := by
  obtain ⟨changes, hsealed, ⟨-, rfl⟩ | ⟨-, rfl⟩⟩ := sealInstruction_eq_ok h
  · cases hn
  · have hchange {change : OperandChange} (hc : change ∈ changes)
        (hn : name ∈ change.frames.flatMap Frame.mentions ∨ name ∈ change.operand.mentions) :
        scope.Reached insn name ∨ ∃ helper ∈ changes.flatMap (·.helpers),
          name = helper.name .x86_64 := by
      obtain ⟨j, o, ho, hsealed, -⟩ := hsealed.exists_of_mem hc
      refine (hsealed.reached_or_mem (htag o ho) ho hn).imp_right ?_
      rintro ⟨helper, hh, hname⟩
      exact ⟨helper, List.mem_flatMap.mpr ⟨change, hc, hh⟩, hname⟩
    rw [Emission.mentions_replace, List.mem_flatMap] at hn
    obtain ⟨line, hline, hn⟩ := hn
    rcases mem_wrap hline with ⟨hline, -⟩ | ⟨f, hf, hline⟩
    · rw [List.mem_singleton] at hline
      subst hline
      obtain ⟨operand, hoperand, hn⟩ := List.mem_flatMap.mp hn
      obtain ⟨change, hc, rfl⟩ := List.mem_map.mp hoperand
      exact hchange hc (.inr hn)
    · obtain ⟨change, hc, hf⟩ := List.mem_flatMap.mp hf
      refine hchange hc (.inl (List.mem_flatMap.mpr ⟨f, hf, ?_⟩))
      exact List.mem_flatMap.mpr ⟨line, hline, hn⟩

/-- The change of an operand mentions every helper that it asks for: in its first frame, in the
load that ends its frames, or in the operand if there are no frames. -/
lemma OperandSealed.mentions_of_mem (htag : Tagged o) (h : OperandSealed scope insn i o change)
    {helper : Helper} (hh : helper ∈ change.helpers) :
    ((Family.of insn).isJump = true ∧ change.frames = [] ∧
        helper.name .x86_64 ∈ change.operand.mentions) ∨
      (i = 0 ∧ ∃ f frames, change.frames = f :: frames ∧ helper.name .x86_64 ∈ f.mentions) ∨
      (change.last = true ∧ (insn.mnemonic ≠ "movabsq" ∧ insn.mnemonic ≠ "leaq") ∧
        ∃ frames f, change.frames = frames ++ [f] ∧
          (∀ g ∈ frames, ∃ before after, g = .around before after) ∧
            helper.name .x86_64 ∈ f.mentions) := by
  -- a branch names its helper itself; whatever loads names it in a frame
  cases h with
  | @linkage m hkind hplt hj =>
      obtain ⟨symbol, hsymbol⟩ := htag m hkind (by rw [hplt]; rfl)
      rw [hsymbol] at hh ⊢
      have hname := Scope.branchTarget_fst_of_mem hh .x86_64
      exact .inl ⟨hj, rfl, List.mem_singleton.mpr hname.symm⟩
  | @branch m hkind hgot hj =>
      have hname := Scope.branchTarget_fst_of_mem hh .x86_64
      exact .inl ⟨hj, rfl, List.mem_singleton.mpr hname.symm⟩
  | @load m frames helpers hkind hgot hload =>
      obtain ⟨symbol, hsymbol⟩ := htag m hkind (by rw [hgot]; rfl)
      have hm := mnemonic_ne_of_gotLoad hload
      obtain ⟨-, -, -, first, plan, hfirst, hplan, rfl, rfl⟩ := gotLoad_eq_ok hload
      have hframes := viaGeneral_frames (loadPlan_frames hfirst) hplan
      refine .inr (.inr ⟨rfl, hm, _, _, rfl, fun g hg => (hframes g hg).around, ?_⟩)
      rw [helpers_addressOf] at hh
      rw [mentions_addressOf]
      split at hh
      · next he =>
          rw [if_pos he, List.mem_singleton] at *
          rw [hh]
          rfl
      · cases hh
  | distance hkind hm htarget =>
      rw [List.mem_singleton] at hh
      subst hh
      exact .inr (.inl ⟨(targetOfFirst_eq_some htarget).1, _, _, rfl, List.mem_cons_self⟩)
  | address hkind hm htarget =>
      rw [List.mem_singleton] at hh
      subst hh
      exact .inr (.inl ⟨(targetOfFirst_eq_some htarget).1, _, _, rfl, List.mem_cons_self⟩)
  | offset hkind hm htarget =>
      rw [List.mem_singleton] at hh
      subst hh
      exact .inr (.inl ⟨(targetOfFirst_eq_some htarget).1, _, _, rfl, List.mem_cons_self⟩)
  | reference | constant | other => cases hh

/-- Apart from loads from the table, only two mnemonics put anything around an instruction. -/
lemma OperandSealed.frames_eq_nil (h : OperandSealed scope insn i o change)
    (hm : insn.mnemonic ≠ "movabsq" ∧ insn.mnemonic ≠ "leaq") (hlast : change.last = false) :
    change.frames = [] := by
  cases h with
  | load => cases hlast
  | distance _ h => exact absurd h hm.1
  | address _ h => exact absurd h hm.2
  | offset _ h => exact absurd h hm.1
  | _ => rfl

/-- The frames around an instruction that loads from the table are those of the load. -/
lemma OperandsSealed.frames_eq {k : ℕ} {os : List Operand} {changes : List OperandChange}
    (h : OperandsSealed scope insn k os changes)
    (hm : insn.mnemonic ≠ "movabsq" ∧ insn.mnemonic ≠ "leaq") (hc : change ∈ changes)
    (hlast : change.last = true) : changes.flatMap (·.frames) = change.frames := by
  induction h with
  | nil => cases hc
  | last => rw [List.mem_singleton.mp hc, List.flatMap_singleton]
  | cons hsealed hfirst _ ih =>
      rcases List.mem_cons.mp hc with rfl | hc
      · rw [hlast] at hfirst
        cases hfirst
      · rw [List.flatMap_cons, hsealed.frames_eq_nil hm hfirst, List.nil_append, ih hc]

/-- What is written for an instruction mentions every helper that is asked for. -/
lemma mentions_of_mem_helpers {s : Statement} {e : Emission}
    (htag : ∀ o ∈ insn.operands, Tagged o) (h : sealInstruction scope s insn = .ok e)
    {helper : Helper} (hh : helper ∈ e.helpers) : helper.name .x86_64 ∈ e.mentions := by
  obtain ⟨changes, hsealed, ⟨-, rfl⟩ | ⟨-, rfl⟩⟩ := sealInstruction_eq_ok h
  · cases hh
  · obtain ⟨change, hc, hh⟩ := List.mem_flatMap.mp hh
    obtain ⟨j, o, ho, hchange, -, hhead⟩ := hsealed.exists_of_mem hc
    rw [Emission.mentions_replace]
    have hframe {f : Frame} (hn : helper.name .x86_64 ∈ f.mentions)
        (hlines : ∀ line ∈ f.lines, line ∈ changedLines insn changes) :
        helper.name .x86_64 ∈ (changedLines insn changes).flatMap Line.mentions := by
      obtain ⟨line, hline, hn⟩ := List.mem_flatMap.mp hn
      exact List.mem_flatMap.mpr ⟨line, hlines line hline, hn⟩
    rcases hchange.mentions_of_mem (htag o ho) hh with
      ⟨hj, hframes, hn⟩ | ⟨hzero, f, frames, hframes, hn⟩ |
        ⟨hlast, hm, frames, f, hframes, haround, hn⟩
    · -- a jump has one operand, and nothing around it
      have hone : changes = [change] := by
        have hle := Nat.le_trans hsealed.length_le (length_operands_of_isJump hj)
        obtain ⟨before, after, rfl⟩ := List.append_of_mem hc
        rw [List.length_append, List.length_cons] at hle
        have hbefore : before = [] := List.length_eq_zero_iff.mp (by omega)
        have hafter : after = [] := List.length_eq_zero_iff.mp (by omega)
        rw [hbefore, hafter, List.nil_append]
      rw [hone, changedLines, List.flatMap_singleton, hframes, Frame.wrap_nil,
        List.flatMap_singleton]
      exact List.mem_flatMap.mpr ⟨change.operand, List.mem_singleton.mpr rfl, hn⟩
    · obtain ⟨rest, rfl⟩ := List.head?_eq_some_iff.mp (hhead hzero)
      refine hframe hn fun line hline => ?_
      rw [changedLines, List.flatMap_cons, hframes, List.cons_append]
      exact mem_wrap_cons hline
    · refine hframe hn fun line hline => ?_
      rw [changedLines, hsealed.frames_eq hm hc hlast, hframes]
      exact mem_wrap_of_around haround hline

end Hermetic.X86

/-
The statements of a module that stay as they are.

A statement of which nothing changes is copied, and any other is written in another way.

* `Scope.Renumbers`, `X86.Touched`, `Arm.Touched`: the names and the operands that change;
* `Statement.Touched`: the statements that change;
* `Altered`: pieces that do not spell the text of a statement, with `Altered.text_ne`: whatever was
  written before;
* `CopiedUnless`, `Statement.copiedUnless_of_emission`: a statement is copied unless it is one that
  changes, and is altered if it is;
* `sealed_copied_iff`: the text of a statement is added to the output exactly if the statement does
  not change.
-/
import Hermetic.Proofs.Module.Storage
import Hermetic.Proofs.Sealing.LocalLabels
import Hermetic.Proofs.Sealing.Output
import Hermetic.Proofs.Sealing.X86
import Hermetic.Proofs.Symbol.Defined

namespace Hermetic

/-! ### Names that change -/

namespace Scope

variable {scope : Scope} {name : String}

/-- Whether a name is a local one of another file than the first. -/
def Renumbers (scope : Scope) (name : String) : Prop :=
  0 < scope.index ∧ Symbol.isDotLocal name = true

lemma localized_eq_self_iff : scope.localized name = name ↔ ¬ scope.Renumbers name := by
  rw [localized, Symbol.localized, Renumbers]
  by_cases hlocal : Symbol.isDotLocal name = true
  · rw [if_pos hlocal]
    rcases Nat.eq_zero_or_pos scope.index with hzero | hpos
    · rw [hzero]
      exact iff_of_true (Symbol.renamed_zero name) (by simp)
    · exact iff_of_false (Symbol.renamed_ne hpos.ne' name) (by simp [hpos, hlocal])
  · rw [if_neg hlocal]
    exact iff_of_true rfl (by simp [hlocal])

lemma inside_eq_self_iff :
    scope.inside name = name ↔ ¬ (scope.defines name = true ∨ scope.Renumbers name) := by
  rw [inside, inside?]
  by_cases hdefines : scope.defines name = true
  · rw [if_pos hdefines]
    exact iff_of_false (Symbol.localAlias_ne name) (by simp [hdefines])
  · rw [if_neg hdefines, or_iff_right hdefines, ← localized_eq_self_iff, localized,
      Symbol.localized]
    by_cases hlocal : Symbol.isDotLocal name = true
    · rw [if_pos hlocal, if_pos hlocal]
      rfl
    · rw [if_neg hlocal, if_neg hlocal]
      split <;> exact iff_of_true rfl rfl

/-- A branch goes to the symbol itself if that neither changes its name nor lies outside. -/
lemma branchTarget_eq_self_iff : (scope.branchTarget name).1 = name ↔
    ¬ (scope.defines name = true ∨ scope.isExternal name = true ∨ scope.Renumbers name) := by
  rw [branchTarget]
  cases hinside : scope.inside? name with
  | none =>
      have hexternal := inside?_eq_none_iff.mp hinside
      exact iff_of_false (Arm.redirector_ne name) (by simp [hexternal])
  | some target =>
      have hexternal : ¬ scope.isExternal name = true := by
        rw [← inside?_eq_none_iff, hinside]
        exact Option.some_ne_none target
      have htarget : scope.inside name = target := by rw [inside, hinside, Option.getD_some]
      rw [or_iff_right hexternal, ← inside_eq_self_iff, htarget]

end Scope

namespace Expr

lemma mapSymbols_eq_self_iff {f : String → String} {e : Expr} :
    e.mapSymbols f = e ↔ ∀ name ∈ e.symbols, f name = name := by
  obtain ⟨terms⟩ := e
  simp only [mapSymbols, Expr.mk.injEq, symbols]
  induction terms with
  | nil => simp
  | cons t terms ih => cases t <;> simp [ih]

/-- An expression stays as it is if none of its names changes. -/
lemma mapSymbols_localized_eq_self_iff {scope : Scope} {e : Expr} :
    e.mapSymbols scope.localized = e ↔ ¬ ∃ name ∈ e.symbols, scope.Renumbers name := by
  simp only [mapSymbols_eq_self_iff, Scope.localized_eq_self_iff, not_exists, not_and]

end Expr

/-! ### Operands that change -/

/-- Whether an operand of x86-64 changes. -/
def X86.Touched (scope : Scope) (o : Operand) : Prop :=
  match o.kind with
  | .memory m => m.tag.isSome = true ∨
      ∃ name, m.symbol = some name ∧ (scope.defines name = true ∨ scope.Renumbers name)
  | .gotDistance _ | .gotAddress | .gotOffset .. => True
  | .immediate _ value => ∃ name ∈ value.symbols, scope.Renumbers name
  | _ => False

/-- Whether an operand of AArch64 changes, in an instruction that may be a branch. -/
def Arm.Touched (scope : Scope) (mnemonic : String) (o : Operand) : Prop :=
  match o.kind with
  | .memory m => ∃ name, m.symbol = some name ∧ (scope.defines name = true ∨
      isBranch mnemonic = true ∧ scope.isExternal name = true ∨ scope.Renumbers name)
  | .relocation _ => True
  | .indexed x => ∃ r, x.rest = some (.relocation r)
  | .immediate _ value => ∃ name ∈ value.symbols, scope.Renumbers name
  | _ => False

/-- Whether a statement changes. -/
def Statement.Touched (arch : Arch) (scope : Scope) (s : Statement) : Prop :=
  match s.kind with
  | .label (.symbol _) => True
  | .label (.dotLocal _) => 0 < scope.index
  | .binding _ name value => Symbol.isDotLocal name = false ∨ 0 < scope.index ∧
      (Symbol.isDotLocal name = true ∨ ∃ a ∈ value.symbols, Symbol.isDotLocal a = true)
  | .symbolic _ arguments =>
      0 < scope.index ∧ ∃ e ∈ arguments, ∃ a ∈ e.symbols, Symbol.isDotLocal a = true
  | .directive directive arguments =>
      directive.toLower ∈ [".comm", ".lcomm"] ∧ 0 < scope.index ∧
        (∃ p, (Piece.split arguments.toList).head? = some p ∧
          Symbol.isDotLocal (String.ofList p.text) = true) ∨
      directive.toLower = ".section" ∧ (Section.Extends ".rodata" (Section.name arguments) ∨
        Section.Extends ".text" (Section.name arguments))
  | .instruction insn =>
      match arch with
      | .x86_64 => ∃ o ∈ insn.operands, X86.Touched scope o
      | .aarch64 => insn.mnemonic.toLower ∉ Arm.symbolFree ∧
          (insn.mnemonic.toLower = "adrp" ∨
            ∃ o ∈ insn.operands, Arm.Touched scope insn.mnemonic.toLower o)
  | _ => False

/-! ### Pieces that change something -/

/-- Pieces that do not spell the text of a statement. -/
inductive Altered (s : Statement) : List Chunk → Prop
  | quoted {chunks : List Chunk} : Altered s (.quoted s :: chunks)
  | before {line : Line} : line.text ≠ "" → Altered s [.line line, .copied s.text]
  | after {line : Line} : line.text ≠ "" → Altered s [.copied s.text, .line line]
  | opened {name : String} : Altered s [.copied s.text, .openLabel name]
  | other {text : String} : text ≠ s.text → Altered s [.copied text]

namespace Statement

variable {arch : Arch} {scope : Scope} {inBss : Bool} {s : Statement} {e : Emission}

/-- A statement that does anything starts with no line feed and no comment that ends its line. -/
lemma first_of_kindAt {c d : Cursor Char} {kind : Kind} (h : kindAt arch c = .ok (kind, d))
    (hlive : kind.isLive = true) : c.next? ≠ some '\n' ∧ startsComment arch true c = false := by
  unfold kindAt at h
  split at h
  · cases h
    cases hlive
  · next ch hch =>
      split at h
      · cases h
        cases hlive
      · next hblank =>
          split at h
          · cases h
            cases hlive
          · next hcomment =>
              refine ⟨fun hline => hblank (.inl ?_), by simpa using hcomment⟩
              exact Option.some.inj (hch.symm.trans hline)

/-- The text of a statement that does anything is not that of a comment, after a line feed or
not. -/
lemma text_ne_of_live {c d : Cursor Char} (h : ofCursor arch c = .ok (s, d))
    (hlive : s.kind.isLive = true) (t : List Char) :
    s.text.toList ≠ '\n' :: t ∧ s.text.toList ≠ arch.leader.toList ++ t := by
  obtain ⟨start, lead, body, hlead, -, -, hbody, hkind, htext, -⟩ := ofCursor_eq_ok h
  obtain ⟨hline, hcomment⟩ := first_of_kindAt hkind hlive
  have hrest := hbody.rest
  rw [htext, String.toList_ofList]
  -- what comes first is the statement, a blank or a block comment
  cases hlead with
  | nil =>
      rw [List.nil_append]
      refine ⟨fun heq => hline ?_, fun heq => ?_⟩
      · simp [Cursor.next?, hrest, heq]
      · cases arch <;>
          simp [startsComment, Cursor.next?, Cursor.second?, hrest, heq, Arch.leader] at hcomment
  | blank hc =>
      refine ⟨fun heq => ?_, fun heq => ?_⟩
      · cases heq
        exact absurd hc (by decide)
      · obtain ⟨ch, l, hleader, hch⟩ : ∃ ch l, arch.leader.toList = ch :: l ∧
            Cursor.isSpace ch = false := by
          cases arch <;> exact ⟨_, _, rfl, by decide⟩
        rw [hleader] at heq
        rw [(List.cons.inj heq).1, hch] at hc
        cases hc
  | comment => cases arch <;> exact ⟨by rintro ⟨⟩, by rintro ⟨⟩⟩

end Statement

/-- Some text is added by pieces, whatever was written before. -/
lemma Output.exists_text_addAll (arch : Arch) (o : Output) (chunks : List Chunk) :
    ∃ t, (o.addAll arch chunks).text = o.text ++ t := by
  induction chunks generalizing o with
  | nil => exact ⟨"", String.append_empty.symm⟩
  | cons c chunks ih =>
      have hfirst : ∃ t, (o.add arch c).text = o.text ++ t := by
        cases c with
        | quoted s =>
            cases hstart : o.atLineStart <;>
              exact ⟨_, by simp only [add, freshLine, hstart, if_true, Bool.false_eq_true, if_false,
                text_put, String.append_assoc]; rfl⟩
        | _ => exact ⟨_, rfl⟩
      obtain ⟨t, ht⟩ := hfirst
      obtain ⟨u, hu⟩ := ih (o.add arch c)
      refine ⟨t ++ u, ?_⟩
      rw [← String.append_assoc, ← ht]
      exact hu

namespace Altered

variable {arch : Arch} {s : Statement} {chunks : List Chunk}

/-- The text of a statement is not what is added by pieces that do not spell it, unless it is that
of a comment. -/
lemma text_ne (h : Altered s chunks) (hs : ∀ t, s.text.toList ≠ '\n' :: t ∧
    s.text.toList ≠ arch.leader.toList ++ t) (o : Output) :
    (o.addAll arch chunks).text ≠ o.text ++ s.text := by
  intro heq
  cases h with
  -- the comment starts with its leader, behind the end of a line unless it is at one
  | @quoted rest =>
      obtain ⟨t, ht⟩ := Output.exists_text_addAll arch (o.add arch (.quoted s)) rest
      have hadd : (o.addAll arch (.quoted s :: rest)).text =
          (o.add arch (.quoted s)).text ++ t := ht
      cases hstart : o.atLineStart with
      | true =>
          refine (hs (" WAS ".toList ++ (s.oneLine.toList ++ '\n' :: t.toList))).2 ?_
          have hlist := congrArg String.toList (hadd.symm.trans heq)
          simp only [Output.add, Output.freshLine, hstart, if_true, Output.text_put,
            String.toList_append, List.append_assoc] at hlist
          simpa using (List.append_cancel_left hlist).symm
      | false =>
          refine (hs (arch.leader.toList ++ (" WAS ".toList ++
            (s.oneLine.toList ++ '\n' :: t.toList)))).1 ?_
          have hlist := congrArg String.toList (hadd.symm.trans heq)
          simp only [Output.add, Output.freshLine, hstart, Bool.false_eq_true, if_false,
            Output.text_put, String.toList_append, List.append_assoc] at hlist
          simpa using (List.append_cancel_left hlist).symm
  | @before line hline =>
      refine hline ?_
      have hlist := congrArg String.toList heq
      simp only [Output.addAll, List.foldl_cons, List.foldl_nil, Output.add, Output.text_put,
        String.toList_append, List.append_assoc] at hlist
      simpa using List.append_cancel_left hlist
  | @after line hline =>
      refine hline ?_
      have hlist := congrArg String.toList heq
      simp only [Output.addAll, List.foldl_cons, List.foldl_nil, Output.add, Output.text_put,
        String.toList_append] at hlist
      simpa using hlist
  | @opened name =>
      have hlist := congrArg String.toList heq
      simp [Output.addAll, Output.add] at hlist
  | @other text htext =>
      refine htext ?_
      have hlist := congrArg String.toList heq
      simp only [Output.addAll, List.foldl_cons, List.foldl_nil, Output.add, Output.text_put,
        String.toList_append] at hlist
      exact String.toList_inj.mp (List.append_cancel_left hlist)

end Altered

/-- A statement is copied unless something holds, and is altered if it does. -/
def CopiedUnless (p : Prop) (s : Statement) (e : Emission) : Prop :=
  (¬ p ∧ e.chunks = [.copied s.text]) ∨ (p ∧ Altered s e.chunks)

lemma copiedUnless_copy {p : Prop} {s : Statement} {helpers : List Helper} (hp : ¬ p) :
    CopiedUnless p s { Emission.copy s with helpers } :=
  .inl ⟨hp, rfl⟩

lemma copiedUnless_replace {p : Prop} {s : Statement} {lines : List Line} {helpers : List Helper}
    (hp : p) : CopiedUnless p s (.replace s lines helpers) :=
  .inr ⟨hp, .quoted⟩

/-! ### Instructions -/

namespace X86

variable {scope : Scope} {insn : Instruction} {i : ℕ} {o : Operand} {change : OperandChange}

lemma changed_iff_touched (h : OperandSealed scope insn i o change) :
    change.changed = true ↔ Touched scope o := by
  unfold Touched
  -- by what becomes of the operand: a reference may keep its name, and a constant its text
  cases h with
  | @reference m hkind htag =>
      rw [hkind]
      dsimp only
      rw [htag, bne_iff_ne, Option.isSome_none, or_iff_right Bool.false_ne_true]
      cases hsymbol : m.symbol with
      | none => simp
      | some name =>
          simp only [Option.map_some, ne_eq, Option.some.injEq, Scope.inside_eq_self_iff, not_not,
            exists_eq_left']
  | linkage hkind htag | branch hkind htag | load hkind htag =>
      rw [hkind]
      exact iff_of_true rfl (.inl (by rw [htag]; rfl))
  | distance hkind | address hkind | offset hkind =>
      rw [hkind]
      exact iff_of_true rfl trivial
  | @constant _ value hkind =>
      rw [hkind]
      dsimp only
      rw [bne_iff_ne, ne_eq, Expr.mapSymbols_localized_eq_self_iff, not_not]
  | other hmemory haddress hdistance hoffset himmediate =>
      refine iff_of_false Bool.false_ne_true ?_
      cases hkind : o.kind with
      | memory m => exact (hmemory m hkind).elim
      | gotDistance anchor => exact (hdistance anchor hkind).elim
      | gotAddress => exact (haddress hkind).elim
      | gotOffset symbol fromTable => exact (hoffset symbol fromTable hkind).elim
      | immediate sigil value => exact (himmediate sigil value hkind).elim
      | _ => exact not_false

/-- The last operand that plays a role is a load from the table, and changes. -/
lemma changed_of_last (h : OperandSealed scope insn i o change) (hlast : change.last = true) :
    change.changed = true := by
  cases h with
  | load => rfl
  | _ => cases hlast

/-- One of some operands that are sealed in turn changes if it is one that does: the operands after
the last that plays a role are not needed to tell. -/
lemma any_changed_iff {k : ℕ} {os : List Operand} {changes : List OperandChange}
    (h : OperandsSealed scope insn k os changes) :
    changes.any (·.changed) = true ↔ ∃ o ∈ os, Touched scope o := by
  induction h with
  | nil => simp
  | last hsealed hlast =>
      have hchanged := changed_of_last hsealed hlast
      refine iff_of_true (by simp [hchanged]) ?_
      exact ⟨_, List.mem_cons_self, (changed_iff_touched hsealed).mp hchanged⟩
  | cons hsealed _ _ ih =>
      rw [List.any_cons, Bool.or_eq_true, ih, changed_iff_touched hsealed, List.exists_mem_cons_iff]

lemma copiedUnless_of_sealInstruction {s : Statement} {e : Emission}
    (h : sealInstruction scope s insn = .ok e) :
    CopiedUnless (∃ o ∈ insn.operands, Touched scope o) s e := by
  obtain ⟨changes, hsealed, ⟨hany, rfl⟩ | ⟨hany, rfl⟩⟩ := sealInstruction_eq_ok h
  · exact copiedUnless_copy (by rw [← any_changed_iff hsealed, hany]; exact Bool.false_ne_true)
  · exact copiedUnless_replace ((any_changed_iff hsealed).mp hany)

end X86

namespace Arm

variable {scope : Scope} {insn : Instruction} {i : ℕ} {o : Operand} {s : Statement} {e : Emission}

lemma changed_sealMemory_iff {mnemonic : String} {m : MemoryRef} {operand : Line.Operand}
    {changed : Bool} {helpers : List Helper} (hkind : o.kind = .memory m)
    (h : sealMemory scope mnemonic o m = .keep operand changed helpers) :
    changed = true ↔ Touched scope mnemonic o := by
  unfold Touched
  rw [hkind]
  cases h
  dsimp only
  rw [bne_iff_ne]
  cases hsymbol : m.symbol with
  | none => simp
  | some name =>
      simp only [Option.map_some, ne_eq, Option.some.injEq, exists_eq_left']
      by_cases hbranch : isBranch mnemonic = true
      · rw [if_pos hbranch, Scope.branchTarget_eq_self_iff, not_not, and_iff_right hbranch]
      · have hinside : ¬ (isBranch mnemonic = true ∧ scope.isExternal name = true) :=
          fun h => hbranch h.1
        rw [if_neg hbranch, Scope.inside_eq_self_iff, not_not, or_iff_right hinside]

/-- Whether an operand is a change exactly if it is one that changes.  Lines in the place of the
whole instruction come only of one that does. -/
def OperandChange.Follows (scope : Scope) (mnemonic : String) (o : Operand) :
    OperandChange → Prop
  | .keep _ changed _ => changed = true ↔ Touched scope mnemonic o
  | .replace _ => Touched scope mnemonic o

lemma follows_sealIndexed {mnemonic : String} {operands : List Operand} {x : Indexed}
    {change : OperandChange} (hkind : o.kind = .indexed x)
    (h : sealIndexed mnemonic operands o x = .ok change) : change.Follows scope mnemonic o := by
  have htouched : Touched scope mnemonic o ↔ ∃ r, x.rest = some (.relocation r) := by
    rw [Touched, hkind]
  unfold sealIndexed at h
  split at h
  · next r hrest =>
      have hrelocation := htouched.mpr ⟨r, hrest⟩
      split at h
      · split at h
        · cases h
        · split at h
          · cases h
          · cases h
            exact hrelocation
      · split at h
        · cases h
          exact iff_of_true rfl hrelocation
        · cases h
  · next hrest =>
      cases h
      exact iff_of_false Bool.false_ne_true fun htouch => by
        obtain ⟨r, hr⟩ := htouched.mp htouch
        exact hrest r hr

/-- The rest of an address that is added to a register is never written as it stands. -/
lemma follows_sealRelocation {mnemonic : String} {r : Relocation} {change : OperandChange}
    (hkind : o.kind = .relocation r) (h : sealRelocation mnemonic insn i o r = .ok change) :
    change.Follows scope mnemonic o := by
  have htouched : Touched scope mnemonic o := by
    rw [Touched, hkind]
    trivial
  cases change with
  | replace lines => exact htouched
  | keep operand changed helpers =>
      refine iff_of_true ?_ htouched
      unfold sealRelocation at h
      split at h
      · split at h
        · obtain ⟨target, -, h⟩ := Outcome.bind_eq_ok_iff.mp h
          obtain ⟨source, -, h⟩ := Outcome.bind_eq_ok_iff.mp h
          split at h
          · cases h
          · cases h
            rfl
        · cases h
      · cases h

lemma follows_of_sealOperand {change : OperandChange}
    (h : sealOperand scope insn i o = .ok change) :
    change.Follows scope insn.mnemonic.toLower o := by
  unfold sealOperand at h
  dsimp only at h
  split at h
  · next m hkind =>
      cases h
      exact changed_sealMemory_iff hkind rfl
  · next x hkind => exact follows_sealIndexed hkind h
  · next r hkind => exact follows_sealRelocation hkind h
  · next sigil value hkind =>
      cases h
      rw [OperandChange.Follows, Touched, hkind]
      dsimp only
      rw [bne_iff_ne, ne_eq, Expr.mapSymbols_localized_eq_self_iff, not_not]
  · next hmemory hindexed hrelocation himmediate =>
      -- operands of other kinds have no symbols
      cases h
      refine iff_of_false Bool.false_ne_true ?_
      unfold Touched
      cases hkind : o.kind with
      | memory m => exact (hmemory m hkind).elim
      | indexed x => exact (hindexed x hkind).elim
      | relocation r => exact (hrelocation r hkind).elim
      | immediate sigil value => exact (himmediate sigil value hkind).elim
      | _ => exact not_false

/-- An instruction is copied unless one of its operands changes, the first of which have been
sealed already. -/
lemma copiedUnless_of_sealFrom {written : List Line.Operand} {b : Bool} {helpers : List Helper}
    {os : List Operand} (h : sealFrom scope s insn written b helpers i os = .ok e) :
    CopiedUnless (b = true ∨ ∃ o ∈ os, Touched scope insn.mnemonic.toLower o) s e := by
  induction os generalizing i written b helpers with
  | nil =>
      rw [sealFrom] at h
      cases h
      cases b with
      | false => exact copiedUnless_copy (by simp)
      | true => exact copiedUnless_replace (.inl rfl)
  | cons o os ih =>
      rw [sealFrom] at h
      obtain ⟨change, hchange, h⟩ := Outcome.bind_eq_ok_iff.mp h
      have htouched := follows_of_sealOperand hchange
      cases change with
      | replace lines =>
          cases h
          exact copiedUnless_replace (.inr ⟨o, List.mem_cons_self, htouched⟩)
      | keep operand changed more =>
          have hchanged : changed = true ↔ Touched scope insn.mnemonic.toLower o := htouched
          have hrest := ih h
          rwa [Bool.or_eq_true, hchanged, or_assoc, ← List.exists_mem_cons_iff] at hrest

lemma copiedUnless_of_pageAddress {p : Prop} (hp : p) (h : pageAddress scope s insn = .ok e) :
    CopiedUnless p s e := by
  obtain ⟨_, _, _, _, _, -, -, -, ⟨-, rfl⟩ | ⟨-, rfl⟩⟩ := pageAddress_eq_ok h
  · exact copiedUnless_replace hp
  · exact copiedUnless_replace hp

lemma copiedUnless_of_sealInstruction (h : sealInstruction scope s insn = .ok e) :
    CopiedUnless (insn.mnemonic.toLower ∉ symbolFree ∧ (insn.mnemonic.toLower = "adrp" ∨
      ∃ o ∈ insn.operands, Touched scope insn.mnemonic.toLower o)) s e := by
  unfold sealInstruction at h
  dsimp only at h
  split at h
  · next hfree =>
      cases h
      exact copiedUnless_copy fun hp => hp.1 hfree
  · next hfree =>
      split at h
      · next hpage => exact copiedUnless_of_pageAddress ⟨hfree, .inl hpage⟩ h
      · next hpage =>
          have hrest := copiedUnless_of_sealFrom h
          rw [or_iff_right Bool.false_ne_true] at hrest
          rwa [and_iff_right hfree, or_iff_right hpage]

end Arm

/-! ### Statements -/

namespace Statement

variable {arch : Arch} {scope : Scope} {inBss : Bool} {s : Statement} {e : Emission}

lemma copiedUnless_sealData (directive : String) (arguments : List Expr) :
    CopiedUnless (0 < scope.index ∧
      ∃ e ∈ arguments, ∃ a ∈ e.symbols, Symbol.isDotLocal a = true) s
      (sealData scope s directive arguments) := by
  have hmapped : arguments.map (Expr.mapSymbols scope.localized) = arguments ↔
      ¬ (0 < scope.index ∧ ∃ e ∈ arguments, ∃ a ∈ e.symbols, Symbol.isDotLocal a = true) := by
    have hself :=
      List.map_inj_left (l := arguments) (f := Expr.mapSymbols scope.localized) (g := id)
    rw [List.map_id] at hself
    simp only [hself, id_eq, Expr.mapSymbols_localized_eq_self_iff, Scope.Renumbers]
    grind
  rw [sealData]
  split
  · next h => exact copiedUnless_copy (hmapped.mp h)
  · next h => exact copiedUnless_replace (not_not.mp (mt hmapped.mpr h))

/-- A directive that binds a public symbol binds its alias as well. -/
lemma copiedUnless_sealBinding {directive name : String} {value : Expr}
    (hdefines : Symbol.isDotLocal name = false → scope.defines name = true) :
    CopiedUnless (Symbol.isDotLocal name = false ∨ 0 < scope.index ∧
      (Symbol.isDotLocal name = true ∨ ∃ a ∈ value.symbols, Symbol.isDotLocal a = true)) s
      (sealBinding scope s directive name value) := by
  -- the binding is kept exactly if no local name in it is renumbered
  have hkept : scope.localized name = name ∧ value.mapSymbols scope.localized = value ↔
      ¬ (0 < scope.index ∧
        (Symbol.isDotLocal name = true ∨ ∃ a ∈ value.symbols, Symbol.isDotLocal a = true)) := by
    simp only [Scope.localized_eq_self_iff, Expr.mapSymbols_localized_eq_self_iff, Scope.Renumbers]
    grind
  cases hlocal : Symbol.isDotLocal name with
  | false =>
      refine .inr ⟨.inl rfl, ?_⟩
      simp only [sealBinding, hlocal, hdefines hlocal, Bool.not_false, Bool.and_self, if_true]
      split
      · exact .after (by simp [Line.column, Line.text])
      · exact .quoted
  | true =>
      rw [hlocal] at hkept
      rw [or_iff_right (show ¬ true = false by decide)]
      have hown : sealBinding scope s directive name value =
          if scope.localized name = name ∧ value.mapSymbols scope.localized = value then .copy s
          else .replace s [.column directive [scope.localized name,
            (value.mapSymbols scope.localized).display]] := by
        simp [sealBinding, hlocal]
      rw [hown]
      split
      · next h => exact copiedUnless_copy (hkept.mp h)
      · next h => exact copiedUnless_replace (not_not.mp (mt hkept.mpr h))

lemma copiedUnless_of_sealCommon {directive arguments : String}
    (h : sealCommon scope s directive arguments = .ok e) :
    CopiedUnless (0 < scope.index ∧ ∃ p, (Piece.split arguments.toList).head? = some p ∧
      Symbol.isDotLocal (String.ofList p.text) = true) s e := by
  unfold sealCommon at h
  split at h
  · cases h
  · next p hp =>
      have hkept : scope.localized (String.ofList p.text) = String.ofList p.text ↔
          ¬ (0 < scope.index ∧ ∃ p, (Piece.split arguments.toList).head? = some p ∧
            Symbol.isDotLocal (String.ofList p.text) = true) := by
        rw [Scope.localized_eq_self_iff, Scope.Renumbers, (Option.filter_eq_some_iff.mp hp).1]
        simp only [Option.some.injEq, exists_eq_left']
      cases h
      dsimp only
      split
      · next heq => exact copiedUnless_copy (hkept.mp heq)
      · next hne => exact copiedUnless_replace (not_not.mp (mt hkept.mpr hne))

lemma copiedUnless_of_sealSection {arguments : String} (h : sealSection s arguments = .ok e) :
    CopiedUnless (Section.HoldsCode arguments) s e := by
  rcases sealSection_eq_ok h with ⟨hholds, rfl⟩ | ⟨hother, rfl⟩
  · exact copiedUnless_replace hholds
  · exact copiedUnless_copy hother

lemma copiedUnless_of_sealDirective {directive arguments : String}
    (h : sealDirective scope s directive arguments = .ok e) :
    CopiedUnless (directive.toLower ∈ [".comm", ".lcomm"] ∧ 0 < scope.index ∧
        (∃ p, (Piece.split arguments.toList).head? = some p ∧
          Symbol.isDotLocal (String.ofList p.text) = true) ∨
      directive.toLower = ".section" ∧ (Section.Extends ".rodata" (Section.name arguments) ∨
        Section.Extends ".text" (Section.name arguments))) s e := by
  unfold sealDirective at h
  dsimp only at h
  split at h
  · next hcommon =>
      have hsection : directive.toLower ≠ ".section" := by
        rcases hcommon with hlower | hlower <;> simp [hlower]
      have hmem : directive.toLower ∈ [".comm", ".lcomm"] := by simpa using hcommon
      rw [and_iff_right hmem, or_iff_left fun h => hsection h.1]
      exact copiedUnless_of_sealCommon h
  · next hcommon =>
      have hmem : directive.toLower ∉ [".comm", ".lcomm"] := by simpa using hcommon
      rw [or_iff_right fun h => hmem h.1]
      split at h
      · cases h
      · split at h
        · next hsection =>
            rw [and_iff_right hsection]
            exact copiedUnless_of_sealSection h
        · next hsection =>
            cases h
            exact copiedUnless_copy fun hp => hsection hp.1

/-- A local label has its new name in the place of its name, or of the same name in a comment before
it. -/
lemma copiedUnless_sealLabel_dotLocal {name : String}
    (h : Shape arch s.text.toList (.label (.dotLocal name))) :
    CopiedUnless (0 < scope.index) s (sealLabel scope s (.dotLocal name)) := by
  obtain ⟨lead, hlead, hname, -, htext⟩ := exists_of_shape_dotLocal h
  have hput := toList_replaceFirst_label (Symbol.renamed name scope.index) hlead hname htext
  have hsame : Text.replaceFirst name (Symbol.renamed name scope.index) s.text = s.text ↔
      Symbol.renamed name scope.index = name := by
    rw [← String.toList_inj, ← String.toList_inj, htext]
    rcases hput with ⟨-, hput⟩ | ⟨-, a, c, hsplit, hput⟩
    · rw [hput]
      simp
    · rw [hput, hsplit]
      simp
  rcases Nat.eq_zero_or_pos scope.index with hzero | hpos
  · refine .inl ⟨by omega, ?_⟩
    rw [sealLabel, hsame.mpr (by rw [hzero, Symbol.renamed_zero])]
  · exact .inr ⟨hpos, .other (mt hsame.mp (Symbol.renamed_ne hpos.ne' name))⟩

lemma copiedUnless_of_sealCode
    (hshape : ∀ name, s.kind = .label (.dotLocal name) → Shape arch s.text.toList s.kind)
    (hdefines : ∀ name, s.publicName? = some name → scope.defines name = true)
    (h : sealCode arch scope s = .ok e) : CopiedUnless (s.Touched arch scope) s e := by
  unfold Touched
  unfold sealCode at h
  cases hkind : s.kind with
  | blank | comment | visibility | lineInfo =>
      rw [hkind] at h
      cases h
      exact copiedUnless_copy not_false
  | symbolic directive arguments =>
      rw [hkind] at h
      cases h
      exact copiedUnless_sealData directive arguments
  | binding directive name value =>
      rw [hkind] at h
      cases h
      exact copiedUnless_sealBinding fun hpublic =>
        hdefines name (by simp [publicName?, hkind, hpublic])
  | directive directive arguments =>
      rw [hkind] at h
      exact copiedUnless_of_sealDirective h
  | label label =>
      rw [hkind] at h
      cases h
      cases label with
      | symbol name => exact .inr ⟨trivial, .before (by simp [Line.text])⟩
      | dotLocal name => exact copiedUnless_sealLabel_dotLocal (hkind ▸ hshape name hkind)
      | numeric name => exact copiedUnless_copy not_false
  | instruction insn =>
      rw [hkind] at h
      cases arch with
      | x86_64 => exact X86.copiedUnless_of_sealInstruction h
      | aarch64 => exact Arm.copiedUnless_of_sealInstruction h

/-- A statement is copied, or is altered if it is one that changes. -/
lemma copiedUnless_of_emission
    (hshape : ∀ name, s.kind = .label (.dotLocal name) → Shape arch s.text.toList s.kind)
    (hdefines : ∀ name, s.publicName? = some name → scope.defines name = true)
    (h : s.emission arch scope inBss = .ok e) : CopiedUnless (s.Touched arch scope) s e := by
  unfold emission at h
  split at h
  · next name hkind =>
      cases h
      refine .inr ⟨?_, .opened⟩
      rw [Touched, hkind]
      trivial
  · cases h
  · exact copiedUnless_of_sealCode hshape hdefines h

lemma not_touched_of_not_live (h : s.kind.isLive = false) : ¬ s.Touched arch scope := by
  unfold Touched
  cases hkind : s.kind with
  | blank | comment => exact not_false
  | _ =>
      rw [hkind] at h
      cases h

end Statement

/-! ### Modules -/

namespace CodeModule

variable {m : CodeModule} {r : Sealed}

/-- The text that is written for a statement of a module that is sealed is the statement's own
exactly if the statement is none that changes. -/
theorem sealed_copied_iff (h : m.sealed = .ok r) : ∃ files symbols emissions,
    SealedFrom m r files symbols emissions ∧
      ∀ file ∈ files, ∀ s ∈ file.statements, ∀ inBss e,
        s.emission r.arch ⟨symbols, m.marker, file.index⟩ inBss = .ok e →
          ∀ before : Output, (before.addAll r.arch e.chunks).text = before.text ++ s.text ↔
            ¬ s.Touched r.arch ⟨symbols, m.marker, file.index⟩ := by
  obtain ⟨files, symbols, emissions, hfrom⟩ := exists_sealedFrom h
  refine ⟨files, symbols, emissions, hfrom, fun file hf s hs inBss e he before => ?_⟩
  obtain ⟨input, -, hparse⟩ := exists_parse_of_readFrom hfrom.read hf
  have hdefines (name : String) (hname : s.publicName? = some name) :
      Scope.defines ⟨symbols, m.marker, file.index⟩ name = true :=
    (SymbolTable.contains_iff_of_ofFiles hfrom.defined).mpr ⟨file, hf, s, hs, hname⟩
  have hcopied := Statement.copiedUnless_of_emission
    (fun name hkind => hkind ▸ Statement.shape_of_label hparse hs hkind) hdefines he
  rcases hcopied with ⟨hkeeps, hchunks⟩ | ⟨htouched, haltered⟩
  · rw [hchunks]
    exact iff_of_true rfl hkeeps
  · obtain ⟨c, d, hread⟩ := (Statement.parse_eq_ok_iff.mp hparse).exists_ofCursor hs
    have hlive : s.kind.isLive = true := by
      by_contra hblank
      exact Statement.not_touched_of_not_live (by simpa using hblank) htouched
    exact iff_of_false (haltered.text_ne (Statement.text_ne_of_live hread hlive) before)
      (not_not.mpr htouched)

/-- A file with a symbol, and another with a local label, a jump to it and an instruction without
symbols. -/
theorem sealed_copied_iff_jump :
    let m := together ["f:\n", ".L1:\n\tjmp .L1\n\tnop\n"]
    ∃ r files symbols emissions, m.sealed = .ok r ∧ SealedFrom m r files symbols emissions ∧
      files.map (fun file => (file.index, file.statements.map Statement.text)) =
        [(0, ["f:", "\n"]), (1, [".L1:", "\n", "\tjmp .L1\n", "\tnop\n"])] ∧
      ∀ file ∈ files, ∀ s ∈ file.statements, ∀ inBss e,
        s.emission r.arch ⟨symbols, m.marker, file.index⟩ inBss = .ok e →
          ∀ before : Output, (before.addAll r.arch e.chunks).text = before.text ++ s.text ↔
            ¬ s.Touched r.arch ⟨symbols, m.marker, file.index⟩ := by
  intro m
  have hsealable : Sealable ["f:\n", ".L1:\n\tjmp .L1\n\tnop\n"] (fun files =>
      files.map (fun file => (file.index, file.statements.map Statement.text)) =
        [(0, ["f:", "\n"]), (1, [".L1:", "\n", "\tjmp .L1\n", "\tnop\n"])]) = true := by
    decide +kernel
  obtain ⟨r, files, h, hread, htexts⟩ := exists_sealed_of_sealable hsealable
  obtain ⟨files', symbols, emissions, hfrom, hcopied⟩ := sealed_copied_iff h
  obtain rfl : files = files' := Except.ok.inj (hread.symm.trans hfrom.read)
  exact ⟨r, files, symbols, emissions, h, hfrom, of_decide_eq_true htexts, hcopied⟩

end CodeModule

end Hermetic

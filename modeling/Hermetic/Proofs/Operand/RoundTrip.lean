/-
Operands of either architecture are read back from how they are written.

* `Statement.readsBack_operand`, `Statement.readsBack_withSymbol`,
  `Statement.readsBack_withConstant`: an operand as it is, with another name in the place of its
  symbol, and with other local names in its constant;
* `Statement.operand_roundTrip`: all of them.
-/
import Hermetic.Proofs.Operand.RoundTrip.Arm

namespace Hermetic

namespace Statement

variable {arch : Arch} {l : List Char} {o : Operand}

/-- An operand is written as it was read, but for blanks, and is read back from that. -/
lemma readsBack_operand (htrimmed : Text.trim l = l) (h : operand arch l = .ok o) :
    Text.squeezed o.display.toList = Text.squeezed l ∧ ReadsBack arch o := by
  have htrimmed : X86.Trimmed l := htrimmed ▸ X86.trimmed_trim l
  cases arch with
  | x86_64 =>
      obtain ⟨hk, hlast, hds, -, hsqueezed⟩ := X86.parts_of_operand h htrimmed
      exact ⟨hsqueezed, X86.readsBack_withKind (o := o) hk hlast hds⟩
  | aarch64 =>
      obtain ⟨k, hk, rfl⟩ := Arm.operand_eq_ok_iff.mp h
      obtain ⟨hsqueezed, hread⟩ := Arm.display_of_kind hk htrimmed.last
      have hback := Arm.readsBack_withKind h hread
      rw [Operand.withKind] at hback
      refine ⟨?_, hback⟩
      simpa [Operand.display] using hsqueezed

/-- An operand is read back from how it is written with another name in the place of the symbol of
its reference. -/
lemma readsBack_withSymbol (htrimmed : Text.trim l = l) (h : operand arch l = .ok o)
    {m : MemoryRef} {s t : String} (hkind : o.kind = .memory m) (hs : m.symbol = some s)
    (ht : Symbol.Renames s t) :
    ReadsBack arch (o.withKind (.memory { m with symbol := some t })) := by
  have htrimmed : X86.Trimmed l := htrimmed ▸ X86.trimmed_trim l
  cases arch with
  | x86_64 =>
      obtain ⟨hk, hlast, -, hgroups, -⟩ := X86.parts_of_operand h htrimmed
      rw [hkind] at hk hlast
      obtain ⟨hspelled, -⟩ := X86.spelled_of_kind hk hlast
      have hisName : IsName t := ht.isName (hspelled.symbol s hs)
      have hnew := hspelled.withSymbol (f := fun _ => t) fun _ _ => hisName
      rw [hs, Option.map_some] at hnew
      exact X86.readsBack_withMemory hnew rfl (X86.ne_gotName_of_renames ht) hgroups
  | aarch64 =>
      obtain ⟨k, hk, rfl⟩ := Arm.operand_eq_ok_iff.mp h
      obtain rfl : k = .memory m := hkind
      exact Arm.readsBack_withKind h (Arm.kind_withSymbol hk hs ht)

/-- An operand is read back from how it is written with other local names in its constant. -/
lemma readsBack_withConstant (htrimmed : Text.trim l = l) (h : operand arch l = .ok o)
    {sigil : Option Char} {value : Expr} (hkind : o.kind = .immediate sigil value) (index : ℕ) :
    ReadsBack arch
      (o.withKind (.immediate sigil (value.mapSymbols (Symbol.localized · index)))) := by
  cases arch with
  | x86_64 => exact X86.readsBack_withImmediate h (htrimmed ▸ X86.trimmed_trim l) hkind index
  | aarch64 =>
      obtain ⟨k, hk, rfl⟩ := Arm.operand_eq_ok_iff.mp h
      obtain rfl : k = .immediate sigil value := hkind
      exact Arm.readsBack_withKind h (Arm.kind_mapSymbols hk index)

/-- An operand of either architecture, without blanks around it, is written as it was read but for
blanks.  What is written of it is read as the same kind with the same star and decorations, also
if another name takes the place of the symbol of its reference, or if the local names in its
constant are those of the file at a position. -/
theorem operand_roundTrip (htrimmed : Text.trim l = l) (h : operand arch l = .ok o) :
    Text.squeezed o.display.toList = Text.squeezed l ∧ ReadsBack arch o ∧
      (∀ m s t, o.kind = .memory m → m.symbol = some s → Symbol.Renames s t →
        ReadsBack arch (o.withKind (.memory { m with symbol := some t }))) ∧
      ∀ sigil value index, o.kind = .immediate sigil value →
        ReadsBack arch
          (o.withKind (.immediate sigil (value.mapSymbols (Symbol.localized · index)))) := by
  obtain ⟨hsqueezed, hback⟩ := readsBack_operand htrimmed h
  exact ⟨hsqueezed, hback, fun m s t hkind => readsBack_withSymbol htrimmed h hkind,
    fun sigil value index hkind => readsBack_withConstant htrimmed h hkind index⟩

/-- A reference with all of its parts and a star and decorations is read back with the name that
its local symbol has in a third file. -/
theorem operand_roundTrip_reference :
    ∃ o m, operand .x86_64 "* %fs:8+.Ltable+4@GOTPCREL-2(%rip) \x7b%k1\x7d".toList = .ok o ∧
      o.kind = .memory m ∧ m.symbol = some ".Ltable" ∧ o.indirect = true ∧
      o.decorators = "\x7b%k1\x7d" ∧
      Text.squeezed o.display.toList = "*%fs:8+.Ltable+4@GOTPCREL-2(%rip)\x7b%k1\x7d".toList ∧
      ReadsBack .x86_64 (o.withKind (.memory { m with symbol := some ".Ltable_BCM_2" })) := by
  have hread : operand .x86_64 "* %fs:8+.Ltable+4@GOTPCREL-2(%rip) \x7b%k1\x7d".toList = .ok {
      text := "* %fs:8+.Ltable+4@GOTPCREL-2(%rip) \x7b%k1\x7d"
      indirect := true
      kind := .memory {
        segment := some "%fs"
        lead := some "8"
        symbol := some ".Ltable"
        offset := "+4"
        tag := some "GOTPCREL"
        tagOffset := "-2"
        base := some .rip }
      decorators := "\x7b%k1\x7d" } := by decide +kernel
  have htrimmed : Text.trim "* %fs:8+.Ltable+4@GOTPCREL-2(%rip) \x7b%k1\x7d".toList =
      "* %fs:8+.Ltable+4@GOTPCREL-2(%rip) \x7b%k1\x7d".toList := by decide +kernel
  have hname : ".Ltable_BCM_2" = Symbol.renamed ".Ltable" 2 := by decide +kernel
  obtain ⟨hsqueezed, -, hsymbol, -⟩ := operand_roundTrip htrimmed hread
  refine ⟨_, _, hread, rfl, rfl, rfl, rfl, hsqueezed.trans (by decide +kernel), ?_⟩
  rw [hname]
  exact hsymbol _ _ _ rfl rfl (.renamed 2 (by decide))

end Statement

end Hermetic

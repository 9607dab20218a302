/-
Operands of x86-64 that are written anew are read again.

* `X86.IsOperand`: texts that are read as an operand among others;
* `X86.isOperand_of_piece`: an operand that is copied;
* `X86.isOperand_withMemory`, `X86.isOperand_withImmediate`: an operand whose symbols are
  exchanged;
* `X86.isOperand_register`, `X86.isOperand_symbol`, `X86.isOperand_ripRelative`,
  `X86.isOperand_ofRegister`: operands that are put together.
-/
import Hermetic.Line
import Hermetic.Proofs.Operand.X86

namespace Hermetic.X86

open Scan

/-- Texts that are read as an operand among others. -/
structure IsOperand (l : List Char) : Prop where
  whole : Whole .x86_64 false l
  trimmed : Trimmed l
  given : l ≠ []
  read : ∃ o, operand l = .ok o

variable {l : List Char} {m : MemoryRef} {o : Operand}

/-- The star in front of an operand. -/
def star (indirect : Bool) : List Char :=
  if indirect then ['*'] else []

lemma whole_star_append (indirect : Bool) :
    Whole .x86_64 false (star indirect ++ l) ↔ Whole .x86_64 false l := by
  cases indirect <;> exact Iff.rfl

lemma direct_star_append (indirect : Bool) {ch : Char} (hhead : l.head? = some ch)
    (hstar : ch ≠ '*') (hblank : Text.isBlank ch = false) (r : List Char) :
    direct (star indirect ++ (l ++ r)) = l ++ r := by
  obtain ⟨l, rfl⟩ := List.head?_eq_some_iff.mp hhead
  cases indirect with
  | false => exact direct_of_head fun h => hstar (Option.some.inj h)
  | true => exact List.dropWhile_cons_of_neg (by simp [hblank])

lemma direct_star_dollar (indirect : Bool) (v : List Char) :
    direct (star indirect ++ '$' :: v) = '$' :: v :=
  direct_star_append (l := ['$']) indirect rfl (by decide) (by decide) v

/-! ### Copied operands -/

/-- An operand that is copied. -/
lemma isOperand_of_piece {args : List Char} (hargs : Whole .x86_64 true args) {p : Piece}
    (hp : p ∈ Piece.split args) (hne : p.text ≠ []) (h : operand p.text = .ok o) :
    IsOperand o.text.toList := by
  obtain ⟨cut, -, htext⟩ := Piece.text_mem_ofCuts (Piece.mem_ofCuts_of_mem_split hp)
  have htrimmed : Trimmed p.text := by
    rw [htext]
    exact trimmed_trim cut
  have htoList : o.text.toList = p.text := by
    obtain ⟨k, -, rfl⟩ := operand_eq_ok_iff.mp h
    exact String.toList_ofList
  rw [htoList]
  exact ⟨Piece.whole_of_mem_split hargs hp, htrimmed, hne, o, h⟩

/-! ### References -/

/-- The parts of a reference before its bracketed part are not empty, unless that is given. -/
lemma ne_nil_of_base_none (h : Spelled m) (hbase : m.base = none) :
    leadText m ++ symbolText m ≠ [] := by
  intro hnil
  simp only [symbolText, List.append_eq_nil_iff] at hnil
  rcases h.given with hg | hg | hg
  · obtain ⟨s, hs⟩ := Option.isSome_iff_exists.mp hg
    obtain ⟨ch, r, hname, -⟩ := exists_cons_of_isSymbolName (h.symbol s hs)
    rw [hs, Option.getD_some, hname] at hnil
    cases hnil.2.1
  · rw [hbase] at hg
    cases hg
  · exact hg (String.toList_eq_nil_iff.mp hnil.2.2.1)

/-- How a reference starts. -/
lemma exists_cons_display (h : Spelled m) : ∃ ch r, m.display.toList = ch :: r ∧
    (ch = '%' ∧ m.segment.isSome = true ∨ isSymbolChar ch = true ∨ ch = '+' ∨ ch = '-' ∨ ch = '@' ∨
      ch = '(') := by
  rw [toList_display, ← List.append_assoc (leadText m)]
  -- by the first part that has a text
  cases hsegment : m.segment with
  | some s =>
      obtain ⟨name, hname, -⟩ := h.segment s hsegment
      have htext : segmentText m = '%' :: (name ++ [':']) := by
        simp [segmentText, hsegment, hname]
      rw [htext]
      exact ⟨_, _, rfl, .inl ⟨rfl, rfl⟩⟩
  | none =>
      have hnil : segmentText m = [] := by simp [segmentText, hsegment]
      rw [hnil, List.nil_append]
      cases hfront : leadText m ++ symbolText m with
      | cons ch r =>
          refine ⟨ch, r ++ baseText m, rfl, .inr ?_⟩
          rcases forall_mem_leadText_append h.toDisplaced ch (by rw [hfront]; simp) with
            hch | hch | hch | hch <;> simp [hch]
      | nil =>
          cases hbase : m.base with
          | some b =>
              obtain ⟨inner, hb, -⟩ := h.base b hbase
              have htext : baseText m = '(' :: (inner ++ [')']) := by
                simp [baseText, hbase, hb]
              rw [htext]
              exact ⟨_, _, rfl, by simp⟩
          | none => exact (ne_nil_of_base_none h hbase hfront).elim

/-- How a reference ends. -/
lemma exists_getLast?_display (h : Spelled m) : ∃ ch, m.display.toList.getLast? = some ch ∧
    (isSymbolChar ch = true ∨ ch = '+' ∨ ch = '-' ∨ ch = '@' ∨ ch = ')') := by
  rw [toList_display, ← List.append_assoc (leadText m)]
  cases hbase : m.base with
  | some b =>
      obtain ⟨inner, hb, -⟩ := h.base b hbase
      refine ⟨')', ?_, by simp⟩
      have htext : baseText m = ('(' :: inner) ++ [')'] := by
        simp [baseText, hbase, hb]
      rw [htext, ← List.append_assoc, ← List.append_assoc, List.getLast?_concat]
  | none =>
      have hnil : baseText m = [] := by simp [baseText, hbase]
      have hne := ne_nil_of_base_none h hbase
      rw [hnil, List.append_nil, List.getLast?_append_of_ne_nil _ hne]
      refine ⟨_, List.getLast?_eq_some_getLast hne, ?_⟩
      rcases forall_mem_leadText_append h.toDisplaced _ (List.getLast_mem hne) with
        hch | hch | hch | hch <;> simp [hch]

/-- A reference starts neither with a star nor with a blank. -/
lemma exists_head?_display (h : Spelled m) :
    ∃ ch, m.display.toList.head? = some ch ∧ ch ≠ '*' ∧ Text.isBlank ch = false := by
  obtain ⟨ch, r, htext, hch⟩ := exists_cons_display h
  refine ⟨ch, by rw [htext]; rfl, ?_⟩
  rcases hch with ⟨rfl, -⟩ | hsymbol | rfl | rfl | rfl | rfl
  case inr.inl =>
    refine ⟨?_, by simpa using not_isBlank_of_isSymbolChar hsymbol⟩
    rintro rfl
    exact absurd hsymbol (by decide)
  all_goals decide

lemma not_isBlank_getLast?_display (h : Spelled m) :
    ∀ ch, m.display.toList.getLast? = some ch → Text.isBlank ch = false := by
  intro ch hch
  obtain ⟨last, hlast, hlastChar⟩ := exists_getLast?_display h
  obtain rfl : last = ch := Option.some.inj (hlast.symm.trans hch)
  rcases hlastChar with hsymbol | rfl | rfl | rfl | rfl
  · simpa using not_isBlank_of_isSymbolChar hsymbol
  all_goals decide

lemma Groups.getLast? {ds : List Char} (h : Groups ds) : ds = [] ∨ ds.getLast? = some '}' := by
  induction h with
  | nil => exact .inl rfl
  | @cons x ds _ _ ih =>
      refine .inr ?_
      rcases ih with rfl | hlast
      · have hconcat : '{' :: (x ++ ['}']) = ('{' :: x) ++ ['}'] := rfl
        rw [hconcat, List.getLast?_concat]
      · have hparts : '{' :: (x ++ '}' :: ds) = ('{' :: x ++ ['}']) ++ ds := by simp
        rw [hparts, List.getLast?_append, hlast]
        rfl

/-- A reference does not start as a constant does. -/
lemma head?_display_ne_dollar (h : Spelled m) : m.display.toList.head? ≠ some '$' := by
  have hoffset {s : String} (hs : Offset.IsOffset s.toList) (hne : s.toList ≠ [])
      (r : List Char) : (s.toList ++ r).head? ≠ some '$' := by
    obtain ⟨ch, l, hl⟩ := List.exists_cons_of_ne_nil hne
    rw [hl]
    rintro hdollar
    obtain rfl : ch = '$' := Option.some.inj hdollar
    rcases hs.forall_mem '$' (by rw [hl]; exact List.mem_cons_self) with hch | hch | hch
    all_goals exact absurd hch (by decide)
  rw [toList_display]
  -- by the first part that is there: segment, number, symbol, offset or base
  cases hsegment : m.segment with
  | some s =>
      obtain ⟨name, hname, -⟩ := h.segment s hsegment
      rw [segmentText, hsegment]
      simp [hname]
  | none =>
      rw [segmentText, hsegment, leadText, List.nil_append]
      cases hlead : m.lead with
      | some s =>
          obtain ⟨hs, hne, -⟩ := h.lead s hlead
          dsimp only
          rw [List.append_assoc]
          exact hoffset hs hne _
      | none =>
          rw [List.nil_append, symbolText]
          cases hsymbol : m.symbol with
          | some s =>
              obtain ⟨ch, r, hname, hstart, -⟩ := exists_cons_of_isSymbolName (h.symbol s hsymbol)
              rw [Option.getD_some, hname]
              rintro hdollar
              obtain rfl : ch = '$' := Option.some.inj hdollar
              exact absurd hstart (by decide)
          | none =>
              by_cases hne : m.offset.toList = []
              · have htag : m.tag = none := by
                  cases htag : m.tag with
                  | none => rfl
                  | some t => exact absurd (h.tag t htag).1 (by simp [hsymbol])
                rw [hne, tagText, htag]
                intro hdollar
                exact absurd (bracketed_baseText h _ hdollar) (by decide)
              · rw [Option.getD_none, List.append_assoc, List.append_assoc]
                exact hoffset h.offset hne _

/-- What a reference is read as, when it is not known whether it is one to memory. -/
lemma kind_display (h : Spelled m) : kind m.display.toList =
    if m.display.toList = (gotName ++ "(%rip)").toList then .ok .gotAddress
    else if isNumericReference m.display.toList then .ok (.localLabel m.display)
    else .ok (.memory m) := by
  obtain ⟨ch, r, htext, hch⟩ := exists_cons_display h
  -- a reference that starts like a register has a segment
  have hsegment : ¬ (m.display.toList.head? = some '%' ∧ hasSegment m.display.toList = false) := by
    rintro ⟨hhead, hnot⟩
    rw [htext] at hhead
    obtain rfl : ch = '%' := Option.some.inj hhead
    rcases hch with ⟨-, hsome⟩ | hch
    · obtain ⟨s, hs⟩ := Option.isSome_iff_exists.mp hsome
      obtain ⟨name, hname, hne, hchars⟩ := h.segment s hs
      have hdisplay : m.display.toList =
          '%' :: (name ++ ':' :: (leadText m ++ (symbolText m ++ baseText m))) := by
        rw [toList_display]
        simp [segmentText, hs, hname]
      have hstop : ∀ d, (':' :: (leadText m ++ (symbolText m ++ baseText m))).head? =
          some d → Char.isAlpha d = false := by
        intro d hd
        cases hd
        rfl
      rw [hdisplay, hasSegment, takeWhile_append_of_stop hchars hstop,
        dropWhile_append_of_stop hchars hstop] at hnot
      simp [hne] at hnot
    · revert hch
      decide
  unfold kind
  split
  · next heq =>
      exfalso
      rw [heq] at htext
      obtain rfl : '{' = ch := (List.cons.inj htext).1
      rcases hch with ⟨hch, -⟩ | hch
      · exact absurd hch (by decide)
      · revert hch
        decide
  · next heq => exact (head?_display_ne_dollar h (by rw [heq]; rfl)).elim
  · rw [if_neg hsegment, memoryRef_display h, String.ofList_toList]
    rfl

lemma exists_kind_display (h : Spelled m) : ∃ k, kind m.display.toList = .ok k := by
  rw [kind_display h]
  split
  · exact ⟨_, rfl⟩
  · split <;> exact ⟨_, rfl⟩

/-- The decorations after a reference are taken off it. -/
lemma undecorated_display (h : Spelled m) {ds : List Char} (hds : Groups ds) :
    undecorated (m.display.toList ++ ds) = (m.display.toList, ds) := by
  obtain ⟨ch, r, htext, hch⟩ := exists_cons_display h
  obtain ⟨last, hlast, hlastChar⟩ := exists_getLast?_display h
  have hblank := not_isBlank_getLast?_display h last hlast
  have hpeel : peel [] (m.display.toList ++ ds).reverse = (m.display.toList.reverse, ds) := by
    rw [peel_groups hds hlast hblank, List.append_nil]
    refine peel_of_head ?_
    rw [List.head?_reverse, hlast]
    rintro hbrace
    obtain rfl : last = '}' := by simpa using hbrace
    revert hlastChar
    decide
  unfold undecorated
  split
  · next heq =>
      exfalso
      rw [htext, List.cons_append] at heq
      obtain rfl : ch = '{' := (List.cons.inj heq).1
      rcases hch with ⟨hch, -⟩ | hch
      · exact absurd hch (by decide)
      · revert hch
        decide
  · rw [hpeel]
    simp

/-- A reference that is put together is read, with a star before it and decorations after it. -/
lemma isOperand_reference (h : Spelled m) (hline : '\n' ∉ baseText m) {ds : List Char}
    (hds : Groups ds) (hwhole : Whole .x86_64 false ds) (indirect : Bool) :
    IsOperand (star indirect ++ (m.display.toList ++ ds)) := by
  obtain ⟨ch, hhead, hstar, hblank⟩ := exists_head?_display h
  -- it ends with a part of the reference, or with the brace of a decoration
  have htrimmed : Trimmed (star indirect ++ (m.display.toList ++ ds)) := by
    refine ⟨fun d hd => ?_, fun d hd => ?_⟩
    · cases indirect with
      | true =>
          cases hd
          decide
      | false =>
          rw [star, if_neg (by decide), List.nil_append, List.head?_append, hhead] at hd
          rwa [← Option.some.inj hd]
    · rw [← List.append_assoc, List.getLast?_append] at hd
      rcases hds.getLast? with rfl | hbrace
      · obtain ⟨last, hlast, -⟩ := exists_getLast?_display h
        rw [List.getLast?_append, hlast] at hd
        cases hd
        exact not_isBlank_getLast?_display h _ hlast
      · rw [hbrace] at hd
        cases hd
        decide
  have hdirect := direct_star_append indirect hhead hstar hblank ds
  have hne : m.display.toList ≠ [] := by
    intro hnil
    rw [hnil] at hhead
    cases hhead
  obtain ⟨k, hk⟩ := exists_kind_display h
  refine ⟨?_, htrimmed, by simp [hne], ?_⟩
  · rw [whole_star_append]
    obtain ⟨t, ht, hend⟩ := hwhole
    refine ⟨t, ?_, hend⟩
    rw [run_append, run_display h hline, Option.bind_some]
    exact ht
  · refine ⟨_, operand_eq_ok_iff.mpr ⟨k, ?_, rfl⟩⟩
    rw [hdirect, undecorated_display h hds]
    exact hk

/-- A reference that is put together is read. -/
lemma isOperand_display (h : Spelled m) (hline : '\n' ∉ baseText m) :
    IsOperand m.display.toList := by
  have hoperand := isOperand_reference h hline .nil Whole.nil false
  rwa [List.append_nil] at hoperand

/-! ### References to numeric labels -/

lemma isNumericReference_of_kind {text : String} (h : kind l = .ok (.localLabel text)) :
    isNumericReference l = true := by
  unfold kind at h
  split at h
  · cases h
  · next value =>
      exfalso
      obtain hvalue : immediate value = .localLabel text := by simpa using h
      unfold immediate at hvalue
      repeat' split at hvalue
      all_goals cases hvalue
  · split at h
    · cases h
    · split at h
      · assumption
      · split at h
        · split at h <;> cases h
        · obtain ⟨m, -, hm⟩ := Outcome.map_eq_ok_iff.mp h
          cases hm

lemma isDigit_of_isNumericReference {ch : Char} (h : isNumericReference (ch :: l) = true) :
    ch.isDigit = true := by
  unfold isNumericReference at h
  exact (Bool.and_eq_true_iff.mp h).1

/-- What is read as something else is no reference to a numeric label. -/
lemma not_isNumericReference_of_kind {k : Operand.Kind} (h : kind l = .ok k)
    (hk : ∀ text, k ≠ .localLabel text) : isNumericReference l = false := by
  by_contra hreference
  rw [Bool.not_eq_false] at hreference
  cases l with
  | nil => cases hreference
  | cons ch l =>
      have hdigit := isDigit_of_isNumericReference hreference
      unfold kind at h
      split at h
      · next heq =>
          cases heq
          cases hdigit
      · next heq =>
          cases heq
          cases hdigit
      · split at h
        · next hgot =>
            have hhead : (gotName ++ "(%rip)").toList.head? = some '_' := by decide
            rw [← hgot] at hhead
            cases hhead
            cases hdigit
        · cases h
          exact hk _ rfl

/-- The characters of a reference to a numeric label. -/
lemma forall_mem_of_isNumericReference (h : isNumericReference l = true) :
    ∀ ch ∈ l, ch.isDigit = true ∨ ch ∈ ['$', 'b', 'f'] := by
  cases l with
  | nil => cases h
  | cons c l =>
      have hdigit := isDigit_of_isNumericReference h
      unfold isNumericReference at h
      obtain ⟨-, h⟩ := Bool.and_eq_true_iff.mp h
      refine List.forall_mem_cons.mpr ⟨.inl hdigit, fun ch hch => ?_⟩
      split at h
      · cases h
      · next d m hreverse =>
          obtain ⟨hd, hm⟩ := Bool.and_eq_true_iff.mp h
          rw [← List.mem_reverse, hreverse] at hch
          rcases List.mem_cons.mp hch with rfl | hch
          · refine .inr ?_
            rcases Bool.or_eq_true_iff.mp hd with hd | hd <;> rw [beq_iff_eq.mp hd] <;> decide
          · rcases Bool.or_eq_true_iff.mp (List.all_eq_true.mp hm ch hch) with hd | hd
            · exact .inl hd
            · exact .inr (by rw [beq_iff_eq.mp hd]; decide)

/-- A reference with a symbol or with a bracketed part is none to a numeric label. -/
lemma isNumericReference_display (h : Spelled m)
    (hgiven : m.symbol.isSome = true ∨ m.base.isSome = true) :
    isNumericReference m.display.toList = false := by
  by_contra hreference
  rw [Bool.not_eq_false] at hreference
  have hchars := forall_mem_of_isNumericReference hreference
  have habsurd {ch : Char} (hch : ch ∈ m.display.toList)
      (hnot : ch.isDigit = false ∧ ch ∉ ['$', 'b', 'f']) : False := by
    rcases hchars ch hch with hdigit | hmem
    · rw [hdigit] at hnot
      cases hnot.1
    · exact hnot.2 hmem
  rcases hgiven with hsymbol | hbase
  · obtain ⟨symbol, hsymbol⟩ := Option.isSome_iff_exists.mp hsymbol
    obtain ⟨ch, name, hname, hstart, -⟩ := exists_cons_of_isSymbolName (h.symbol symbol hsymbol)
    rw [toList_display] at hreference habsurd
    cases hsegment : m.segment with
    | some s =>
        have hcolon : ':' ∈ segmentText m := by
          rw [segmentText, hsegment]
          exact List.mem_append_right _ (List.mem_singleton_self _)
        exact habsurd (List.mem_append_left _ hcolon) (by decide)
    | none =>
        cases hlead : m.lead with
        | some s =>
            have hplus : '+' ∈ leadText m := by
              rw [leadText, hlead]
              exact List.mem_append_right _ (List.mem_singleton_self _)
            exact habsurd (List.mem_append_right _ (List.mem_append_left _ hplus)) (by decide)
        | none =>
            -- the symbol comes first, and its first character is no digit
            rw [segmentText, hsegment, leadText, hlead, symbolText, hsymbol, Option.getD_some,
              hname] at hreference
            exact not_isDigit_of_isSymbolStart hstart (isDigit_of_isNumericReference hreference)
  · obtain ⟨b, hb⟩ := Option.isSome_iff_exists.mp hbase
    obtain ⟨inner, htext, -⟩ := h.base b hb
    have hopen : '(' ∈ m.display.toList := by
      rw [toList_display, baseText, hb]
      dsimp only
      rw [htext]
      simp
    exact habsurd hopen (by decide)

/-! ### Exchanged symbols -/

lemma toList_display_withKind (o : Operand) (k : Operand.Kind) :
    (o.withKind k).display.toList =
      star o.indirect ++ (k.display.toList ++ o.decorators.toList) := by
  obtain ⟨text, indirect, kind, decorators⟩ := o
  cases indirect <;> simp [Operand.withKind, Operand.display, star]

/-- An operand with another reference, which has the same bracketed part. -/
lemma isOperand_withMemory (h : operand l = .ok o) (hwhole : Whole .x86_64 false l)
    (htrimmed : Trimmed l) (hkind : o.kind = .memory m) {m' : MemoryRef} (hm' : Spelled m')
    (hbase : m'.base = m.base) : IsOperand (o.withKind (.memory m')).display.toList := by
  obtain ⟨-, hline, hgroups, hdecorators⟩ := spelled_of_operand h hwhole htrimmed hkind
  rw [toList_display_withKind]
  refine isOperand_reference hm' ?_ hgroups hdecorators o.indirect
  rwa [baseText, hbase]

/-- Any text after a dollar is read as a constant. -/
lemma isOperand_dollar {v : List Char} (hwhole : Whole .x86_64 false ('$' :: v))
    (hlast : ∀ ch, v.getLast? = some ch → Text.isBlank ch = false) (indirect : Bool) :
    IsOperand (star indirect ++ '$' :: v) := by
  have hdollar (d : Char) (hd : ('$' :: v).getLast? = some d) : Text.isBlank d = false := by
    rw [List.getLast?_cons] at hd
    cases hv : v.getLast? with
    | none =>
        rw [hv] at hd
        cases hd
        decide
    | some ch =>
        rw [hv] at hd
        cases hd
        exact hlast _ hv
  have htrimmed : Trimmed ('$' :: v) := ⟨fun d hd => by cases hd; decide, hdollar⟩
  obtain ⟨-, -, hhead⟩ := undecorated_spec htrimmed
  obtain ⟨value, hvalue⟩ := List.head?_eq_some_iff.mp hhead
  refine ⟨(whole_star_append indirect).mpr hwhole, ⟨fun d hd => ?_, fun d hd => ?_⟩, by simp, ?_⟩
  · cases indirect
    all_goals
      cases hd
      decide
  · rw [List.getLast?_append_of_ne_nil _ (by simp)] at hd
    exact hdollar d hd
  · refine ⟨_, operand_eq_ok_iff.mpr ⟨immediate value, ?_, rfl⟩⟩
    rw [direct_star_dollar, hvalue]
    rfl

lemma immediate_of_kind {body : List Char} {sigil : Option Char} {value : Expr}
    (h : kind body = .ok (.immediate sigil value)) :
    ∃ v, body = '$' :: v ∧ sigil = some '$' ∧ value = Expr.parse v := by
  unfold kind at h
  split at h
  · cases h
  · next v =>
      refine ⟨v, rfl, ?_⟩
      obtain hi : immediate v = .immediate sigil value := by simpa using h
      unfold immediate at hi
      repeat' split at hi
      all_goals
        cases hi
        try exact ⟨rfl, rfl⟩
  · repeat' split at h
    all_goals try cases h
    obtain ⟨m', -, heq⟩ := Outcome.map_eq_ok_iff.mp h
    cases heq

/-- A constant with other symbols. -/
lemma isOperand_withImmediate (h : operand l = .ok o) (hwhole : Whole .x86_64 false l)
    (htrimmed : Trimmed l) {sigil : Option Char} {value : Expr}
    (hkind : o.kind = .immediate sigil value) {f : String → String}
    (hf : ∀ name, IsName name → IsName (f name)) :
    IsOperand (o.withKind (.immediate sigil (value.mapSymbols f))).display.toList := by
  obtain ⟨body, hbody, hgroups, hall, hlast⟩ := exists_of_operand h hwhole htrimmed
  rw [hkind] at hbody
  obtain ⟨v, rfl, rfl, rfl⟩ := immediate_of_kind hbody
  have htext : (o.withKind (.immediate (some '$') ((Expr.parse v).mapSymbols f))).display.toList =
      star o.indirect ++
        '$' :: (((Expr.parse v).mapSymbols f).display.toList ++ o.decorators.toList) := by
    rw [toList_display_withKind]
    simp [Operand.Kind.display]
  rw [htext]
  refine isOperand_dollar ?_ (fun ch hch => ?_) o.indirect
  · -- other names change nothing in the scan
    obtain ⟨t, ht, hend⟩ := hall
    refine ⟨t, ?_, hend⟩
    rw [List.cons_append, run_cons] at ht
    rw [run_cons, ← ht]
    congr 1
    funext s
    rw [run_append, run_append, Expr.run_mapSymbols (Expr.named_parse v) hf, Expr.display_parse]
  · -- the last character is that of the constant, of a name or of a decoration
    rw [List.getLast?_append] at hch
    rcases hgroups.getLast? with hnil | hbrace
    · rw [hnil] at hch
      rcases Expr.getLast?_mapSymbols (Expr.named_parse v) hf hch with hsame | hsymbol
      · rw [Expr.display_parse] at hsame
        refine hlast ch ?_
        rw [List.getLast?_cons, hsame]
        rfl
      · simpa using not_isBlank_of_isSymbolChar hsymbol
    · rw [hbrace] at hch
      cases hch
      decide

/-! ### Registers -/

/-- The name of a register ends in a letter or digit of the name, or in a parenthesis. -/
lemma exists_getLast?_register {stem index : List Char} (hne : stem ≠ [])
    (hstem : ∀ ch ∈ stem, ch.isAlphanum = true)
    (hindex : index = [] ∨ ∃ digits, index = '(' :: (digits ++ [')']) ∧
      ∀ ch ∈ digits, ch.isDigit = true) :
    ∃ last, ('%' :: (stem ++ index)).getLast? = some last ∧
      (last.isAlphanum = true ∨ last = ')') := by
  rcases hindex with rfl | ⟨digits, rfl, -⟩
  · refine ⟨stem.getLast hne, ?_, .inl (hstem _ (List.getLast_mem hne))⟩
    rw [List.append_nil, List.getLast?_cons, List.getLast?_eq_some_getLast hne]
    rfl
  · refine ⟨')', ?_, .inr rfl⟩
    have hparts : '%' :: (stem ++ '(' :: (digits ++ [')'])) =
        ('%' :: (stem ++ '(' :: digits)) ++ [')'] := by simp
    rw [hparts, List.getLast?_concat]

/-- No colon is in the name of a register, so that it is not read as a segment. -/
lemma hasSegment_register {stem index : List Char} (hstem : ∀ ch ∈ stem, ch.isAlphanum = true)
    (hindex : index = [] ∨ ∃ digits, index = '(' :: (digits ++ [')']) ∧
      ∀ ch ∈ digits, ch.isDigit = true) :
    hasSegment ('%' :: (stem ++ index)) = false := by
  rw [Bool.eq_false_iff]
  intro hcase
  simp only [hasSegment, Bool.and_eq_true, beq_iff_eq] at hcase
  have hcolon : ':' ∈ stem ++ index :=
    (List.dropWhile_suffix _).subset (List.mem_of_mem_head? hcase.2)
  rcases List.mem_append.mp hcolon with hmem | hmem
  · exact absurd (hstem _ hmem) (by decide)
  · rcases hindex with rfl | ⟨digits, rfl, hdigits⟩
    · cases hmem
    · simp only [List.mem_cons, List.mem_append, List.not_mem_nil, or_false] at hmem
      rcases hmem with hmem | hmem | hmem
      · exact absurd hmem (by decide)
      · exact absurd (hdigits _ hmem) (by decide)
      · exact absurd hmem (by decide)

/-- A text that does not end in a brace has no decorators. -/
lemma undecorated_of_getLast? {ch last : Char} {r : List Char}
    (hlast : (ch :: r).getLast? = some last) (hbrace : last ≠ '}') (hch : ch ≠ '{') :
    undecorated (ch :: r) = (ch :: r, []) := by
  have hpeel : peel [] (ch :: r).reverse = ((ch :: r).reverse, []) := by
    refine peel_of_head ?_
    rw [List.head?_reverse, hlast]
    exact fun heq => hbrace (Option.some.inj heq)
  rw [undecorated, hpeel]
  · simp
  · exact fun _ heq => hch (List.cons.inj heq).1

lemma isOperand_register (h : isRegister l = true) : IsOperand l := by
  obtain ⟨stem, index, rfl, hne, hstem, hindex⟩ := exists_of_isRegister h
  obtain ⟨last, hlast, hlastChar⟩ := exists_getLast?_register hne hstem hindex
  have htrimmed : Trimmed ('%' :: (stem ++ index)) := by
    refine ⟨fun d hd => by cases hd; decide, fun d hd => ?_⟩
    rw [hlast] at hd
    cases hd
    rcases hlastChar with hch | rfl
    · simpa using not_isBlank_of_isAlphanum hch
    · decide
  have hbrace : last ≠ '}' := by
    rintro rfl
    revert hlastChar
    decide
  have hundecorated := undecorated_of_getLast? hlast hbrace (by decide)
  have hsegment := hasSegment_register hstem hindex
  have hkind : kind ('%' :: (stem ++ index)) =
      .ok (.register (String.ofList ('%' :: (stem ++ index)))) := by
    have hgot : ('%' :: (stem ++ index)) ≠ (gotName ++ "(%rip)").toList := by
      rintro ⟨⟩
    have hnumeric : isNumericReference ('%' :: (stem ++ index)) = false := rfl
    rw [kind, if_neg hgot, hnumeric, if_neg Bool.false_ne_true, if_pos ⟨rfl, hsegment⟩, if_pos h]
    all_goals rintro _ ⟨⟩
  have hbody : (undecorated (direct ('%' :: (stem ++ index)))).1 = '%' :: (stem ++ index) := by
    rw [direct_of_head (by rintro ⟨⟩), hundecorated]
  exact ⟨⟨_, run_register h [], .inl rfl, rfl⟩, htrimmed, by simp,
    _, operand_eq_ok_iff.mpr ⟨_, (congrArg kind hbody).trans hkind, rfl⟩⟩

/-! ### References that are put together -/

lemma displaced_ofSymbol {name : String} (h : IsName name) : Displaced (.ofSymbol name) where
  lead := nofun
  symbol s hs := by
    cases hs
    exact h
  offset := Offset.isOffset_nil
  signed := nofun
  tag := nofun
  tagOffset := Offset.isOffset_nil
  tagSigned := nofun
  untagged _ := rfl

lemma spelled_ofSymbol {name : String} (h : IsName name) : Spelled (.ofSymbol name) where
  toDisplaced := displaced_ofSymbol h
  segment := nofun
  base := nofun
  given := .inl rfl

lemma spelled_ripRelative {name : String} (h : IsName name) : Spelled (.ripRelative name) where
  toDisplaced := displaced_withBase (displaced_ofSymbol h) (some .rip)
  segment := nofun
  base b hb := by
    cases hb
    exact ⟨"%rip".toList, rfl, by decide, rfl⟩
  given := .inl rfl

lemma text_memory (m : MemoryRef) : (Line.Operand.memory m).text = m.display := by
  rw [Line.Operand.memory, Line.Operand.text_ofKind, Operand.Kind.display]

/-- A bare symbol is read. -/
lemma isOperand_symbol {name : String} (h : IsName name) :
    IsOperand (Line.Operand.symbol name).text.toList := by
  rw [Line.Operand.symbol, text_memory]
  exact isOperand_display (spelled_ofSymbol h) (by nofun)

/-- A reference to a symbol relative to the instruction pointer is read. -/
lemma isOperand_ripRelative {name : String} (h : IsName name) :
    IsOperand (Line.Operand.memory (.ripRelative name)).text.toList := by
  rw [text_memory]
  have hline : '\n' ∉ BaseIndex.rip.text.toList := by decide
  exact isOperand_display (spelled_ripRelative h) hline

/-- A register without a number is the base of a reference. -/
lemma baseIndex?_of_isRegister {r : String} (h : isRegister r.toList = true)
    (hparen : '(' ∉ r.toList) : baseIndex? r.toList = some (.ofRegister r) := by
  obtain ⟨stem, index, htext, hne, hstem, hindex⟩ := exists_of_isRegister h
  obtain rfl : index = [] := by
    rcases hindex with rfl | ⟨digits, rfl, -⟩
    · rfl
    · exact (hparen (by rw [htext]; simp)).elim
  rw [List.append_nil] at htext
  have hcomma : ',' ∉ r.toList := by
    rw [htext, List.mem_cons, not_or]
    exact ⟨by decide, fun hmem => absurd (hstem _ hmem) (by decide)⟩
  have htrim : Text.trim r.toList = r.toList := by
    refine Trimmed.trim_eq ⟨fun d hd => ?_, fun d hd => ?_⟩
    · rw [htext] at hd
      cases hd
      decide
    · rw [htext, List.getLast?_cons, List.getLast?_eq_some_getLast hne] at hd
      cases hd
      simpa using not_isBlank_of_isAlphanum (hstem _ (List.getLast_mem hne))
  have hnonempty : r.toList ≠ [] := by
    rw [htext]
    simp
  have hsplit : (r.toList.splitOn ',').map Text.trim = [r.toList] := by
    rw [List.splitOn_eq_singleton hcomma, List.map_singleton, htrim]
  simp [baseIndex?, hsplit, hnonempty, h, BaseIndex.ofRegister]

lemma spelled_ofRegister {r offset : String} (h : isRegister r.toList = true)
    (hparen : '(' ∉ r.toList) (hoffset : Offset.IsOffset offset.toList) :
    Spelled (.ofRegister r offset) where
  lead := nofun
  symbol := nofun
  offset := hoffset
  signed := nofun
  tag := nofun
  tagOffset := Offset.isOffset_nil
  tagSigned := nofun
  untagged _ := rfl
  segment := nofun
  base b hb := by
    cases hb
    refine ⟨r.toList, ?_, ?_, baseIndex?_of_isRegister h hparen⟩
    · simp [BaseIndex.ofRegister]
    · intro hmem
      obtain ⟨stem, index, htext, -, hstem, hindex⟩ := exists_of_isRegister h
      rcases hindex with rfl | ⟨digits, rfl, -⟩
      · rw [htext, List.append_nil, List.mem_cons] at hmem
        rcases hmem with hmem | hmem
        · exact absurd hmem (by decide)
        · exact absurd (hstem _ hmem) (by decide)
      · exact hparen (by rw [htext]; simp)
  given := .inr (.inl rfl)

/-- A reference to what a register points at is read, unless the register has a number. -/
lemma isOperand_ofRegister {r offset : String} (h : isRegister r.toList = true)
    (hparen : '(' ∉ r.toList) (hoffset : Offset.IsOffset offset.toList) :
    IsOperand (Line.Operand.memory (.ofRegister r offset)).text.toList := by
  rw [text_memory]
  refine isOperand_display (spelled_ofRegister h hparen hoffset) fun hline => ?_
  have htext : baseText (.ofRegister r offset) = '(' :: (r.toList ++ [')']) := by
    simp [baseText, MemoryRef.ofRegister, BaseIndex.ofRegister]
  rw [htext] at hline
  obtain ⟨t, ht, -⟩ : Whole .x86_64 false r.toList := ⟨_, run_register h [], .inl rfl, rfl⟩
  simp only [List.mem_cons, List.mem_append, List.not_mem_nil, or_false] at hline
  rcases hline with hline | hline | hline
  · exact absurd hline (by decide)
  · exact ne_newline_of_run ht hline rfl
  · exact absurd hline (by decide)

end Hermetic.X86

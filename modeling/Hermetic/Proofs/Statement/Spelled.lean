/-
The statements of a text, and how they are spelled.

* `Cursor.BetweenLine`: a text, but for the line feed that may be missing at the end;
* `body_of_kindAt`: what is read as a statement is spelled as one;
* `shape_of_ofCursor`: the same with the blanks and comments before it;
* `Reads`, `reads_of_parse`, `exists_parse_of_reads`: the statements of a text by their kinds,
  which are those that the parser reads.
-/
import Hermetic.Proofs.Statement.Lossless
import Hermetic.Proofs.Statement.Shape

namespace Hermetic

namespace Cursor

/-! ### Runs of characters -/

/-- The characters of a run, and what follows them. -/
lemma exists_run (p : Char → Bool) (c : Cursor Char) :
    ∃ l, c.Between l (c.skip (countWhile p c.rest)) ∧ countWhile p c.rest = l.length ∧
      (∀ ch ∈ l, p ch = true) ∧
      ∀ ch, (c.skip (countWhile p c.rest)).rest.head? = some ch → p ch = false := by
  have hsplit : c.rest = c.rest.takeWhile p ++ c.rest.dropWhile p :=
    List.takeWhile_append_dropWhile.symm
  have hbetween := between_skip_length hsplit
  refine ⟨c.rest.takeWhile p, hbetween, rfl, fun ch hch => List.mem_takeWhile_imp hch,
    fun ch hch => ?_⟩
  have hrest : (c.skip (countWhile p c.rest)).rest = c.rest.dropWhile p :=
    rest_skip_length hsplit
  rw [hrest] at hch
  have hnot := List.head?_dropWhile_not p c.rest
  rw [hch] at hnot
  simpa using hnot

lemma Between.getLast? {c d : Cursor Char} {l : List Char} (h : c.Between l d)
    (hline : c.rest.getLast? = some '\n') : d.rest = [] ∨ d.rest.getLast? = some '\n' := by
  rw [h.rest, List.getLast?_append] at hline
  cases hrest : d.rest.getLast? with
  | none => exact .inl (List.getLast?_eq_none_iff.mp hrest)
  | some ch =>
      rw [hrest] at hline
      exact .inr hline

/-- What stands between two cursors.  At the end of the text, the line feed that would end the last
line may be missing. -/
inductive BetweenLine (c d : Cursor Char) : List Char → Prop
  | whole {l : List Char} : c.Between l d → BetweenLine c d l
  | opened {l : List Char} : d.rest = [] → l.getLast? ≠ some '\n' → c.Between l d →
      BetweenLine c d (l ++ ['\n'])

lemma Between.transLine {c d e : Cursor Char} {l r : List Char} (h : c.Between l d)
    (hl : l.getLast? ≠ some '\n') (hline : d.BetweenLine e r) : c.BetweenLine e (l ++ r) := by
  cases hline with
  | whole hbetween => exact .whole (h.trans hbetween)
  | @opened r hnil hlast hbetween =>
      rw [← List.append_assoc]
      refine .opened hnil ?_ (h.trans hbetween)
      cases r with
      | nil => rwa [List.append_nil]
      | cons => rwa [List.getLast?_append_of_ne_nil _ (List.cons_ne_nil _ _)]

/-- What comes next is the first character, unless that is the line feed that is missing. -/
lemma BetweenLine.head? {c d : Cursor Char} {l : List Char} (h : c.BetweenLine d l) {ch : Char}
    (hch : l.head? = some ch) : c.rest.head? = some ch ∨ c.rest = [] ∧ ch = '\n' := by
  cases h with
  | whole hbetween =>
      left
      rw [hbetween.rest, List.head?_append, hch]
      rfl
  | @opened l hnil _ hbetween =>
      have hrest := hbetween.rest
      rw [hnil, List.append_nil] at hrest
      cases l with
      | nil => exact .inr ⟨hrest, (Option.some.inj hch).symm⟩
      | cons d l =>
          rw [hrest]
          exact .inl hch

/-- A comment goes to the end of its line. -/
lemma betweenLine_takeLine_bump (c : Cursor Char) :
    ∃ l r, '\n' ∉ l ∧ c.rest = l ++ r ∧ (∀ ch, r.head? = some ch → ch = '\n') ∧
      c.BetweenLine c.takeLine.2.bump (l ++ ['\n']) := by
  obtain ⟨l, hbetween, -, hl, hhead⟩ := exists_run (· != '\n') c
  have hnot : '\n' ∉ l := fun h => absurd (hl _ h) (by decide)
  have hstop : c.takeLine.2 = c.skip (countWhile (· != '\n') c.rest) := rfl
  rw [← hstop] at hbetween hhead
  refine ⟨l, c.takeLine.2.rest, hnot, hbetween.rest, fun ch hch => by simpa using hhead ch hch, ?_⟩
  cases hrest : c.takeLine.2.rest with
  | nil =>
      have hbump : c.takeLine.2.bump = c.takeLine.2 := by rw [bump, hrest]
      rw [hbump]
      exact .opened hrest (fun hlast => hnot (List.mem_of_getLast? hlast)) hbetween
  | cons ch r =>
      obtain rfl : ch = '\n' := by
        simpa using hhead ch (by rw [hrest]; rfl)
      exact .whole (hbetween.trans (between_bump hrest))

end Cursor

namespace Statement

open Cursor

/-! ### Parts of statements -/

variable {arch : Arch}

lemma atWord_of_endsArguments {l : List Char} (h : EndsArguments arch l) : AtWord l := by
  cases l with
  | nil => trivial
  | cons ch r =>
      rcases h with rfl | rfl | ⟨-, rfl⟩ | ⟨-, rfl, hnext⟩
      · exact ⟨by decide, fun hslash => absurd hslash.1 (by decide)⟩
      · exact ⟨by decide, fun hslash => absurd hslash.1 (by decide)⟩
      · exact ⟨by decide, fun hslash => absurd hslash.1 (by decide)⟩
      · exact ⟨by decide, fun hstar => absurd (hnext.symm.trans hstar.2) (by decide)⟩

/-- A comment that ends its line is told by how it starts. -/
lemma exists_comment {c : Cursor Char} {first : Bool}
    (hcomment : startsComment arch first c = true) : ∃ lead text, StartsComment arch first lead ∧
      '\n' ∉ text ∧ c.BetweenLine c.takeLine.2.bump (lead ++ (text ++ ['\n'])) := by
  obtain ⟨l, r, hl, hrest, hhead, hbetween⟩ := betweenLine_takeLine_bump c
  cases l with
  | nil =>
      cases r with
      | nil =>
          have hnext : c.next? = none := by rw [next?, hrest]; rfl
          simp [startsComment, hnext] at hcomment
      | cons ch r =>
          obtain rfl := hhead ch rfl
          simp [startsComment_iff hrest] at hcomment
  | cons ch l =>
      rcases (startsComment_iff hrest).mp hcomment with ⟨rfl, harch⟩ | ⟨harch, rfl, hslash⟩
      · exact ⟨['#'], l, .inl ⟨rfl, harch⟩, fun h => hl (List.mem_cons_of_mem _ h), hbetween⟩
      · cases l with
        | nil => exact absurd (hhead _ hslash) (by decide)
        | cons d l =>
            obtain rfl : d = '/' := Option.some.inj hslash
            refine ⟨['/', '/'], l, .inr ⟨rfl, harch⟩, fun h => hl ?_, hbetween⟩
            exact List.mem_cons_of_mem _ (List.mem_cons_of_mem _ h)

lemma exists_terminator {c d : Cursor Char} (h : terminator arch c = .ok d)
    (hends : EndsArguments arch c.rest) :
    ∃ stop, Terminator arch stop ∧ c.BetweenLine d stop := by
  -- arguments leave no blanks and no comments behind them
  have hskip : c.skipSpace = (.ok (), c) := by
    have hrun := blankRun_of_spacing .nil (atWord_of_endsArguments hends) 0
    rw [List.nil_append] at hrun
    rw [skipSpace, hrun]
    rfl
  rw [terminator, hskip] at h
  simp only [settle, bind, Except.bind] at h
  cases hrest : c.rest with
  | nil =>
      have hnext : c.next? = none := by rw [next?, hrest]; rfl
      rw [hnext] at h
      cases h
      exact ⟨['\n'], .line, .opened (l := []) hrest (Option.some_ne_none _).symm (.refl c)⟩
  | cons ch r =>
      rw [next?_of_rest hrest] at h
      dsimp only at h
      split at h
      · next hch =>
          cases h
          refine ⟨[ch], ?_, .whole (between_bump hrest)⟩
          rcases hch with rfl | rfl
          · exact .line
          · exact .semicolon
      · next hch =>
          split at h
          · next hcomment =>
              cases h
              obtain ⟨lead, text, hlead, htext, hbetween⟩ := exists_comment hcomment
              exact ⟨_, .comment hlead htext, hbetween⟩
          · cases h

/-- The characters that are counted for a label are those of its name. -/
lemma labelName_take {c : Cursor Char} (hpos : 0 < labelLength c) :
    LabelName (c.rest.take (labelLength c)) := by
  cases hrest : c.rest with
  | nil => simp [labelLength, next?, hrest] at hpos
  | cons ch l =>
      rw [labelLength, next?_of_rest hrest] at hpos ⊢
      dsimp only at hpos ⊢
      rw [hrest] at hpos ⊢
      have htake (p : Char → Bool) :
          (ch :: l).take (countWhile p (ch :: l)) = (ch :: l).takeWhile p :=
        (List.prefix_iff_eq_take.mp (List.takeWhile_prefix p)).symm
      have htail (p : Char → Bool) : ∀ x ∈ l.takeWhile p, p x = true :=
        fun x hx => List.mem_takeWhile_imp hx
      -- a number starts with a digit, and any other name with no digit
      split at hpos
      · next hdigit =>
          have hnumeric : isNumericChar ch = true := by simp [isNumericChar, hdigit]
          rw [if_pos hdigit, htake, List.takeWhile_cons_of_pos hnumeric]
          exact .inl ⟨hdigit, htail _⟩
      · next hdigit =>
          split at hpos
          · next hstart =>
              have hsymbol := isSymbolChar_of_isSymbolStart hstart
              rw [if_neg hdigit, if_pos hstart, htake, List.takeWhile_cons_of_pos hsymbol]
              exact .inr ⟨hstart, htail _⟩
          · exact (Nat.lt_irrefl _ hpos).elim

lemma labelName_of_label? {c d : Cursor Char} {label : Label} (h : label? c = some (label, d)) :
    ∃ name, LabelName name ∧ label = labelOf name ∧ c.Between (name ++ [':']) d := by
  unfold label? at h
  dsimp only at h
  split at h
  · next hn =>
      cases h
      obtain ⟨hpos, hcolon⟩ := hn
      have hname := between_skip (labelLength c) c
      obtain ⟨r, hr⟩ : ∃ r, (c.skip (labelLength c)).rest = ':' :: r := by
        rw [next?, Option.map_eq_some_iff] at hcolon
        obtain ⟨ch, hch, rfl⟩ := hcolon
        exact List.head?_eq_some_iff.mp hch
      exact ⟨_, labelName_take hpos, rfl, hname.trans (between_bump hr)⟩
  · cases h

/-- Where no label is read, no colon follows a name. -/
lemma ne_colon_of_label? {c : Cursor Char} {ch : Char} {l : List Char} (h : label? c = none)
    (hstart : isSymbolStart ch = true) {d : Cursor Char} (hc : c.Between (ch :: l) d)
    (hl : ∀ x ∈ l, isSymbolChar x = true) {x : Char} (hx : d.rest.head? = some x) : x ≠ ':' := by
  rintro rfl
  obtain ⟨r, hr⟩ := List.head?_eq_some_iff.mp hx
  have hname : LabelName (ch :: l) := .inr ⟨hstart, hl⟩
  obtain ⟨e, he, -⟩ := label?_of_labelName hname (by rw [hc.rest, hr])
  rw [h] at he
  cases he

lemma isWord_of_mnemonicLength {c : Cursor Char} (h : mnemonicLength c ≠ 0) :
    ∃ w, IsWord w ∧ c.Between w (c.skip (mnemonicLength c)) ∧
      (c.take (mnemonicLength c)).1 = String.ofList w ∧
      ∀ ch, (c.skip (mnemonicLength c)).rest.head? = some ch → isWordChar ch = false := by
  unfold mnemonicLength at h ⊢
  split at h
  · next hany =>
      rw [if_pos hany]
      obtain ⟨w, hw, hlength, hall, hhead⟩ := exists_run isWordChar c
      refine ⟨w, ?_, hw, ?_, hhead⟩
      · cases hrest : c.rest with
        | nil => simp [next?, hrest] at hany
        | cons ch r =>
            rw [next?_of_rest hrest, Option.any_some] at hany
            cases w with
            | nil =>
                have hcount : (ch :: r).takeWhile isWordChar = [] := by
                  rw [← List.length_eq_zero_iff, ← hrest]
                  exact hlength
                rw [List.takeWhile_cons_of_pos (isWordChar_of_isAlpha hany)] at hcount
                cases hcount
            | cons x w =>
                have hcons : ch :: r = x :: (w ++ _) := hrest.symm.trans hw.rest
                obtain rfl := (List.cons.inj hcons).1
                exact ⟨hany, fun d hd => hall d (List.mem_cons_of_mem _ hd)⟩
      · change String.ofList (c.rest.take (countWhile isWordChar c.rest)) = _
        rw [hlength, hw.rest, List.take_left]
  · exact (h rfl).elim

/-- The words at a cursor, the first of which has been read. -/
lemma words_of_modifiersFrom {c d : Cursor Char} {word m : String} {words : List String}
    {w : List Char} (h : modifiersFrom word c = .ok (words, m, d)) (hword : word = String.ofList w)
    (hw : IsWord w) (hhead : ∀ ch, c.rest.head? = some ch → isWordChar ch = false) :
    ∃ l, c.Between l d ∧ Words .x86_64 (w ++ l) words m ∧
      (∀ ch, d.rest.head? = some ch → isWordChar ch = false) ∧
      (m.toLower ∈ modifierWords → ∀ start, d.skipSpace = (.ok (), start) →
        mnemonicLength start = 0) := by
  fun_induction modifiersFrom word c generalizing w words m with
  | case1 => cases h
  | case2 word c hmem start hskip hzero =>
      cases h
      subst hword
      refine ⟨[], .refl _, by rw [List.append_nil]; exact .single hw, hhead, ?_⟩
      intro _ start' hstart'
      rw [hskip] at hstart'
      cases hstart'
      exact hzero
  | case3 word c hmem start hskip hpos ih =>
      obtain ⟨⟨words', m', stop⟩, hinner, h⟩ := Outcome.bind_eq_ok_iff.mp h
      cases h
      subst hword
      obtain ⟨gap, hgap, hbetween, -⟩ := spacing_of_skipSpace hskip
      obtain ⟨w', hw', hnext, htext, hhead'⟩ := isWord_of_mnemonicLength hpos
      obtain ⟨l, hl, hwords, hstop, hlast⟩ := ih hinner htext hw' hhead'
      -- two words are apart, or the first would have been longer
      have hne : gap ≠ [] := by
        rintro rfl
        obtain ⟨ch, r, rfl, hch⟩ := hw'.exists_cons
        have hrest : c.rest = ch :: (r ++ (start.skip (mnemonicLength start)).rest) := by
          rw [hbetween.rest, hnext.rest]
          rfl
        have hnot := hhead ch (by rw [hrest]; rfl)
        rw [isWordChar_of_isAlpha hch] at hnot
        cases hnot
      refine ⟨gap ++ (w' ++ l), hbetween.trans (hnext.trans hl), ?_, hstop, hlast⟩
      exact .cons rfl hw hmem hgap hne hwords
  | case4 word c hmem =>
      cases h
      subst hword
      refine ⟨[], .refl _, by rw [List.append_nil]; exact .single hw, hhead, ?_⟩
      exact fun hm => (hmem hm).elim

/-- The words at a cursor, of which only x86-64 has some before the mnemonic. -/
lemma words_of_mnemonic {c d : Cursor Char} {m : String} {words : List String}
    (h : mnemonic arch c = .ok (words, m, d)) (halpha : c.next?.any Char.isAlpha = true) :
    ∃ l, c.Between l d ∧ Words arch l words m ∧
      (arch = .x86_64 → m.toLower ∈ modifierWords → ∀ start, d.skipSpace = (.ok (), start) →
        mnemonicLength start = 0) := by
  obtain ⟨w, hw, hbetween, htext, hhead⟩ := isWord_of_mnemonicLength (mnemonicLength_ne_zero halpha)
  cases arch with
  | x86_64 =>
      obtain ⟨l, hl, hwords, -, hlast⟩ := words_of_modifiersFrom h htext hw hhead
      exact ⟨w ++ l, hbetween.trans hl, hwords, fun _ => hlast⟩
  | aarch64 =>
      cases h
      rw [htext]
      exact ⟨w, hbetween, .single hw, nofun⟩

lemma endsMnemonic_rest {c : Cursor Char} (h : endsMnemonic arch c = true) :
    EndsMnemonic arch c.rest := by
  cases hrest : c.rest with
  | nil => trivial
  | cons ch r =>
      rw [endsMnemonic, next?_of_rest hrest] at h
      simp only [Bool.or_eq_true, Bool.and_eq_true, beq_iff_eq, startsComment_iff hrest,
        second?_of_rest hrest] at h
      simp only [EndsMnemonic, List.mem_cons, List.not_mem_nil, or_false]
      simp only [Bool.false_eq_true, or_false] at h
      tauto

/-- Where a word begins, one does if the line feed is added that is missing. -/
lemma atWord_append_newline {l : List Char} (h : AtWord l) : AtWord (l ++ ['\n']) := by
  match l, h with
  | [], _ => exact ⟨by decide, fun hstar => absurd hstar.1 (by decide)⟩
  | [_], h => exact ⟨h.1, fun hstar => absurd hstar.2 (by simp)⟩
  | _ :: _ :: _, h => exact h

lemma endsMnemonic_append_newline {l : List Char} (h : EndsMnemonic arch l) :
    EndsMnemonic arch (l ++ ['\n']) := by
  match l, h with
  | [], _ => exact .inl (by simp)
  | [_], h => exact h.imp_right fun h => h.imp_right fun h => by simp at h
  | _ :: _ :: _, h => exact h

/-- The blanks, the arguments and the end of a statement. -/
lemma spelled_of_arguments {c start d e : Cursor Char} {args : List Char}
    (hskip : c.skipSpace = (.ok (), start)) (hargs : arguments arch start = .ok (args, d))
    (hend : terminator arch d = .ok e) :
    ∃ gap raw stop, Spacing gap ∧ AtWord (raw ++ stop) ∧ Arguments arch stop.head? [] [] raw args ∧
      Terminator arch stop ∧ c.Between gap start ∧ start.BetweenLine e (raw ++ stop) := by
  obtain ⟨gap, hgap, hstart, hword⟩ := spacing_of_skipSpace hskip
  obtain ⟨raw, hraw, harguments, hends⟩ := arguments_of_argumentsFrom hargs
  obtain ⟨stop, hstop, hbetween⟩ := exists_terminator hend hends
  refine ⟨gap, raw, stop, hgap, ?_, ?_, hstop, hstart,
    hraw.transLine harguments.getLast?_ne_newline hbetween⟩
  · -- at the end of the text, the line feed is missing
    rw [hraw.rest] at hword
    cases hbetween with
    | whole hbetween =>
        rw [hbetween.rest] at hword
        exact (atWord_append_terminator hstop).mp hword
    | @opened l hnil _ hbetween =>
        rw [hbetween.rest, hnil, List.append_nil] at hword
        rw [← List.append_assoc]
        exact atWord_append_newline hword
  · cases hbetween with
    | whole hbetween =>
        have hhead : d.rest.head? = stop.head? := by
          rw [hbetween.rest]
          exact head?_append_terminator (l := []) hstop
        rwa [hhead] at harguments
    | @opened l hnil _ hbetween =>
        rw [hbetween.rest, hnil, List.append_nil] at harguments
        cases l with
        | nil => exact harguments.of_none
        | cons => exact harguments

/-! ### Statements -/

lemma pieces_of_operands {start : Span} {args : List Char} {os : List Operand}
    (h : operands arch start args = .ok os) :
    List.Forall₂ (fun p o => p.text ≠ [] ∧ operand arch p.text = .ok o) (Piece.split args) os := by
  refine (Outcome.mapM_eq_ok_iff.mp h).imp fun p o hpo => ?_
  dsimp only at hpo
  split at hpo
  · cases hpo
  · next hempty => exact ⟨by simpa using hempty, Outcome.mapError_eq_ok_iff.mp hpo⟩

lemma body_of_directive {c d e : Cursor Char} {kind : Kind} (hdot : c.next? = some '.')
    (hlabel : label? c = none) (h : directive arch c = .ok (kind, d))
    (hend : terminator arch d = .ok e) : ∃ l, Body arch l kind ∧ c.BetweenLine e l := by
  obtain ⟨r, hrest⟩ : ∃ r, c.rest = '.' :: r := by
    rw [next?, Option.map_eq_some_iff] at hdot
    obtain ⟨ch, hch, rfl⟩ := hdot
    exact List.head?_eq_some_iff.mp hch
  have hbump := between_bump hrest
  obtain ⟨name, hname, hlength, hall, hhead⟩ := exists_run isSymbolChar c.bump
  have hdotName : c.Between ('.' :: name) (c.bump.skip (countWhile isSymbolChar c.bump.rest)) :=
    hbump.trans hname
  -- the name is read up to the first character that is none of a name
  have htake : c.bump.takeWhile isSymbolChar =
      (String.ofList name, c.bump.skip (countWhile isSymbolChar c.bump.rest)) := by
    rw [takeWhile, take]
    rw [Prod.mk.injEq]
    refine ⟨?_, rfl⟩
    change String.ofList (c.bump.rest.take (countWhile isSymbolChar c.bump.rest)) = _
    rw [hlength, hname.rest, List.take_left]
  unfold directive at h
  rw [htake] at h
  dsimp only at h
  split at h
  · cases h
  · next hempty =>
      obtain ⟨⟨_, start⟩, hskip, h⟩ := Outcome.bind_eq_ok_iff.mp h
      obtain ⟨⟨args, stop⟩, hargs, h⟩ := Outcome.bind_eq_ok_iff.mp h
      obtain ⟨k, hkind, h⟩ := Outcome.bind_eq_ok_iff.mp h
      cases h
      have hkind := Outcome.mapError_eq_ok_iff.mp hkind
      -- neither the name nor the gap ends in a line feed, which may be missing at the end
      have hlast : ('.' :: name).getLast? ≠ some '\n' := by
        intro hnewline
        rcases List.mem_cons.mp (List.mem_of_getLast? hnewline) with hdot | hmem
        · exact absurd hdot (by decide)
        · exact absurd (hall _ hmem) (by decide)
      obtain ⟨gap, raw, terminal, hgap, hword, hraw, hterminal, hstart, hraw'⟩ :=
        spelled_of_arguments (settle_eq_ok_iff.mp hskip) hargs hend
      have hbetween := hstart.transLine hgap.getLast?_ne_newline hraw'
      have hname' : "." ++ String.ofList name = String.ofList ('.' :: name) := by
        rw [← String.toList_inj]
        simp
      rw [hname'] at hkind
      refine ⟨_, .directive ?_ hall ?_ hgap hword hraw hterminal hkind,
        hdotName.transLine hlast hbetween⟩
      · simpa using hempty
      · intro ch hch
        rcases hbetween.head? hch with hch' | ⟨-, rfl⟩
        · exact ⟨hhead ch hch', ne_colon_of_label? hlabel (by decide) hdotName hall hch'⟩
        · decide

lemma body_of_instruction {c d e : Cursor Char} {kind : Kind}
    (halpha : c.next?.any Char.isAlpha = true) (h : instruction arch c = .ok (kind, d))
    (hend : terminator arch d = .ok e) : ∃ l, Body arch l kind ∧ c.BetweenLine e l := by
  obtain ⟨⟨words, m, afterName⟩, hmnemonic, h⟩ := Outcome.bind_eq_ok_iff.mp h
  dsimp only at h
  split at h
  · cases h
  · next hmayEnd =>
      obtain ⟨⟨_, start⟩, hskip, h⟩ := Outcome.bind_eq_ok_iff.mp h
      obtain ⟨⟨args, stop⟩, hargs, h⟩ := Outcome.bind_eq_ok_iff.mp h
      obtain ⟨os, hos, h⟩ := Outcome.bind_eq_ok_iff.mp h
      cases h
      have hskip := settle_eq_ok_iff.mp hskip
      obtain ⟨l, hnameBetween, hwords, hlast⟩ := words_of_mnemonic hmnemonic halpha
      obtain ⟨gap, raw, terminal, hgap, hword, hraw, hterminal, hstart, hraw'⟩ :=
        spelled_of_arguments hskip hargs hend
      have hrest := hstart.transLine hgap.getLast?_ne_newline hraw'
      refine ⟨_, .instruction hwords ?_ ?_ hgap hword hraw hterminal (pieces_of_operands hos),
        hnameBetween.transLine hwords.getLast?_ne_newline hrest⟩
      · -- what follows the mnemonic may end it, also where a line feed is put in
        have hends := endsMnemonic_rest (by simpa using hmayEnd)
        generalize hline : gap ++ (raw ++ terminal) = line at hrest
        cases hrest with
        | whole hrest =>
            rw [hrest.rest, ← hline, List.append_assoc, List.append_assoc, ← List.append_assoc gap,
              endsMnemonic_append_terminator hterminal, List.append_assoc, hline] at hends
            exact hends
        | opened hnil _ hrest =>
            rw [hrest.rest, hnil, List.append_nil] at hends
            exact endsMnemonic_append_newline hends
      · -- a modifier is followed by another word, or else nothing that starts one follows
        intro harch hm ch hch
        have hzero := hlast harch hm start hskip
        rcases hraw'.head? hch with hhead | ⟨-, rfl⟩
        · cases halpha : ch.isAlpha with
          | false => rfl
          | true =>
              refine (mnemonicLength_ne_zero ?_ hzero).elim
              rw [next?, hhead]
              exact halpha
        · rfl

/-- What is read as a statement is spelled as one. -/
lemma body_of_kindAt {c d : Cursor Char} {kind : Kind} (h : kindAt arch c = .ok (kind, d)) :
    ∃ l, Body arch l kind ∧ c.BetweenLine d l := by
  cases hrest : c.rest with
  | nil =>
      have hnext : c.next? = none := by rw [next?, hrest]; rfl
      rw [kindAt, hnext] at h
      cases h
      exact ⟨['\n'], .blank (.inl rfl),
        .opened (l := []) hrest (Option.some_ne_none _).symm (.refl c)⟩
  | cons ch r =>
      have hnext := next?_of_rest hrest
      rw [kindAt, hnext] at h
      dsimp only at h
      split at h
      · next hch =>
          cases h
          exact ⟨[ch], .blank hch, .whole (between_bump hrest)⟩
      · next hch =>
          split at h
          · next hcomment =>
              cases h
              obtain ⟨lead, text, hlead, htext, hbetween⟩ := exists_comment hcomment
              exact ⟨_, .comment hlead htext, hbetween⟩
          · split at h
            · next hlabel =>
                cases h
                obtain ⟨name, hname, rfl, hbetween⟩ := labelName_of_label? hlabel
                exact ⟨_, .label hname, .whole hbetween⟩
            · next hlabel =>
                obtain ⟨⟨kind', stop⟩, hbody, h⟩ := Outcome.bind_eq_ok_iff.mp h
                obtain ⟨e, hend, h⟩ := Outcome.bind_eq_ok_iff.mp h
                cases h
                -- a point starts a directive, and a letter an instruction
                unfold bodyAt at hbody
                split at hbody
                · next hdot => exact body_of_directive hdot hlabel hbody hend
                · split at hbody
                  · next halpha => exact body_of_instruction halpha hbody hend
                  · cases hbody

/-- What is read as a statement is spelled as one, with the blanks and comments before it.  At the
end of the text, the line feed may be missing that would end it. -/
lemma shape_of_ofCursor {c d : Cursor Char} {s : Statement}
    (h : ofCursor arch c = .ok (s, d)) :
    Shape arch s.text.toList s.kind ∨ d.rest = [] ∧ s.text.toList.getLast? ≠ some '\n' ∧
      Shape arch (s.text.toList ++ ['\n']) s.kind := by
  have hwhole := between_of_ofCursor h
  obtain ⟨start, lead, body, hlead, hstart, -, -, hkind, -, -⟩ := ofCursor_eq_ok h
  obtain ⟨body', hbody', hbetween⟩ := body_of_kindAt hkind
  have hshape : Shape arch (lead ++ body') s.kind := ⟨lead, body', hlead, hbody', rfl⟩
  have hline := hstart.transLine hlead.getLast?_ne_newline hbetween
  generalize lead ++ body' = l at hshape hline
  cases hline with
  | whole hbetween =>
      obtain rfl : s.text.toList = l :=
        List.append_cancel_right (hwhole.rest.symm.trans hbetween.rest)
      exact .inl hshape
  | opened hnil hlast hbetween =>
      obtain rfl : s.text.toList = _ :=
        List.append_cancel_right (hwhole.rest.symm.trans hbetween.rest)
      exact .inr ⟨hnil, hlast, hshape⟩

/-- No line feed is missing where the text goes on, or its last line is ended. -/
lemma shape_of_ofCursor_of_line {c d : Cursor Char} {s : Statement}
    (h : ofCursor arch c = .ok (s, d)) (hline : d.rest = [] → c.rest.getLast? = some '\n') :
    Shape arch s.text.toList s.kind := by
  refine (shape_of_ofCursor h).resolve_right fun ⟨hnil, hlast, _⟩ => hlast ?_
  rw [← hline hnil, (between_of_ofCursor h).rest, hnil, List.append_nil]

/-! ### Texts -/

/-- A text that is read as statements of some kinds. -/
inductive Reads (arch : Arch) : List Char → List Kind → Prop
  | nil : Reads arch [] []
  | cons {l r : List Char} {kind : Kind} {kinds : List Kind} : Shape arch l kind →
      Reads arch r kinds → Reads arch (l ++ r) (kind :: kinds)

lemma Reads.single {l : List Char} {kind : Kind} (h : Shape arch l kind) : Reads arch l [kind] := by
  have hcons := Reads.cons h .nil
  rwa [List.append_nil] at hcons

lemma Reads.append {l r : List Char} {kinds more : List Kind} (hl : Reads arch l kinds)
    (hr : Reads arch r more) : Reads arch (l ++ r) (kinds ++ more) := by
  induction hl with
  | nil => exact hr
  | cons h _ ih =>
      rw [List.append_assoc]
      exact .cons h ih

/-- At most one statement is spelled at the start of a text. -/
lemma Shape.unique {l l' r r' : List Char} {kind kind' : Kind} (h : Shape arch l kind)
    (h' : Shape arch l' kind') (heq : l ++ r = l' ++ r') : l = l' ∧ r = r' ∧ kind = kind' := by
  let c : Cursor Char := ⟨l ++ r, {}⟩
  obtain ⟨s, d, hs, hkind, hd⟩ := ofCursor_of_shape (c := c) h rfl
  obtain ⟨s', d', hs', hkind', hd'⟩ := ofCursor_of_shape (c := c) h' heq
  obtain ⟨rfl, rfl⟩ := Prod.mk.inj (Except.ok.inj (hs.symm.trans hs'))
  obtain rfl : r = r' := hd.symm.trans hd'
  exact ⟨List.append_cancel_right heq, rfl, hkind.symm.trans hkind'⟩

lemma Shape.ne_nil {l : List Char} {kind : Kind} (h : Shape arch l kind) : l ≠ [] := by
  obtain ⟨lead, body, -, hbody, rfl⟩ := h
  exact List.append_ne_nil_of_right_ne_nil _ hbody.ne_nil

/-- What is read of a text that goes on is read first. -/
lemma Reads.exists_of_append {l r : List Char} {kinds all : List Kind} (hl : Reads arch l kinds)
    (h : Reads arch (l ++ r) all) : ∃ more, all = kinds ++ more ∧ Reads arch r more := by
  induction hl generalizing all with
  | nil => exact ⟨all, rfl, h⟩
  | @cons first l kind kinds hfirst _ ih =>
      generalize hwhole : first ++ l ++ r = whole at h
      rw [List.append_assoc] at hwhole
      cases h with
      | nil => exact absurd (List.append_eq_nil_iff.mp hwhole).1 hfirst.ne_nil
      | cons hfirst' hrest =>
          obtain ⟨rfl, rfl, rfl⟩ := hfirst.unique hfirst' hwhole
          obtain ⟨more, rfl, hmore⟩ := ih hrest
          exact ⟨more, rfl, hmore⟩

/-- Blanks and comments belong to the statement that follows them. -/
lemma reads_spacing_append_iff {gap r : List Char} {kinds : List Kind} (hgap : Spacing gap)
    (hr : r ≠ []) : Reads arch (gap ++ r) kinds ↔ Reads arch r kinds := by
  constructor
  · intro h
    generalize hwhole : gap ++ r = whole at h
    cases h with
    | nil => exact absurd (List.append_eq_nil_iff.mp hwhole).2 hr
    | @cons l rest kind kinds hshape hrest =>
        obtain ⟨lead, body, hlead, hbody, rfl⟩ := hshape
        rw [List.append_assoc] at hwhole
        have hrun : blankRun 0 none (gap ++ r) = .ok (0 + lead.length) := by
          rw [hwhole]
          exact blankRun_of_spacing hlead (atWord_of_body hbody) 0
        rw [blankRun_spacing_append hgap] at hrun
        obtain ⟨lead', rest', rfl, hlead', hlength, -⟩ := spacing_of_blankRun hrun
        -- the blanks and comments before the statement are those in front and those that follow
        have hsplit : gap ++ lead' = lead := by
          rw [← List.append_assoc] at hwhole
          refine (List.append_inj hwhole ?_).1
          rw [List.length_append]
          omega
        have hrest' : rest' = body ++ rest := by
          rw [← List.append_assoc, hsplit] at hwhole
          exact List.append_cancel_left hwhole
        rw [hrest', ← List.append_assoc]
        exact .cons ⟨lead', body, hlead', hbody, rfl⟩ hrest
  · intro h
    cases h with
    | nil => exact absurd rfl hr
    | cons hshape hrest =>
        obtain ⟨lead, body, hlead, hbody, rfl⟩ := hshape
        rw [← List.append_assoc]
        refine .cons ⟨gap ++ lead, body, hgap.append hlead, hbody, ?_⟩ hrest
        rw [List.append_assoc]

lemma reads_of_listed {c : Cursor Char} {statements : List Statement}
    (h : Listed arch c statements) (hline : c.rest = [] ∨ c.rest.getLast? = some '\n') :
    Reads arch c.rest (statements.map (·.kind)) ∧
      ∀ s ∈ statements, Shape arch s.text.toList s.kind := by
  induction h with
  | nil hc =>
      rw [hc]
      exact ⟨.nil, nofun⟩
  | @cons c d s statements hc hs _ ih =>
      have hlast := hline.resolve_left hc
      have hbetween := between_of_ofCursor hs
      have hshape := shape_of_ofCursor_of_line hs fun _ => hlast
      obtain ⟨hreads, hall⟩ := ih (hbetween.getLast? hlast)
      refine ⟨by rw [hbetween.rest]; exact .cons hshape hreads, fun t ht => ?_⟩
      rcases List.mem_cons.mp ht with rfl | ht
      · exact hshape
      · exact hall t ht

/-- Every statement of a text that ends its last line is spelled as one. -/
lemma shape_of_parse {text : String} {statements : List Statement}
    (h : parse arch text = .ok statements)
    (hline : text.toList = [] ∨ text.toList.getLast? = some '\n') :
    ∀ s ∈ statements, Shape arch s.text.toList s.kind :=
  (reads_of_listed (parse_eq_ok_iff.mp h) hline).2

lemma exists_listed_of_reads {l : List Char} {kinds : List Kind} (h : Reads arch l kinds)
    {c : Cursor Char} (hc : c.rest = l) :
    ∃ statements, Listed arch c statements ∧ statements.map (·.kind) = kinds := by
  induction h generalizing c with
  | nil => exact ⟨[], .nil hc, rfl⟩
  | @cons l r kind kinds hshape _ ih =>
      obtain ⟨s, d, hs, hkind, hd⟩ := ofCursor_of_shape hshape hc
      obtain ⟨statements, hlisted, hkinds⟩ := ih hd
      refine ⟨s :: statements, .cons ?_ hs hlisted, by rw [List.map_cons, hkind, hkinds]⟩
      obtain ⟨lead, body, -, hbody, rfl⟩ := hshape
      rw [hc]
      simp [hbody.ne_nil]

/-- A text that is read as statements of some kinds is parsed as such. -/
lemma exists_parse_of_reads {text : String} {kinds : List Kind} (h : Reads arch text.toList kinds) :
    ∃ statements, parse arch text = .ok statements ∧ statements.map (·.kind) = kinds := by
  obtain ⟨statements, hlisted, hkinds⟩ :=
    exists_listed_of_reads h (c := Cursor.ofString text) rfl
  exact ⟨statements, parse_eq_ok_iff.mpr hlisted, hkinds⟩

/-- A text that is spelled as a statement is parsed as one. -/
lemma exists_parse_of_shape {text : String} {kind : Kind} (h : Shape arch text.toList kind) :
    ∃ t, parse arch text = .ok [t] ∧ t.kind = kind := by
  obtain ⟨statements, hparse, hkinds⟩ := exists_parse_of_reads (.single h)
  obtain ⟨t, rfl⟩ := List.length_eq_one_iff.mp (by simpa using congrArg List.length hkinds)
  exact ⟨t, hparse, List.head_eq_of_cons_eq hkinds⟩

end Statement

end Hermetic

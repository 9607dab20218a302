/-
How statements are spelled.

* `StartsComment`, `Terminator`, `LabelName`, `IsWord`, `Words`: the parts of a statement;
* `Body`: the spelling of a statement of some kind, after the blanks and comments before it;
* `StartsWord`: the characters that the spelling of a label, a directive or an instruction starts
  with;
* `Statement.kindAt_of_body`: a text that is so spelled is read as such, whatever follows it;
* `Statement.Shape`, `Statement.ofCursor_of_shape`: the same with the blanks and comments before.
-/
import Hermetic.Proofs.Outcome
import Hermetic.Proofs.Statement.Arguments
import Hermetic.Proofs.Text.Characters
import Mathlib.Data.List.TakeWhile

namespace Hermetic

/-! ### Runs of characters -/

namespace Cursor

lemma countWhile_append {p : Char → Bool} {l r : List Char} (hl : ∀ ch ∈ l, p ch = true)
    (hr : ∀ ch, r.head? = some ch → p ch = false) : countWhile p (l ++ r) = l.length := by
  have hnil : r.takeWhile p = [] := by
    rw [List.takeWhile_eq_nil_iff]
    intro hlen
    have hhead := hr (r.get ⟨0, hlen⟩) (by simp [List.head?_eq_getElem?, hlen])
    simpa using hhead
  have hrun : (l ++ r).takeWhile p = l := by
    rw [List.takeWhile_append_of_pos hl, hnil, List.append_nil]
  change ((l ++ r).takeWhile p).length = l.length
  rw [hrun]

lemma rest_skip_length {c : Cursor Char} {l r : List Char} (h : c.rest = l ++ r) :
    (c.skip l.length).rest = r := by
  rw [rest_skip, h, List.drop_left]

/-- The end of a line is gone past. -/
lemma rest_takeLine_bump {c : Cursor Char} {l r : List Char} (hl : '\n' ∉ l)
    (hc : c.rest = l ++ '\n' :: r) : c.takeLine.2.bump.rest = r := by
  have hcount : countWhile (· != '\n') c.rest = l.length := by
    rw [hc]
    refine countWhile_append (fun ch hch => ?_) (fun ch hch => ?_)
    · simpa using fun hline : ch = '\n' => hl (hline ▸ hch)
    · cases hch
      rfl
  have hrest : c.takeLine.2.rest = '\n' :: r := by
    change (c.skip (countWhile (· != '\n') c.rest)).rest = '\n' :: r
    rw [hcount, rest_skip_length hc]
  rw [rest_bump, hrest, List.tail_cons]

end Cursor

/-! ### Parts of statements -/

variable {arch : Arch}

/-- What starts a comment that ends its line.  On AArch64 a `#` does so only where a statement may
start. -/
def StartsComment (arch : Arch) (first : Bool) (lead : List Char) : Prop :=
  lead = ['#'] ∧ (arch = .x86_64 ∨ first = true) ∨ lead = ['/', '/'] ∧ arch = .aarch64

lemma StartsComment.newline_notMem {first : Bool} {lead : List Char}
    (h : StartsComment arch first lead) : '\n' ∉ lead := by
  rcases h with ⟨rfl, -⟩ | ⟨rfl, -⟩ <;> decide

/-- How a statement with arguments ends. -/
inductive Terminator (arch : Arch) : List Char → Prop
  | line : Terminator arch ['\n']
  | semicolon : Terminator arch [';']
  | comment {lead text : List Char} : StartsComment arch false lead → '\n' ∉ text →
      Terminator arch (lead ++ (text ++ ['\n']))

/-- How a terminator starts. -/
lemma Terminator.exists_cons {stop : List Char} (h : Terminator arch stop) :
    ∃ ch l, stop = ch :: l ∧ (ch = '\n' ∨ EndsAt arch ch l.head?) ∧ (ch = '/' → l ≠ []) := by
  cases h with
  | line => exact ⟨_, _, rfl, .inl rfl, nofun⟩
  | semicolon => exact ⟨_, _, rfl, .inr (.inl rfl), nofun⟩
  | @comment lead text hlead _ =>
      rcases hlead with ⟨rfl, harch | hfirst⟩ | ⟨rfl, harch⟩
      · exact ⟨_, _, rfl, .inr (.inr (.inl ⟨harch, rfl⟩)), nofun⟩
      · cases hfirst
      · exact ⟨_, _, rfl, .inr (.inr (.inr ⟨harch, rfl, rfl⟩)), by simp⟩

/-- The names of labels. -/
def LabelName : List Char → Prop
  | [] => False
  | ch :: l => (ch.isDigit = true ∧ ∀ d ∈ l, isNumericChar d = true) ∨
      (isSymbolStart ch = true ∧ ∀ d ∈ l, isSymbolChar d = true)

/-- The characters of a mnemonic. -/
def isWordChar (ch : Char) : Bool :=
  ch.isAlphanum || ch == '_' || ch == '.'

/-- Mnemonics, and words that change one. -/
def IsWord : List Char → Prop
  | [] => False
  | ch :: l => ch.isAlpha = true ∧ ∀ d ∈ l, isWordChar d = true

/-- A mnemonic after the words that change it, which only x86-64 has. -/
inductive Words (arch : Arch) : List Char → List String → String → Prop
  | single {w : List Char} : IsWord w → Words arch w [] (String.ofList w)
  | cons {w gap l : List Char} {words : List String} {mnemonic : String} : arch = .x86_64 →
      IsWord w → (String.ofList w).toLower ∈ Statement.modifierWords → Spacing gap → gap ≠ [] →
        Words arch l words mnemonic →
          Words arch (w ++ (gap ++ l)) (String.ofList w :: words) mnemonic

/-- Where a mnemonic may end. -/
def EndsMnemonic (arch : Arch) : List Char → Prop
  | [] => True
  | ch :: l => ch ∈ [' ', '\t', '\r', '\n', ';'] ∨ arch = .x86_64 ∧ ch = '#' ∨
      ch = '/' ∧ (l.head? = some '*' ∨ l.head? = some '/')

/-- The spelling of a statement, after the blanks and comments before it. -/
inductive Body (arch : Arch) : List Char → Statement.Kind → Prop
  | blank {ch : Char} : ch = '\n' ∨ ch = ';' → Body arch [ch] .blank
  | comment {lead text : List Char} : StartsComment arch true lead → '\n' ∉ text →
      Body arch (lead ++ (text ++ ['\n'])) .comment
  | label {name : List Char} : LabelName name →
      Body arch (name ++ [':']) (.label (Statement.labelOf name))
  | directive {name gap raw args stop : List Char} {kind : Statement.Kind} : name ≠ [] →
      (∀ ch ∈ name, isSymbolChar ch = true) →
      (∀ ch, (gap ++ (raw ++ stop)).head? = some ch → isSymbolChar ch = false ∧ ch ≠ ':') →
      Spacing gap → Cursor.AtWord (raw ++ stop) → Arguments arch stop.head? [] [] raw args →
      Terminator arch stop →
      Statement.directiveKind (String.ofList ('.' :: name)) args = .ok kind →
        Body arch ('.' :: (name ++ (gap ++ (raw ++ stop)))) kind
  | instruction {text gap raw args stop : List Char} {modifiers : List String}
      {mnemonic : String} {operands : List Operand} : Words arch text modifiers mnemonic →
      EndsMnemonic arch (gap ++ (raw ++ stop)) →
      (arch = .x86_64 → mnemonic.toLower ∈ Statement.modifierWords →
        ∀ ch, (raw ++ stop).head? = some ch → ch.isAlpha = false) →
      Spacing gap → Cursor.AtWord (raw ++ stop) → Arguments arch stop.head? [] [] raw args →
      Terminator arch stop →
      List.Forall₂ (fun p o => p.text ≠ [] ∧ Statement.operand arch p.text = .ok o)
        (Piece.split args) operands →
        Body arch (text ++ (gap ++ (raw ++ stop))) (.instruction { modifiers, mnemonic, operands })

/-! ### What follows plays no role -/

lemma isWordChar_of_isAlpha {ch : Char} (h : ch.isAlpha = true) : isWordChar ch = true := by
  simp [isWordChar, Char.isAlphanum, h]

lemma isSymbolChar_of_isWordChar {ch : Char} (h : isWordChar ch = true) :
    isSymbolChar ch = true := by
  simp only [isWordChar, isSymbolChar, Bool.or_eq_true] at h ⊢
  rcases h with (h | h) | h <;> simp [h]

lemma IsWord.forall_mem {w : List Char} (h : IsWord w) : ∀ ch ∈ w, isWordChar ch = true := by
  cases w with
  | nil => exact h.elim
  | cons ch w =>
      intro d hd
      rcases List.mem_cons.mp hd with rfl | hd
      · exact isWordChar_of_isAlpha h.1
      · exact h.2 d hd

lemma IsWord.exists_cons {w : List Char} (h : IsWord w) :
    ∃ ch l, w = ch :: l ∧ ch.isAlpha = true := by
  cases w with
  | nil => exact h.elim
  | cons ch w => exact ⟨ch, w, rfl, h.1⟩

lemma Words.exists_cons {l : List Char} {words : List String} {mnemonic : String}
    (h : Words arch l words mnemonic) : ∃ ch r, l = ch :: r ∧ ch.isAlpha = true := by
  cases h with
  | single hw => exact hw.exists_cons
  | cons _ hw =>
      obtain ⟨ch, r, rfl, hch⟩ := hw.exists_cons
      exact ⟨ch, _, rfl, hch⟩

/-- Characters that start a word: no blanks, and none that ends a statement or starts a comment. -/
structure StartsWord (ch : Char) : Prop where
  space : Cursor.isSpace ch = false
  terminal : ¬ (ch = '\n' ∨ ch = ';')
  hash : ch ≠ '#'
  slash : ch ≠ '/'

lemma startsWord_of_isSymbolChar {ch : Char}
    (h : isNumericChar ch = true ∨ isSymbolChar ch = true) : StartsWord ch := by
  have hne {u : Char} (hu : isNumericChar u = false ∧ isSymbolChar u = false) : ch ≠ u := by
    rintro rfl
    simp [hu] at h
  refine ⟨?_, not_or.mpr ⟨hne (by decide), hne (by decide)⟩, hne (by decide), hne (by decide)⟩
  simp only [Cursor.isSpace, Bool.or_eq_false_iff, beq_eq_false_iff_ne]
  exact ⟨⟨⟨hne (by decide), hne (by decide)⟩, hne (by decide)⟩, hne (by decide)⟩

lemma startsWord_of_isAlpha {ch : Char} (h : ch.isAlpha = true) : StartsWord ch :=
  startsWord_of_isSymbolChar (.inr (isSymbolChar_of_isWordChar (isWordChar_of_isAlpha h)))

lemma StartsWord.atWord {ch : Char} (h : StartsWord ch) (l : List Char) :
    Cursor.AtWord (ch :: l) :=
  ⟨h.space, fun hslash => h.slash hslash.1⟩

lemma LabelName.exists_cons {name : List Char} (h : LabelName name) :
    ∃ ch l, name = ch :: l ∧ StartsWord ch := by
  cases name with
  | nil => exact h.elim
  | cons ch l =>
      exact ⟨ch, l, rfl, startsWord_of_isSymbolChar (h.imp (fun h => by simp [isNumericChar, h.1])
        fun h => isSymbolChar_of_isSymbolStart h.1)⟩

/-- Words end in no line feed. -/
lemma Words.getLast?_ne_newline {l : List Char} {words : List String} {m : String}
    (h : Words arch l words m) : l.getLast? ≠ some '\n' := by
  induction h with
  | single hw =>
      intro hlast
      exact absurd (hw.forall_mem _ (List.mem_of_getLast? hlast)) (by decide)
  | cons _ _ _ _ _ hl ih =>
      obtain ⟨ch, r, rfl, -⟩ := hl.exists_cons
      rwa [List.getLast?_append_of_ne_nil _ (by simp), List.getLast?_append_of_ne_nil _ (by simp)]

lemma Body.ne_nil {l : List Char} {kind : Statement.Kind} (h : Body arch l kind) : l ≠ [] := by
  cases h with
  | blank | comment | label | directive => simp
  | instruction hwords =>
      obtain ⟨ch, r, rfl, -⟩ := hwords.exists_cons
      simp

/-- Spacing that is not empty starts with no character of a name, and with no colon. -/
lemma Spacing.head {gap : List Char} (h : Spacing gap) {ch : Char} (hch : gap.head? = some ch) :
    isSymbolChar ch = false ∧ ch ≠ ':' := by
  cases h with
  | nil => cases hch
  | @blank c l hc _ =>
      cases hch
      simp only [Cursor.isSpace, Bool.or_eq_true, beq_iff_eq] at hc
      rcases hc with ((rfl | rfl) | rfl) | rfl <;> decide
  | comment =>
      cases hch
      decide

lemma EndsMnemonic.head {l : List Char} (h : EndsMnemonic arch l) {ch : Char}
    (hch : l.head? = some ch) : isSymbolChar ch = false ∧ ch ≠ ':' := by
  cases l with
  | nil => cases hch
  | cons d l =>
      cases hch
      rcases h with h | ⟨-, rfl⟩ | ⟨rfl, -⟩
      · simp only [List.mem_cons, List.not_mem_nil, or_false] at h
        rcases h with rfl | rfl | rfl | rfl | rfl <;> decide
      · decide
      · decide

lemma isWordChar_eq_false {ch : Char} (h : isSymbolChar ch = false) : isWordChar ch = false := by
  cases hch : isWordChar ch with
  | false => rfl
  | true =>
      rw [isSymbolChar_of_isWordChar hch] at h
      cases h

lemma Words.exists_first {l : List Char} {words : List String} {mnemonic : String}
    (h : Words arch l words mnemonic) : ∃ w r, l = w ++ r ∧ IsWord w ∧
      ∀ ch, r.head? = some ch → isSymbolChar ch = false ∧ ch ≠ ':' := by
  cases h with
  | single hw => exact ⟨_, [], (List.append_nil _).symm, hw, nofun⟩
  | @cons w gap l words mnemonic _ hw _ hgap hne _ =>
      obtain ⟨g, gap, rfl⟩ := List.exists_cons_of_ne_nil hne
      refine ⟨w, _, rfl, hw, fun ch hch => hgap.head ?_⟩
      exact hch

lemma head?_append_terminator {l stop r : List Char} (h : Terminator arch stop) :
    (l ++ (stop ++ r)).head? = (l ++ stop).head? := by
  obtain ⟨ch, s, rfl, -, -⟩ := h.exists_cons
  cases l <;> rfl

lemma endsMnemonic_append_terminator {l stop r : List Char} (hstop : Terminator arch stop) :
    EndsMnemonic arch (l ++ (stop ++ r)) ↔ EndsMnemonic arch (l ++ stop) := by
  obtain ⟨ch, s, rfl, -, hs⟩ := hstop.exists_cons
  match l with
  | [] =>
      by_cases hslash : ch = '/'
      · obtain ⟨d, s, rfl⟩ := List.exists_cons_of_ne_nil (hs hslash)
        simp [EndsMnemonic]
      · simp [EndsMnemonic, hslash]
  | [_] | _ :: _ :: _ => simp [EndsMnemonic]

namespace Cursor

lemma atWord_append_terminator {l stop r : List Char} (hstop : Terminator arch stop) :
    AtWord (l ++ (stop ++ r)) ↔ AtWord (l ++ stop) := by
  obtain ⟨ch, s, rfl, -, hs⟩ := hstop.exists_cons
  match l with
  | [] =>
      by_cases hslash : ch = '/'
      · obtain ⟨d, s, rfl⟩ := List.exists_cons_of_ne_nil (hs hslash)
        simp [AtWord]
      · simp [AtWord, hslash]
  | [_] | _ :: _ :: _ => simp [AtWord]

lemma atWord_of_terminator {stop : List Char} (h : Terminator arch stop) : AtWord stop := by
  cases h with
  | line | semicolon => exact ⟨by decide, fun hslash => absurd hslash.1 (by decide)⟩
  | comment hlead =>
      rcases hlead with ⟨rfl, -⟩ | ⟨rfl, -⟩
      · exact ⟨by decide, fun hslash => absurd hslash.1 (by decide)⟩
      · exact ⟨by decide, fun hslash => absurd hslash.2 (by simp)⟩

end Cursor

lemma Terminator.endsArguments {stop r : List Char} (h : Terminator arch stop) :
    Statement.EndsArguments arch (stop ++ r) := by
  obtain ⟨ch, s, rfl, hch, hs⟩ := h.exists_cons
  refine hch.imp_right fun hends => ?_
  by_cases hslash : ch = '/'
  · obtain ⟨d, s, rfl⟩ := List.exists_cons_of_ne_nil (hs hslash)
    exact hends
  · simpa [EndsAt, hslash] using hends

namespace Statement

open Cursor

/-! ### Reading the parts -/

/-- A comment that ends its line is told by what it starts with. -/
lemma startsComment_of_lead {c : Cursor Char} {first : Bool} {lead text r : List Char}
    (h : StartsComment arch first lead) (hc : c.rest = (lead ++ text) ++ r) :
    ∃ ch l, c.rest = ch :: l ∧ ¬ (ch = '\n' ∨ ch = ';') ∧ startsComment arch first c = true := by
  rcases h with ⟨rfl, harch⟩ | ⟨rfl, harch⟩
  · exact ⟨_, _, hc, by decide, (startsComment_iff hc).mpr (.inl ⟨rfl, harch⟩)⟩
  · exact ⟨_, _, hc, by decide, (startsComment_iff hc).mpr (.inr ⟨harch, rfl, rfl⟩)⟩

lemma terminator_of_spelled {c : Cursor Char} {stop r : List Char} (h : Terminator arch stop)
    (hc : c.rest = stop ++ r) : ∃ d, terminator arch c = .ok d ∧ d.rest = r := by
  -- a terminator is preceded by nothing that is skipped
  have hword : AtWord c.rest := by
    rw [hc]
    exact (atWord_append_terminator (l := []) h).mpr (atWord_of_terminator h)
  obtain ⟨start, hskip, hstart⟩ := skipSpace_of_spacing .nil hword rfl
  rw [hc] at hstart
  rw [terminator, hskip]
  simp only [settle, bind, Except.bind]
  cases h with
  | line =>
      refine ⟨start.bump, ?_, by rw [rest_bump, hstart]; rfl⟩
      rw [next?_of_rest hstart]
      rfl
  | semicolon =>
      refine ⟨start.bump, ?_, by rw [rest_bump, hstart]; rfl⟩
      rw [next?_of_rest hstart]
      rfl
  | @comment lead text hlead htext =>
      have hline : start.rest = (lead ++ text) ++ '\n' :: r := by
        rw [hstart]
        simp
      obtain ⟨ch, l, hch, hterminal, hcomment⟩ := startsComment_of_lead hlead hline
      refine ⟨start.takeLine.2.bump, ?_, rest_takeLine_bump ?_ hline⟩
      · rw [next?_of_rest hch]
        dsimp only
        rw [if_neg hterminal, if_pos hcomment]
        rfl
      · rw [List.mem_append, not_or]
        exact ⟨hlead.newline_notMem, htext⟩

lemma mnemonicLength_of_isWord {c : Cursor Char} {w r : List Char} (hw : IsWord w)
    (hc : c.rest = w ++ r) (hr : ∀ ch, r.head? = some ch → isWordChar ch = false) :
    mnemonicLength c = w.length := by
  obtain ⟨ch, l, rfl, hch⟩ := hw.exists_cons
  have halpha : c.next?.any Char.isAlpha = true := by
    rw [next?_of_rest hc]
    exact hch
  rw [mnemonicLength, if_pos halpha, hc]
  exact countWhile_append hw.forall_mem hr

lemma mnemonicLength_eq_zero {c : Cursor Char}
    (h : ∀ ch, c.rest.head? = some ch → ch.isAlpha = false) : mnemonicLength c = 0 := by
  refine if_neg fun hany => ?_
  cases hrest : c.rest with
  | nil => simp [next?, hrest] at hany
  | cons ch r =>
      rw [next?_of_rest hrest] at hany
      have hch := h ch (by rw [hrest]; rfl)
      simp [hch] at hany

/-- The words at a cursor are read. -/
lemma mnemonic_of_words {c : Cursor Char} {l r : List Char} {words : List String} {m : String}
    (h : Words arch l words m) (hc : c.rest = l ++ r)
    (hr : ∀ ch, r.head? = some ch → isWordChar ch = false)
    (hlast : arch = .x86_64 → m.toLower ∈ modifierWords → ∀ d : Cursor Char, d.rest = r →
      ∃ start, d.skipSpace = (.ok (), start) ∧ mnemonicLength start = 0) :
    ∃ d, mnemonic arch c = .ok (words, m, d) ∧ d.rest = r := by
  -- on the words: each but the last changes the mnemonic, and another follows it
  induction h generalizing c with
  | @single w hw =>
      have hlength := mnemonicLength_of_isWord hw hc hr
      refine ⟨c.skip w.length, ?_, rest_skip_length hc⟩
      have htake : (c.take w.length).1 = String.ofList w := by
        rw [take, hc, List.take_left]
        rfl
      unfold mnemonic
      rw [hlength, htake]
      cases arch with
      | aarch64 => rfl
      | x86_64 =>
          dsimp only
          rw [modifiersFrom_eq]
          split
          · next hmem =>
              obtain ⟨start, hstart, hzero⟩ := hlast rfl hmem _ (rest_skip_length hc)
              rw [hstart]
              exact if_pos hzero
          · rfl
  | @cons w gap l words m harch hw hmem hgap hne hl ih =>
      subst harch
      have hgapHead (ch : Char) (hch : (gap ++ (l ++ r)).head? = some ch) :
          isWordChar ch = false := by
        obtain ⟨g, gap', rfl⟩ := List.exists_cons_of_ne_nil hne
        cases hch
        exact isWordChar_eq_false (hgap.head rfl).1
      have hrest : c.rest = w ++ (gap ++ (l ++ r)) := by
        rw [hc]
        simp
      have hlength := mnemonicLength_of_isWord hw hrest hgapHead
      have htake : (c.take w.length).1 = String.ofList w := by
        rw [take, hrest, List.take_left]
        rfl
      obtain ⟨ch, l', rfl, hch⟩ := hl.exists_cons
      have hword : AtWord (ch :: l' ++ r) := (startsWord_of_isAlpha hch).atWord _
      obtain ⟨start, hstart, hstartRest⟩ :=
        skipSpace_of_spacing hgap hword (rest_skip_length hrest)
      obtain ⟨d, hd, hdr⟩ := ih hstartRest hlast
      have hpos : mnemonicLength start ≠ 0 := by
        refine mnemonicLength_ne_zero ?_
        rw [next?_of_rest hstartRest]
        exact hch
      have hinner : modifiersFrom (start.take (mnemonicLength start)).1
          (start.skip (mnemonicLength start)) = .ok (words, m, d) := hd
      refine ⟨d, ?_, hdr⟩
      change modifiersFrom (c.take (mnemonicLength c)).1 (c.skip (mnemonicLength c)) = _
      rw [hlength, htake, modifiersFrom_eq, if_pos hmem, hstart, settle_ok]
      simp only [bind, Except.bind, if_neg hpos, hinner]

lemma endsMnemonic_of_spelled {c : Cursor Char} (h : EndsMnemonic arch c.rest) :
    endsMnemonic arch c = true := by
  unfold endsMnemonic
  cases hrest : c.rest with
  | nil => simp [next?, hrest]
  | cons ch r =>
      rw [hrest] at h
      rw [next?_of_rest hrest]
      rcases h with h | ⟨harch, rfl⟩ | ⟨rfl, h⟩
      · simp only [List.mem_cons, List.not_mem_nil, or_false] at h
        rcases h with rfl | rfl | rfl | rfl | rfl <;> rfl
      · simp [(startsComment_iff hrest).mpr (.inl ⟨rfl, .inl harch⟩)]
      · rw [second?_of_rest hrest]
        rcases h with h | h <;> simp [h]

lemma operands_of_pieces {start : Span} {args : List Char} {os : List Operand}
    (h : List.Forall₂ (fun p o => p.text ≠ [] ∧ operand arch p.text = .ok o)
      (Piece.split args) os) :
    operands arch start args = .ok os := by
  refine Outcome.mapM_eq_ok_iff.mpr (h.imp fun p o hpo => ?_)
  have hempty : ¬ p.text.isEmpty = true := by simpa using hpo.1
  dsimp only
  rw [if_neg hempty]
  exact Outcome.mapError_eq_ok_iff.mpr hpo.2

/-- The arguments at a cursor are read, after the blanks before them. -/
lemma arguments_of_spelled {c : Cursor Char} {gap raw args stop r : List Char}
    (hgap : Spacing gap) (hword : AtWord (raw ++ stop))
    (hraw : Arguments arch stop.head? [] [] raw args)
    (hstop : Terminator arch stop) (hc : c.rest = gap ++ (raw ++ (stop ++ r))) :
    ∃ start d e, c.skipSpace = (.ok (), start) ∧ arguments arch start = .ok (args, d) ∧
      terminator arch d = .ok e ∧ e.rest = r := by
  obtain ⟨start, hstart, hstartRest⟩ :=
    skipSpace_of_spacing hgap ((atWord_append_terminator hstop).mpr hword) hc
  have hhead : (stop ++ r).head? = stop.head? := head?_append_terminator (l := []) hstop
  rw [← hhead] at hraw
  obtain ⟨d, hd, hdr⟩ : ∃ d, argumentsFrom arch [] [] start = .ok (args, d) ∧ d.rest = stop ++ r :=
    argumentsFrom_of_arguments hraw hstop.endsArguments rfl hstartRest
  obtain ⟨e, he, her⟩ := terminator_of_spelled hstop hdr
  exact ⟨start, d, e, hstart, hd, he, her⟩

/-! ### Reading a statement -/

/-- There is no label where the characters of a name are not followed by a colon. -/
lemma label?_eq_none {c : Cursor Char} {ch : Char} {l r : List Char} (hc : c.rest = ch :: l ++ r)
    (hch : isSymbolStart ch = true) (hl : ∀ d ∈ l, isSymbolChar d = true)
    (hr : ∀ d, r.head? = some d → isSymbolChar d = false ∧ d ≠ ':') : label? c = none := by
  have hdigit := not_isDigit_of_isSymbolStart hch
  have hlength : labelLength c = (ch :: l).length := by
    rw [labelLength, next?_of_rest hc]
    dsimp only
    rw [if_neg hdigit, if_pos hch, hc]
    refine countWhile_append (fun d hd => ?_) (fun d hd => (hr d hd).1)
    rcases List.mem_cons.mp hd with rfl | hd
    · exact isSymbolChar_of_isSymbolStart hch
    · exact hl d hd
  unfold label?
  dsimp only
  rw [hlength, if_neg]
  rintro ⟨-, hcolon⟩
  rw [next?, rest_skip_length hc] at hcolon
  cases r with
  | nil => cases hcolon
  | cons d r =>
      cases hcolon
      exact (hr ':' rfl).2 rfl

lemma labelLength_of_labelName {c : Cursor Char} {name r : List Char} (h : LabelName name)
    (hc : c.rest = name ++ ':' :: r) : labelLength c = name.length := by
  cases name with
  | nil => exact h.elim
  | cons ch l =>
      rw [labelLength, next?_of_rest hc]
      dsimp only
      rcases h with ⟨hch, hl⟩ | ⟨hch, hl⟩
      · rw [if_pos hch, hc]
        refine countWhile_append (fun d hd => ?_) (fun d hd => ?_)
        · rcases List.mem_cons.mp hd with rfl | hd
          · simp [isNumericChar, hch]
          · exact hl d hd
        · cases hd
          rfl
      · rw [if_neg (not_isDigit_of_isSymbolStart hch), if_pos hch, hc]
        refine countWhile_append (fun d hd => ?_) (fun d hd => ?_)
        · rcases List.mem_cons.mp hd with rfl | hd
          · exact isSymbolChar_of_isSymbolStart hch
          · exact hl d hd
        · cases hd
          rfl

lemma label?_of_labelName {c : Cursor Char} {name r : List Char} (h : LabelName name)
    (hc : c.rest = name ++ ':' :: r) :
    ∃ d, label? c = some (labelOf name, d) ∧ d.rest = r := by
  have hlength := labelLength_of_labelName h hc
  have hpos : 0 < name.length := by
    cases name with
    | nil => exact h.elim
    | cons => simp
  have hcolon : (c.skip name.length).next? = some ':' := next?_of_rest (rest_skip_length hc)
  refine ⟨(c.skip name.length).bump, ?_, ?_⟩
  · unfold label?
    dsimp only
    rw [hlength, if_pos ⟨hpos, hcolon⟩, hc, List.take_left]
  · rw [rest_bump, rest_skip_length hc, List.tail_cons]

/-- What stands at a character that starts a word is a label, or else a directive or an
instruction. -/
lemma kindAt_of_startsWord {c : Cursor Char} {ch : Char} {r : List Char} (hc : c.rest = ch :: r)
    (hch : StartsWord ch) :
    kindAt arch c =
      match label? c with
      | some (label, stop) => .ok (.label label, stop)
      | none => do
        let (kind, stop) ← bodyAt arch c
        return (kind, ← terminator arch stop) := by
  rw [kindAt, next?_of_rest hc]
  dsimp only
  rw [if_neg hch.terminal]
  exact if_neg (by simp [startsComment_iff hc, hch.hash, hch.slash])

/-- A directive is read, up to what ends it. -/
lemma directive_of_spelled {c : Cursor Char} {name gap raw args stop r : List Char} {kind : Kind}
    (hne : name ≠ []) (hname : ∀ ch ∈ name, isSymbolChar ch = true)
    (hhead : ∀ ch, (gap ++ (raw ++ (stop ++ r))).head? = some ch → isSymbolChar ch = false)
    (hgap : Spacing gap) (hword : AtWord (raw ++ stop))
    (hraw : Arguments arch stop.head? [] [] raw args) (hstop : Terminator arch stop)
    (hkind : directiveKind (String.ofList ('.' :: name)) args = .ok kind)
    (hc : c.rest = '.' :: name ++ (gap ++ (raw ++ (stop ++ r)))) :
    ∃ d e, directive arch c = .ok (kind, d) ∧ terminator arch d = .ok e ∧ e.rest = r := by
  have hbump : c.bump.rest = name ++ (gap ++ (raw ++ (stop ++ r))) := by
    rw [rest_bump, hc]
    rfl
  have htake : c.bump.takeWhile isSymbolChar =
      (String.ofList name, c.bump.skip name.length) := by
    rw [takeWhile, hbump, countWhile_append hname hhead, take, hbump, List.take_left]
    rfl
  obtain ⟨start, d, e, hstart, hargs, hend, her⟩ :=
    arguments_of_spelled hgap hword hraw hstop (rest_skip_length hbump)
  refine ⟨d, e, ?_, hend, her⟩
  have hempty : ¬ (String.ofList name).isEmpty = true := by simpa using hne
  have hdot : "." ++ String.ofList name = String.ofList ('.' :: name) := by
    rw [← String.toList_inj]
    simp
  unfold directive
  rw [htake]
  dsimp only
  rw [if_neg hempty, hstart]
  simp only [settle, bind, Except.bind, hargs, hdot, hkind, Except.mapError]
  rfl

/-- An instruction is read, up to what ends it. -/
lemma instruction_of_spelled {c : Cursor Char} {text gap raw args stop r : List Char}
    {modifiers : List String} {m : String} {os : List Operand}
    (hwords : Words arch text modifiers m) (hends : EndsMnemonic arch (gap ++ (raw ++ (stop ++ r))))
    (hmodifier : arch = .x86_64 → m.toLower ∈ modifierWords →
      ∀ ch, (raw ++ stop).head? = some ch → ch.isAlpha = false)
    (hgap : Spacing gap) (hword : AtWord (raw ++ stop))
    (hraw : Arguments arch stop.head? [] [] raw args) (hstop : Terminator arch stop)
    (hos : List.Forall₂ (fun p o => p.text ≠ [] ∧ operand arch p.text = .ok o)
      (Piece.split args) os)
    (hc : c.rest = text ++ (gap ++ (raw ++ (stop ++ r)))) :
    ∃ d e, instruction arch c = .ok (.instruction ⟨modifiers, m, os⟩, d) ∧
      terminator arch d = .ok e ∧ e.rest = r := by
  have hlast (harch : arch = .x86_64) (hm : m.toLower ∈ modifierWords) (d : Cursor Char)
      (hd : d.rest = gap ++ (raw ++ (stop ++ r))) :
      ∃ start, d.skipSpace = (.ok (), start) ∧ mnemonicLength start = 0 := by
    obtain ⟨start, hstart, hstartRest⟩ :=
      skipSpace_of_spacing hgap ((atWord_append_terminator hstop).mpr hword) hd
    refine ⟨start, hstart, mnemonicLength_eq_zero fun x hx => hmodifier harch hm x ?_⟩
    rw [hstartRest, head?_append_terminator hstop] at hx
    exact hx
  obtain ⟨a, ha, har⟩ := mnemonic_of_words hwords hc
    (fun x hx => isWordChar_eq_false (hends.head hx).1) hlast
  have hmayEnd : endsMnemonic arch a = true := endsMnemonic_of_spelled (by rwa [har])
  obtain ⟨start, d, e, hstart, hargs, hend, her⟩ :=
    arguments_of_spelled hgap hword hraw hstop har
  refine ⟨d, e, ?_, hend, her⟩
  unfold instruction
  simp only [ha, bind, Except.bind, hmayEnd, hstart, settle, hargs, operands_of_pieces hos]
  rfl

/-- A text that is spelled like a statement is read as such, whatever follows it. -/
lemma kindAt_of_body {c : Cursor Char} {l r : List Char} {kind : Kind} (h : Body arch l kind)
    (hc : c.rest = l ++ r) : ∃ d, kindAt arch c = .ok (kind, d) ∧ d.rest = r := by
  cases h with
  | @blank ch hch =>
      refine ⟨c.bump, ?_, by rw [rest_bump, hc]; rfl⟩
      rw [kindAt, next?_of_rest hc]
      dsimp only
      rw [if_pos hch]
  | @comment lead text hlead htext =>
      have hline : c.rest = (lead ++ text) ++ '\n' :: r := by
        rw [hc]
        simp
      obtain ⟨ch, l, hch, hterminal, hcomment⟩ := startsComment_of_lead hlead hline
      refine ⟨c.takeLine.2.bump, ?_, rest_takeLine_bump ?_ hline⟩
      · rw [kindAt, next?_of_rest hch]
        dsimp only
        rw [if_neg hterminal, if_pos hcomment]
      · rw [List.mem_append, not_or]
        exact ⟨hlead.newline_notMem, htext⟩
  | @label name hname =>
      have hrest : c.rest = name ++ ':' :: r := by
        rw [hc]
        simp
      obtain ⟨d, hd, hdr⟩ := label?_of_labelName hname hrest
      obtain ⟨ch, l, rfl, hch⟩ := hname.exists_cons
      refine ⟨d, ?_, hdr⟩
      rw [kindAt_of_startsWord hrest hch, hd]
  | @directive name gap raw args stop kind hne hname hhead hgap hword hraw hstop hkind =>
      have hrest : c.rest = '.' :: name ++ (gap ++ (raw ++ (stop ++ r))) := by
        rw [hc]
        simp
      have hhead' (ch : Char) (hch : (gap ++ (raw ++ (stop ++ r))).head? = some ch) :
          isSymbolChar ch = false ∧ ch ≠ ':' := by
        rw [← List.append_assoc, head?_append_terminator hstop, List.append_assoc] at hch
        exact hhead ch hch
      -- no colon follows the name, so that it is no label
      have hlabel := label?_eq_none hrest (by decide) hname hhead'
      obtain ⟨d, e, hdirective, hend, her⟩ := directive_of_spelled hne hname
        (fun ch hch => (hhead' ch hch).1) hgap hword hraw hstop hkind hrest
      refine ⟨e, ?_, her⟩
      rw [kindAt_of_startsWord hrest (startsWord_of_isSymbolChar (.inr (by decide))), hlabel]
      simp only [bodyAt, next?_of_rest hrest, if_true, hdirective, hend, bind, Except.bind]
      rfl
  | @instruction text gap raw args stop modifiers m os hwords hends hmodifier hgap hword hraw hstop
      hos =>
      have hrest : c.rest = text ++ (gap ++ (raw ++ (stop ++ r))) := by
        rw [hc]
        simp
      have hends' : EndsMnemonic arch (gap ++ (raw ++ (stop ++ r))) := by
        rw [← List.append_assoc, endsMnemonic_append_terminator hstop, List.append_assoc]
        exact hends
      obtain ⟨w, rest, htext, hw, hrestHead⟩ := hwords.exists_first
      obtain ⟨ch, w', rfl, hch⟩ := hw.exists_cons
      have hfirst : c.rest = ch :: w' ++ (rest ++ (gap ++ (raw ++ (stop ++ r)))) := by
        rw [hrest, htext, List.append_assoc]
      -- the first word is followed by another, or by what ends a mnemonic, and neither is a colon
      have hlabel : label? c = none := by
        refine label?_eq_none hfirst (by simp [isSymbolStart, hch])
          (fun d hd => isSymbolChar_of_isWordChar (hw.2 d hd)) (fun d hd => ?_)
        cases rest with
        | nil => exact hends'.head hd
        | cons x rest => exact hrestHead d hd
      obtain ⟨d, e, hinstruction, hend, her⟩ :=
        instruction_of_spelled hwords hends' hmodifier hgap hword hraw hstop hos hrest
      refine ⟨e, ?_, her⟩
      have hpoint : ch ≠ '.' := by
        rintro rfl
        cases hch
      rw [kindAt_of_startsWord hfirst (startsWord_of_isAlpha hch), hlabel]
      simp only [bodyAt, next?_of_rest hfirst, Option.some.injEq, hpoint, if_false, Option.any_some,
        hch, if_true, hinstruction, hend, bind, Except.bind]
      rfl

/-- The spelling of a statement of some kind. -/
def Shape (arch : Arch) (l : List Char) (kind : Kind) : Prop :=
  ∃ lead body, Spacing lead ∧ Body arch body kind ∧ l = lead ++ body

lemma shape_newline : Shape arch ['\n'] .blank :=
  ⟨[], _, .nil, .blank (.inl rfl), rfl⟩

/-- The spelling of a statement starts with no blank and no comment. -/
lemma atWord_of_body {l r : List Char} {kind : Kind} (h : Body arch l kind) : AtWord (l ++ r) := by
  cases h with
  | blank hch =>
      rcases hch with rfl | rfl <;> exact ⟨by decide, fun hslash => absurd hslash.1 (by decide)⟩
  | comment hlead =>
      rcases hlead with ⟨rfl, -⟩ | ⟨rfl, -⟩
      · exact ⟨by decide, fun hslash => absurd hslash.1 (by decide)⟩
      · exact ⟨by decide, fun hstar => absurd hstar.2 (by simp)⟩
  | label hname =>
      obtain ⟨ch, l, rfl, hch⟩ := hname.exists_cons
      exact hch.atWord _
  | directive => exact (startsWord_of_isSymbolChar (.inr (by decide))).atWord _
  | instruction hwords =>
      obtain ⟨ch, w, rfl, hch⟩ := hwords.exists_cons
      exact (startsWord_of_isAlpha hch).atWord _

/-- A statement is read, whatever follows it. -/
lemma ofCursor_of_shape {c : Cursor Char} {l r : List Char} {kind : Kind} (h : Shape arch l kind)
    (hc : c.rest = l ++ r) :
    ∃ s d, ofCursor arch c = .ok (s, d) ∧ s.kind = kind ∧ d.rest = r := by
  obtain ⟨lead, body, hlead, hbody, rfl⟩ := h
  rw [List.append_assoc] at hc
  obtain ⟨start, hstart, hstartRest⟩ := skipSpace_of_spacing hlead (atWord_of_body hbody) hc
  obtain ⟨d, hd, hdr⟩ := kindAt_of_body hbody hstartRest
  refine ⟨{ kind, text := c.textTo d, span := start.spanTo d }, d, ?_, rfl, hdr⟩
  simp only [ofCursor, hstart, settle, bind, Except.bind, hd]
  rfl

end Statement

end Hermetic

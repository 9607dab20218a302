/-
Lines that are written are read as statements.

* `Statement.shape_label`, `Statement.shape_comment`: labels and comments;
* `Statement.shape_directive_line`, `Statement.shape_binding`: directives with arguments that close
  what they open, and those that bind a symbol to a value;
* `IsMnemonic`, `Statement.exists_shape_instruction`: instructions with operands that are read;
* `Statement.newline_notMem_oneLine`: a statement that is quoted stays on one line.
-/
import Hermetic.Proofs.Operand.Written
import Hermetic.Proofs.Statement.Spelled
import Hermetic.Proofs.Text.Parts

namespace Hermetic

open Scan (Whole)

variable {arch : Arch}

/-! ### Mnemonics -/

/-- Words that change a mnemonic, and the mnemonic. -/
structure IsMnemonic (modifiers : List String) (mnemonic : String) : Prop where
  modifiers : ∀ w ∈ modifiers, IsWord w.toList ∧ w.toLower ∈ Statement.modifierWords
  mnemonic : IsWord mnemonic.toList

lemma Words.isMnemonic {l : List Char} {modifiers : List String} {mnemonic : String}
    (h : Words arch l modifiers mnemonic) : IsMnemonic modifiers mnemonic := by
  induction h with
  | single hw =>
      refine ⟨nofun, ?_⟩
      rwa [String.toList_ofList]
  | cons _ hw hmem _ _ _ ih =>
      refine ⟨fun w hw' => ?_, ih.mnemonic⟩
      rcases List.mem_cons.mp hw' with rfl | hw'
      · rw [String.toList_ofList]
        exact ⟨hw, hmem⟩
      · exact ih.modifiers w hw'

lemma IsMnemonic.words {modifiers : List String} {mnemonic : String}
    (h : IsMnemonic modifiers mnemonic) :
    Words .x86_64 ((String.join (modifiers.map (· ++ " "))).toList ++ mnemonic.toList) modifiers
      mnemonic := by
  induction modifiers with
  | nil =>
      have hwords : Words .x86_64 mnemonic.toList [] _ := .single h.mnemonic
      rw [String.ofList_toList] at hwords
      exact hwords
  | cons w modifiers ih =>
      obtain ⟨hw, hmem⟩ := h.modifiers w List.mem_cons_self
      have hrest := ih ⟨fun v hv => h.modifiers v (List.mem_cons_of_mem _ hv), h.mnemonic⟩
      have hlower : (String.ofList w.toList).toLower ∈ Statement.modifierWords := by
        rwa [String.ofList_toList]
      have hspace : Spacing [' '] := .blank rfl .nil
      have hwords := Words.cons rfl hw hlower hspace (by simp) hrest
      rw [String.ofList_toList] at hwords
      simpa [String.toList_join] using hwords

namespace Statement

open Cursor

/-! ### Labels and comments -/

lemma shape_label {name : List Char} (h : LabelName name) :
    Shape arch (name ++ [':']) (.label (labelOf name)) :=
  ⟨[], _, .nil, .label h, rfl⟩

lemma shape_comment {lead text : List Char} (hlead : StartsComment arch true lead)
    (h : '\n' ∉ text) : Shape arch (lead ++ (text ++ ['\n'])) .comment :=
  ⟨[], _, .nil, .comment hlead h, rfl⟩

lemma labelName_of_isName {name : String} (h : IsName name) : LabelName name.toList := by
  obtain ⟨ch, r, hname, hstart, hchars⟩ := exists_cons_of_isSymbolName h
  rw [hname] at hchars ⊢
  exact .inr ⟨hstart, fun d hd => hchars d (List.mem_cons_of_mem _ hd)⟩

/-! ### Arguments -/

/-- Arguments that close what they open start with no comment. -/
lemma atWord_of_whole {raw stop : List Char} (hraw : Whole arch true raw)
    (hstop : Terminator arch stop) (hhead : ∀ ch, raw.head? = some ch → isSpace ch = false) :
    AtWord (raw ++ stop) := by
  obtain ⟨t, ht, -⟩ := hraw
  cases raw with
  | nil => exact atWord_of_terminator hstop
  | cons ch raw =>
      refine ⟨hhead ch rfl, ?_⟩
      rintro ⟨rfl, hstar⟩
      cases raw with
      | nil =>
          obtain ⟨d, l, rfl, hd, -⟩ := hstop.exists_cons
          obtain rfl : d = '*' := Option.some.inj hstar
          simp [EndsAt] at hd
      | cons d raw =>
          obtain rfl : d = '*' := by simpa using hstar
          obtain ⟨u, hslash, hstar⟩ := Scan.run_cons_eq_some_iff.mp ht
          obtain ⟨v, hstar, -⟩ := Scan.run_cons_eq_some_iff.mp hstar
          obtain rfl : (⟨[], .slash⟩ : Scan.State) = u := by
            simpa [Scan.step, Scan.Ends] using hslash
          simp [Scan.step] at hstar

lemma spacing_of_isSpace {l : List Char} (h : ∀ ch ∈ l, isSpace ch = true) : Spacing l := by
  induction l with
  | nil => exact .nil
  | cons ch l ih =>
      exact .blank (h ch List.mem_cons_self) (ih fun d hd => h d (List.mem_cons_of_mem _ hd))

lemma isBlank_of_isSpace {ch : Char} (h : isSpace ch = true) : Text.isBlank ch = true := by
  simp only [isSpace, Bool.or_eq_true, beq_iff_eq] at h
  rcases h with ((rfl | rfl) | rfl) | rfl <;> decide

/-- Arguments that close what they open are kept, but for the blanks around them. -/
lemma arguments_of_whole {raw : List Char} (hraw : Whole arch true raw) :
    Arguments arch (some '\n') [] [] raw (Text.trimEnd raw) := by
  obtain ⟨t, ht, ho, hp⟩ := hraw
  have hargs : Arguments arch (some '\n') [] [] raw _ :=
    arguments_of_run ht (.inl rfl) ho hp (by decide)
  rwa [List.append_nil] at hargs

/-- The blanks before arguments that close what they open. -/
lemma exists_atWord {raw : List Char} (hraw : Whole arch true raw) :
    ∃ blanks, raw = blanks ++ raw.dropWhile isSpace ∧ Spacing blanks ∧
      Whole arch true (raw.dropWhile isSpace) ∧ AtWord (raw.dropWhile isSpace ++ ['\n']) := by
  obtain ⟨blanks, rest, hsplit, -, hrest, hblanks, hhead⟩ := exists_span isSpace raw
  have hinert (ch : Char) (hch : ch ∈ blanks) : Scan.Inert ch :=
    Scan.inert_of_isBlank (isBlank_of_isSpace (hblanks ch hch))
      (hraw.ne_newline (hsplit ▸ List.mem_append_left _ hch))
  have hwhole : Whole arch true rest := by
    rwa [hsplit, Scan.whole_inert_append hinert] at hraw
  rw [hrest]
  exact ⟨blanks, hsplit, spacing_of_isSpace hblanks, hwhole, atWord_of_whole hwhole .line hhead⟩

/-! ### Directives -/

lemma toList_intercalate_comma (texts : List String) :
    (", ".intercalate texts).toList = Piece.join (texts.map String.toList) := by
  rw [String.toList_intercalate]
  rfl

/-- The kind of a directive that binds no symbol. -/
lemma exists_directiveKind {name : String} (h : name.toLower ∉ bindingDirectives)
    (args : List Char) : ∃ kind, directiveKind name args = .ok kind := by
  unfold directiveKind
  dsimp only
  split
  · exact ⟨_, rfl⟩
  · split
    · exact ⟨_, rfl⟩
    · split
      · exact ⟨_, rfl⟩
      · exact ⟨_, rfl⟩

/-- A directive that is written is read. -/
lemma shape_directive {indent name gap raw : List Char} {kind : Kind} (hindent : Spacing indent)
    (hne : name ≠ []) (hname : ∀ ch ∈ name, isSymbolChar ch = true) (hgap : Spacing gap)
    (hgap' : raw ≠ [] → gap ≠ []) (hraw : Whole arch true raw)
    (hkind : directiveKind (String.ofList ('.' :: name))
      (Text.trimEnd (raw.dropWhile isSpace)) = .ok kind) :
    Shape arch (indent ++ '.' :: (name ++ (gap ++ (raw ++ ['\n'])))) kind := by
  obtain ⟨blanks, hsplit, hblanks, hwhole, hword⟩ := exists_atWord hraw
  have hhead (ch : Char) (hch : (gap ++ (raw ++ ['\n'])).head? = some ch) :
      isSymbolChar ch = false ∧ ch ≠ ':' := by
    cases gap with
    | cons g gap =>
        cases hch
        exact hgap.head rfl
    | nil =>
        obtain rfl : raw = [] := not_not.mp fun hraw => hgap' hraw rfl
        cases hch
        decide
  have htext : gap ++ (raw ++ ['\n']) =
      (gap ++ blanks) ++ (raw.dropWhile isSpace ++ ['\n']) := by
    rw [List.append_assoc, ← List.append_assoc blanks, ← hsplit]
  rw [htext] at hhead ⊢
  exact ⟨indent, _, hindent, .directive hne hname hhead (hgap.append hblanks) hword
    (arguments_of_whole hwhole) .line hkind, rfl⟩

/-- A directive that is written with arguments that close what they open is read. -/
lemma shape_directive_line {indented : Bool} {directive gap : String} {arguments : List String}
    {name : List Char} {kind : Kind} (hdirective : directive.toList = '.' :: name) (hne : name ≠ [])
    (hname : ∀ ch ∈ name, isSymbolChar ch = true) (hgap : gap = " " ∨ gap = "\t")
    (hargs : ∀ a ∈ arguments, Whole arch true a.toList)
    (hkind : directiveKind directive (Text.trimEnd
      ((Piece.join (arguments.map String.toList)).dropWhile isSpace)) = .ok kind) :
    Shape arch (Line.directive indented directive gap arguments).text.toList kind := by
  have hraw : Whole arch true (Piece.join (arguments.map String.toList)) := by
    refine Piece.whole_join fun p hp => ?_
    obtain ⟨a, ha, rfl⟩ := List.mem_map.mp hp
    exact hargs a ha
  have hindent : Spacing (if indented then "\t" else "").toList := by
    cases indented
    · exact .nil
    · exact .blank rfl .nil
  have hspace : Spacing (if arguments.isEmpty then "" else gap).toList := by
    split
    · exact .nil
    · rcases hgap with rfl | rfl <;> exact .blank rfl .nil
  -- a gap is written wherever there are arguments
  have hspace' : Piece.join (arguments.map String.toList) ≠ [] →
      (if arguments.isEmpty then "" else gap).toList ≠ [] := by
    intro hjoin
    have hempty : ¬ arguments.isEmpty = true := by
      intro hempty
      rw [List.isEmpty_iff.mp hempty] at hjoin
      exact hjoin rfl
    rw [if_neg hempty]
    rcases hgap with rfl | rfl <;> decide
  have hdirective' : String.ofList ('.' :: name) = directive := by
    rw [← hdirective, String.ofList_toList]
  have hshape := shape_directive hindent hne hname hspace hspace' hraw (hdirective' ▸ hkind)
  -- the line, part by part
  have htext : (Line.directive indented directive gap arguments).text.toList =
      (if indented then "\t" else "").toList ++ '.' :: (name ++
        ((if arguments.isEmpty then "" else gap).toList ++
          (Piece.join (arguments.map String.toList) ++ ['\n']))) := by
    have htab : "\t".toList = ['\t'] := rfl
    rw [Line.text, ← toList_intercalate_comma]
    cases arguments with
    | nil => cases indented <;> simp [hdirective, htab]
    | cons a arguments => cases indented <;> simp [hdirective, htab]
  rw [htext]
  exact hshape

/-- A directive that binds a name to a value. -/
lemma directiveKind_binding {directive : String} (hbinding : directive.toLower ∈ bindingDirectives)
    {args : List Char} {p q : Piece} {ps : List Piece} (hsplit : Piece.split args = p :: q :: ps)
    (hname : isSymbolName p.text = true) :
    directiveKind directive args = .ok (.binding directive (String.ofList p.text)
      (Expr.parse (Text.trim (Text.dropBytes q.offset args)))) := by
  have hother : directive.toLower ∉ visibilityDirectives ∧
      directive.toLower ∉ lineInfoDirectives ∧ directive.toLower ∉ symbolicDirectives := by
    revert hbinding
    generalize directive.toLower = lower
    intro hbinding
    simp only [bindingDirectives, List.mem_cons, List.not_mem_nil, or_false] at hbinding
    rcases hbinding with rfl | rfl | rfl | rfl <;> decide
  rw [directiveKind]
  rw [if_neg hother.1, if_neg hother.2.1, if_neg hother.2.2, if_pos hbinding, hsplit]
  exact if_pos hname

lemma trimmed_of_isName {name : String} (h : IsName name) : X86.Trimmed name.toList := by
  obtain ⟨ch, l, hname, -, hchars⟩ := exists_cons_of_isSymbolName h
  refine ⟨fun d hd => ?_, fun d hd => ?_⟩
  · simpa using not_isBlank_of_isSymbolChar (hchars d (List.mem_of_mem_head? hd))
  · simpa using not_isBlank_of_isSymbolChar (hchars d (List.mem_of_getLast? hd))

lemma whole_of_isName {commas : Bool} {name : String} (h : IsName name) :
    Whole arch commas name.toList :=
  ⟨_, Scan.run_name h, .inl rfl, rfl⟩

/-- The value of a directive that is written, without the blank before it. -/
lemma trim_trimEnd_blank_cons {value : List Char} (h : X86.Trimmed value) :
    Text.trim (Text.trimEnd (' ' :: value)) = value := by
  cases hlast : value.getLast? with
  | none =>
      rw [List.getLast?_eq_none_iff.mp hlast]
      rfl
  | some ch =>
      have hkept : Text.trimEnd (' ' :: value ++ []) = ' ' :: value ++ Text.trimEnd [] :=
        Piece.trimEnd_append (by rw [List.getLast?_cons, hlast]; rfl) (h.last ch hlast)
      rw [List.append_nil] at hkept
      rw [hkept, Text.trimEnd, List.reverse_nil, List.dropWhile_nil, List.reverse_nil,
        List.append_nil, Piece.trim_blank_cons, h.trim_eq]

/-- A directive that binds a name to a value is read as such. -/
lemma shape_binding {directive name value : String} {rest : List Char}
    (hdirective : directive.toList = '.' :: rest) (hne : rest ≠ [])
    (hrest : ∀ ch ∈ rest, isSymbolChar ch = true)
    (hbinding : directive.toLower ∈ bindingDirectives) (hname : IsName name)
    (hvalue : Whole arch true value.toList) (htrimmed : X86.Trimmed value.toList) :
    Shape arch (Line.column directive [name, value]).text.toList
      (.binding directive name (Expr.parse value.toList)) := by
  have hwhole {a : String} (ha : a ∈ [name, value]) : Whole arch true a.toList := by
    simp only [List.mem_cons, List.not_mem_nil, or_false] at ha
    rcases ha with rfl | rfl
    · exact whole_of_isName hname
    · exact hvalue
  refine shape_directive_line hdirective hne hrest (.inr rfl) (fun a => hwhole) ?_
  have hjoin : Piece.join ([name, value].map String.toList) =
      (name.toList ++ [',']) ++ (' ' :: value.toList) := by
    rw [List.map_cons, List.map_singleton, Piece.join_cons_cons, Piece.join_singleton]
    simp
  -- the name starts with no blank, so that nothing is dropped in front of it
  have hargs : Text.trimEnd ((Piece.join ([name, value].map String.toList)).dropWhile isSpace) =
      name.toList ++ ',' :: Text.trimEnd (' ' :: value.toList) := by
    obtain ⟨ch, l, hl, -, hchars⟩ := exists_cons_of_isSymbolName hname
    have hspace : ¬ isSpace ch = true := fun hspace => by
      have hblank := not_isBlank_of_isSymbolChar (hchars ch (by rw [hl]; simp))
      exact hblank (isBlank_of_isSpace hspace)
    have hdrop : ((name.toList ++ [',']) ++ (' ' :: value.toList)).dropWhile isSpace =
        (name.toList ++ [',']) ++ (' ' :: value.toList) := by
      rw [hl, List.cons_append, List.cons_append, List.dropWhile_cons_of_neg hspace]
    have hcomma : (name.toList ++ [',']).getLast? = some ',' := List.getLast?_concat
    rw [hjoin, hdrop, Piece.trimEnd_append hcomma (by decide)]
    simp
  have htrimName := (trimmed_of_isName hname).trim_eq
  have hwholeName : Whole arch false name.toList := whole_of_isName hname
  -- the first comma is the one behind the name
  obtain ⟨p, q, ps, hsplit, hp, hq⟩ := Piece.exists_split_append hwholeName (by
    rw [htrimName]
    obtain ⟨ch, l, hl, -⟩ := exists_cons_of_isSymbolName hname
    rw [hl]
    nofun) (Text.trimEnd (' ' :: value.toList))
  rw [htrimName] at hp
  rw [hargs, directiveKind_binding hbinding hsplit (hp ▸ hname), hq, hp,
    trim_trimEnd_blank_cons htrimmed, String.ofList_toList]

/-! ### Directives whose arguments are cut apart -/

lemma trimEnd_of_trimmed {l : List Char} (h : X86.Trimmed l) : Text.trimEnd l = l := by
  cases hlast : l.getLast? with
  | none =>
      rw [List.getLast?_eq_none_iff.mp hlast]
      rfl
  | some ch =>
      have hkept := Piece.trimEnd_append (r := []) hlast (h.last ch hlast)
      rw [List.append_nil] at hkept
      rw [hkept]
      exact List.append_nil l

/-- Texts that are put together are cut apart again, also without the blanks at the end. -/
lemma map_trim_cutCommas_trimEnd_join {p : List Char} {ps : List (List Char)}
    (h : ∀ q ∈ p :: ps, Whole arch false q ∧ X86.Trimmed q) :
    (Piece.cutCommas 0 false (Text.trimEnd (Piece.join (p :: ps)))).map Text.trim = p :: ps ∧
      (Piece.cutCommas 0 false (Text.trimEnd (' ' :: Piece.join (p :: ps)))).map Text.trim =
        p :: ps := by
  obtain ⟨hp, htrimmed⟩ := h p List.mem_cons_self
  have hblank := Piece.whole_blank_cons hp
  -- by the texts; all but the first stand behind a blank, so both forms go together
  induction ps generalizing p with
  | nil =>
      rw [Piece.join_singleton, Piece.cutCommas_of_whole hp.trimEnd,
        Piece.cutCommas_of_whole hblank.trimEnd, List.map_singleton, List.map_singleton,
        trim_trimEnd_blank_cons htrimmed, trimEnd_of_trimmed htrimmed, htrimmed.trim_eq]
      exact ⟨rfl, rfl⟩
  | cons q ps ih =>
      obtain ⟨hq, hqtrimmed⟩ := h q (by simp)
      have hrest := (ih (fun r hr => h r (List.mem_cons_of_mem _ hr)) hq hqtrimmed
        (Piece.whole_blank_cons hq)).2
      have hcut {l : List Char} (hl : Whole arch false l) (htrim : Text.trim l = p) :
          (Piece.cutCommas 0 false (Text.trimEnd (l ++ ',' :: ' ' :: Piece.join (q :: ps)))).map
            Text.trim = p :: q :: ps := by
        have hcomma : (l ++ [',']).getLast? = some ',' := List.getLast?_concat
        have htext : l ++ ',' :: ' ' :: Piece.join (q :: ps) =
            (l ++ [',']) ++ ' ' :: Piece.join (q :: ps) := by simp
        rw [htext, Piece.trimEnd_append hcomma (by decide), List.append_assoc,
          List.singleton_append, Piece.cutCommas_append_comma hl, List.map_cons, htrim, hrest]
      rw [Piece.join_cons_cons]
      refine ⟨hcut hp htrimmed.trim_eq, ?_⟩
      rw [← List.cons_append]
      exact hcut hblank ((Piece.trim_blank_cons p).trans htrimmed.trim_eq)

/-- The arguments that are written for a directive are read again. -/
lemma text_split_trimEnd_join {texts : List (List Char)}
    (h : ∀ p ∈ texts, Whole arch false p ∧ X86.Trimmed p) (hone : texts ≠ [[]]) :
    (Piece.split (Text.trimEnd ((Piece.join texts).dropWhile isSpace))).map Piece.text = texts := by
  cases texts with
  | nil => rfl
  | cons p ps =>
      -- the text starts and ends in a text without blanks around it, or at a comma
      have hstart : ∃ ch l, Piece.join (p :: ps) = ch :: l ∧ Text.isBlank ch = false := by
        cases p with
        | nil =>
            cases ps with
            | nil => exact (hone rfl).elim
            | cons q ps => exact ⟨',', _, Piece.join_cons_cons .., by decide⟩
        | cons ch p =>
            have hch := (h _ List.mem_cons_self).2.head ch rfl
            cases ps with
            | nil => exact ⟨ch, p, Piece.join_singleton _, hch⟩
            | cons q ps => exact ⟨ch, _, Piece.join_cons_cons .., hch⟩
      obtain ⟨ch, l, hjoin, hch⟩ := hstart
      have hspace : ¬ isSpace ch = true := fun hspace => by
        rw [isBlank_of_isSpace hspace] at hch
        cases hch
      have hdrop : (Piece.join (p :: ps)).dropWhile isSpace = Piece.join (p :: ps) := by
        rw [hjoin, List.dropWhile_cons_of_neg hspace]
      have hall : ¬ (Text.trimEnd (Piece.join (p :: ps))).all Text.isBlank = true := by
        have hhead := Piece.trimEnd_append (a := [ch]) (r := l) rfl hch
        rw [List.singleton_append, List.singleton_append] at hhead
        rw [hjoin, hhead, List.all_cons, hch]
        exact Bool.false_ne_true
      rw [hdrop, Piece.split, if_neg hall, Piece.map_text_ofCuts]
      exact (map_trim_cutCommas_trimEnd_join h).1

/-- A text that is cut apart is not one empty argument. -/
lemma map_text_split_ne (l : List Char) : (Piece.split l).map Piece.text ≠ [[]] := by
  unfold Piece.split
  split
  · nofun
  · next hall =>
      rw [Piece.map_text_ofCuts]
      intro hone
      obtain ⟨cut, hcuts, htrim⟩ := List.map_eq_singleton_iff.mp hone
      have hcut : cut = l := by
        have hjoined := Piece.intercalate_cutCommas 0 false l
        rwa [hcuts, List.intercalate, List.intersperse_singleton, List.flatten_singleton]
          at hjoined
      refine hall (List.all_eq_true.mpr fun ch hch => ?_)
      rcases X86.isBlank_or_mem_trim (hcut ▸ hch) with hblank | hmem
      · exact hblank
      · rw [htrim] at hmem
        cases hmem

/-! ### Instructions -/

lemma trimmed_join {texts : List (List Char)}
    (h : ∀ t ∈ texts, X86.Trimmed t ∧ t ≠ []) : X86.Trimmed (Piece.join texts) := by
  induction texts with
  | nil => exact ⟨nofun, nofun⟩
  | cons t texts ih =>
      obtain ⟨ht, hne⟩ := h t List.mem_cons_self
      cases texts with
      | nil => rwa [Piece.join_singleton]
      | cons u texts =>
          have hrest := ih fun v hv => h v (List.mem_cons_of_mem _ hv)
          have hjoin : Piece.join (u :: texts) ≠ [] := by
            have hu := (h u (by simp)).2
            cases texts with
            | nil => rwa [Piece.join_singleton]
            | cons v texts =>
                rw [Piece.join_cons_cons]
                simp [hu]
          obtain ⟨ch, l, rfl⟩ := List.exists_cons_of_ne_nil hne
          rw [Piece.join_cons_cons]
          refine ⟨fun d hd => ht.head d hd, fun d hd => hrest.last d ?_⟩
          have hparts : ch :: l ++ ',' :: ' ' :: Piece.join (u :: texts) =
              (ch :: l ++ [',', ' ']) ++ Piece.join (u :: texts) := by simp
          rwa [hparts, List.getLast?_append_of_ne_nil _ hjoin] at hd

/-- Pieces that are read as operands. -/
lemma exists_operands {pieces : List Piece} (h : ∀ p ∈ pieces, X86.IsOperand p.text) :
    ∃ os, List.Forall₂ (fun p o => p.text ≠ [] ∧ X86.operand p.text = .ok o) pieces os := by
  induction pieces with
  | nil => exact ⟨[], .nil⟩
  | cons p pieces ih =>
      obtain ⟨os, hos⟩ := ih fun q hq => h q (List.mem_cons_of_mem _ hq)
      obtain ⟨-, -, hne, o, ho⟩ := h p List.mem_cons_self
      exact ⟨o :: os, .cons ⟨hne, ho⟩ hos⟩

/-- Whether an operand that follows a mnemonic would be read as the mnemonic instead. -/
def StartsWithLetter (texts : List String) : Prop :=
  ∃ t, texts.head? = some t ∧ ∃ ch, t.toList.head? = some ch ∧ ch.isAlpha = true

lemma toList_line (modifiers : List String) (mnemonic gap : String) (texts : List String) :
    (Instruction.line modifiers mnemonic gap texts).toList =
      '\t' :: (((String.join (modifiers.map (· ++ " "))).toList ++ mnemonic.toList) ++
        ((if texts.isEmpty then "" else gap).toList ++
          (Piece.join (texts.map String.toList) ++ ['\n']))) := by
  have htab : "\t".toList = ['\t'] := rfl
  rw [Instruction.line, ← toList_intercalate_comma]
  cases texts with
  | nil => simp [htab]
  | cons t texts => simp [htab]

/-- A mnemonic ends where the gap, or the line, comes after it. -/
lemma endsMnemonic_gap {gap : String} (hgap : gap = " " ∨ gap = "\t") (texts : List String) :
    EndsMnemonic .x86_64 ((if texts.isEmpty then "" else gap).toList ++
      (Piece.join (texts.map String.toList) ++ ['\n'])) := by
  cases texts with
  | nil => exact Or.inl (by simp)
  | cons t texts =>
      obtain ⟨ch, hch, hmem⟩ : ∃ ch, gap.toList = [ch] ∧ ch ∈ [' ', '\t', '\r', '\n', ';'] := by
        rcases hgap with rfl | rfl
        · exact ⟨' ', rfl, by decide⟩
        · exact ⟨'\t', rfl, by decide⟩
      rw [if_neg (by simp), hch]
      exact Or.inl hmem

/-- The operands, or the end of the line, start with a letter only if the first operand does. -/
lemma isAlpha_head_of_not_startsWithLetter {texts : List String} {ch : Char}
    (hgiven : ∀ t ∈ texts, t.toList ≠ []) (hnot : ¬ StartsWithLetter texts)
    (hch : (Piece.join (texts.map String.toList) ++ ['\n']).head? = some ch) :
    ch.isAlpha = false := by
  cases texts with
  | nil =>
      cases hch
      rfl
  | cons t texts =>
      obtain ⟨d, l, hd⟩ := List.exists_cons_of_ne_nil (hgiven t List.mem_cons_self)
      have hhead : (Piece.join ((t :: texts).map String.toList) ++ ['\n']).head? = some d := by
        cases texts with
        | nil => simp [hd]
        | cons u texts => simp [Piece.join_cons_cons, hd]
      rw [hhead] at hch
      obtain rfl : d = ch := by simpa using hch
      cases halpha : d.isAlpha with
      | false => rfl
      | true => exact (hnot ⟨t, rfl, d, by rw [hd]; rfl, halpha⟩).elim

/-- Arguments without blanks around them are a word. -/
lemma atWord_of_trimmed {l : List Char} (hwhole : Whole .x86_64 true l) (htrim : X86.Trimmed l) :
    AtWord (l ++ ['\n']) := by
  refine atWord_of_whole hwhole .line fun ch hch => ?_
  cases hspace : isSpace ch with
  | false => rfl
  | true =>
      have hblank := htrim.head ch hch
      rw [isBlank_of_isSpace hspace] at hblank
      cases hblank

/-- An instruction with operands that are read is read, unless it consists of a word that changes
a mnemonic and an operand that starts like one. -/
lemma exists_shape_instruction {modifiers : List String} {mnemonic gap : String}
    {texts : List String} (hm : IsMnemonic modifiers mnemonic) (hgap : gap = " " ∨ gap = "\t")
    (htexts : ∀ t ∈ texts, X86.IsOperand t.toList)
    (hfirst : mnemonic.toLower ∈ modifierWords → ¬ StartsWithLetter texts) :
    ∃ operands, List.Forall₂ (fun t o => X86.operand t.toList = .ok o) texts operands ∧
      Shape .x86_64 (Instruction.line modifiers mnemonic gap texts).toList
        (.instruction { modifiers, mnemonic, operands }) := by
  have hpieces (p : List Char) (hp : p ∈ texts.map String.toList) : X86.IsOperand p := by
    obtain ⟨t, ht, rfl⟩ := List.mem_map.mp hp
    exact htexts t ht
  -- the operands as one text: it is cut into them again, and is read as arguments
  have htrimmed := trimmed_join fun p hp => ⟨(hpieces p hp).trimmed, (hpieces p hp).given⟩
  have hraw : Whole .x86_64 true (Piece.join (texts.map String.toList)) :=
    Piece.whole_join fun p hp => (hpieces p hp).whole.mono
  have hsplit : (Piece.split (Piece.join (texts.map String.toList))).map Piece.text =
      texts.map String.toList := by
    rw [Piece.text_split_join (fun p hp => (hpieces p hp).whole) fun p hp => by
      rw [(hpieces p hp).trimmed.trim_eq]
      exact (hpieces p hp).given]
    exact List.map_congr_left (fun p hp => (hpieces p hp).trimmed.trim_eq) |>.trans (List.map_id _)
  have hargs : Arguments .x86_64 (some '\n') [] [] (Piece.join (texts.map String.toList))
      (Piece.join (texts.map String.toList)) := by
    have hwhole := arguments_of_whole hraw
    rwa [trimEnd_of_trimmed htrimmed] at hwhole
  obtain ⟨os, hos⟩ := exists_operands
    fun p (hp : p ∈ Piece.split (Piece.join (texts.map String.toList))) =>
      hpieces p.text (hsplit ▸ List.mem_map_of_mem hp)
  have hread : List.Forall₂ (fun t o => X86.operand t.toList = .ok o) texts os := by
    have hpieces := hos.imp fun _ _ => And.right
    rwa [← List.forall₂_map_left_iff (R := fun l o => X86.operand l = .ok o), hsplit,
      List.forall₂_map_left_iff] at hpieces
  -- what stands between the mnemonic and them
  have hspace : Spacing (if texts.isEmpty then "" else gap).toList := by
    split
    · exact .nil
    · rcases hgap with rfl | rfl <;> exact .blank rfl .nil
  have hmodifier (hmem : mnemonic.toLower ∈ modifierWords) (ch : Char)
      (hch : (Piece.join (texts.map String.toList) ++ ['\n']).head? = some ch) :
      ch.isAlpha = false :=
    isAlpha_head_of_not_startsWithLetter (fun t ht => (htexts t ht).given) (hfirst hmem) hch
  refine ⟨os, hread, ?_⟩
  rw [toList_line]
  exact ⟨['\t'], _, .blank rfl .nil,
    .instruction hm.words (endsMnemonic_gap hgap texts) (fun _ => hmodifier) hspace
      (atWord_of_trimmed hraw htrimmed) hargs .line hos, rfl⟩

/-! ### Quoted statements -/

/-- A statement that is quoted stays on one line. -/
lemma newline_notMem_oneLine (s : Statement) : '\n' ∉ s.oneLine.toList := by
  have hjoin {texts : List (List Char)} (h : ∀ t ∈ texts, '\n' ∉ t) :
      '\n' ∉ [' '].intercalate texts := by
    induction texts with
    | nil => simp [List.intercalate]
    | cons t texts ih =>
        have ht := h t List.mem_cons_self
        have hrest := ih fun u hu => h u (List.mem_cons_of_mem _ hu)
        cases texts with
        | nil => simpa [List.intercalate] using ht
        | cons u texts =>
            simp only [List.intercalate, List.intersperse_cons_cons, List.flatten_cons,
              List.mem_append, List.mem_singleton] at hrest ⊢
            simp [ht, hrest]
  rw [Statement.oneLine, String.toList_intercalate]
  refine hjoin fun t ht => ?_
  obtain ⟨text, htext, rfl⟩ := List.mem_map.mp ht
  obtain ⟨u, hu, rfl⟩ := List.mem_map.mp htext
  rw [String.toList_ofList]
  obtain ⟨p, hp, rfl⟩ := List.mem_map.mp (List.mem_of_mem_filter hu)
  exact fun hline => Text.not_mem_of_mem_splitOn p hp (X86.mem_of_mem_trim hline)

end Statement

end Hermetic

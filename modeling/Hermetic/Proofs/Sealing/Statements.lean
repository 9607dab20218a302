/-
What is written for labels and directives is read again.

* `Text.eq_of_cut?`, `Text.cut?_append`: the first place where a text occurs;
* `Spacing.insert`, `Statement.exists_shape_label_insert`: characters of a name, put in after such
  a character, leave blanks and comments and labels what they are;
* `Statement.DirectiveIn`, `Statement.exists_args_of_shape`: how a directive is spelled;
* `Statement.writes_sealLabel`, `Statement.writes_sealBssLabel`: a public label and its alias;
* `Statement.boundKinds`, `Statement.writes_sealBinding`: a directive that binds a symbol, and the
  same for its alias;
* `Statement.exists_writes_emission`: any statement, where instructions are left to the reader.
-/
import Hermetic.Proofs.Sealing.Output
import Hermetic.Sealing.Statement
import Mathlib.Data.List.Chain

namespace Hermetic

open Scan (Whole)

variable {arch : Arch}

/-! ### Directives -/

namespace Statement

/-- The kinds of a directive with its arguments. -/
inductive IsDirective (name : String) (args : List Char) : Kind → Prop
  | visibility : IsDirective name args (.visibility (String.ofList args))
  | lineInfo : IsDirective name args (.lineInfo name (String.ofList args))
  | symbolic : name.toLower ∈ symbolicDirectives →
      IsDirective name args (.symbolic name ((Piece.split args).map fun p => Expr.parse p.text))
  | binding {p q : Piece} {ps : List Piece} : name.toLower ∈ bindingDirectives →
      Piece.split args = p :: q :: ps → isSymbolName p.text = true →
      IsDirective name args (.binding name (String.ofList p.text)
        (Expr.parse (Text.trim (Text.dropBytes q.offset args))))
  | other : name.toLower ∉ bindingDirectives →
      IsDirective name args (.directive name (String.ofList args))

lemma isDirective_of_directiveKind {name : String} {args : List Char} {kind : Kind}
    (h : directiveKind name args = .ok kind) : IsDirective name args kind := by
  rw [directiveKind] at h
  -- the lists of directives are asked one after another
  by_cases hvisibility : name.toLower ∈ visibilityDirectives
  · rw [if_pos hvisibility] at h
    cases h
    exact .visibility
  rw [if_neg hvisibility] at h
  by_cases hlineInfo : name.toLower ∈ lineInfoDirectives
  · rw [if_pos hlineInfo] at h
    cases h
    exact .lineInfo
  rw [if_neg hlineInfo] at h
  by_cases hsymbolic : name.toLower ∈ symbolicDirectives
  · rw [if_pos hsymbolic] at h
    cases h
    exact .symbolic hsymbolic
  rw [if_neg hsymbolic] at h
  by_cases hbinding : name.toLower ∈ bindingDirectives
  · rw [if_pos hbinding] at h
    split at h
    · next p q ps hsplit =>
        split at h
        · next hname =>
            cases h
            exact .binding hbinding hsplit hname
        · cases h
    · cases h
  · rw [if_neg hbinding] at h
    cases h
    exact .other hbinding

/-- The name that a statement of a kind defines. -/
def Kind.definedName? : Kind → Option String
  | .label (.symbol name) | .label (.dotLocal name) | .binding _ name _ => some name
  | _ => none

/-- Only directives that bind a symbol define a name. -/
lemma definedName?_of_directiveKind {name : String} {args : List Char} {kind : Kind}
    (h : directiveKind name args = .ok kind) (hbinding : name.toLower ∉ bindingDirectives) :
    kind.definedName? = none := by
  cases isDirective_of_directiveKind h with
  | binding hmem => exact absurd hmem hbinding
  | _ => rfl

/-- A directive that is read: its name, and arguments that close what they open, make up its
kind. -/
def DirectiveIn (arch : Arch) (kind : Kind) : Prop :=
  ∃ name args, name ≠ [] ∧ (∀ ch ∈ name, isSymbolChar ch = true) ∧ Whole arch true args ∧
    IsDirective (String.ofList ('.' :: name)) args kind

/-- How a directive is spelled. -/
lemma exists_args_of_shape {l : List Char} {kind : Kind} (h : Shape arch l kind)
    (hblank : kind ≠ .blank) (hcomment : kind ≠ .comment) (hlabel : ∀ label, kind ≠ .label label)
    (hinsn : ∀ insn, kind ≠ .instruction insn) : DirectiveIn arch kind := by
  obtain ⟨lead, body, -, hbody, -⟩ := h
  cases hbody with
  | blank => exact (hblank rfl).elim
  | comment => exact (hcomment rfl).elim
  | label => exact (hlabel _ rfl).elim
  | instruction => exact (hinsn _ rfl).elim
  | directive hne hname _ _ _ hargs _ hkind =>
      exact ⟨_, _, hne, hname, hargs.whole, isDirective_of_directiveKind hkind⟩

end Statement

/-! ### The first occurrence of a text -/

namespace Text

lemma eq_of_cut? {found l a b : List Char} (h : cut? found l = some (a, b)) :
    l = a ++ (found ++ b) := by
  induction l generalizing a with
  | nil =>
      unfold cut? at h
      split at h
      · next hempty =>
          cases h
          rw [List.isEmpty_iff.mp hempty]
          rfl
      · cases h
  | cons ch l ih =>
      unfold cut? at h
      split at h
      · next r hafter =>
          obtain ⟨ha, hb⟩ := Prod.mk.inj (Option.some.inj h)
          rw [← ha, ← hb, List.nil_append]
          exact after?_eq_some_iff.mp hafter
      · obtain ⟨⟨c, d⟩, hcut, heq⟩ := Option.map_eq_some_iff.mp h
        cases heq
        rw [ih hcut]
        rfl

/-- A text that occurs is found. -/
lemma cut?_ne_none {found a b : List Char} : cut? found (a ++ (found ++ b)) ≠ none := by
  induction a with
  | nil =>
      cases h : found ++ b with
      | nil =>
          rw [(List.append_eq_nil_iff.mp h).1]
          exact Option.some_ne_none _
      | cons ch l =>
          have hafter : after? found (ch :: l) = some b := after?_eq_some_iff.mpr h.symm
          rw [List.nil_append, cut?, hafter]
          exact Option.some_ne_none _
  | cons ch a ih =>
      rw [List.cons_append, cut?]
      split
      · exact Option.some_ne_none _
      · rwa [Ne, Option.map_eq_none_iff]

/-- A text is found where its first character occurs first. -/
lemma cut?_append {ch : Char} {found a b : List Char} (ha : ch ∉ a) :
    cut? (ch :: found) (a ++ ch :: (found ++ b)) = some (a, b) := by
  induction a with
  | nil =>
      have hafter : after? (ch :: found) (ch :: (found ++ b)) = some b :=
        after?_eq_some_iff.mpr rfl
      rw [List.nil_append, cut?, hafter]
  | cons d a ih =>
      rw [List.mem_cons, not_or] at ha
      have hafter : after? (ch :: found) (d :: (a ++ ch :: (found ++ b))) = none := by
        rw [← Option.not_isSome_iff_eq_none, Option.isSome_iff_exists]
        rintro ⟨r, hr⟩
        exact ha.1 (List.head_eq_of_cons_eq (after?_eq_some_iff.mp hr)).symm
      rw [List.cons_append, cut?, hafter]
      dsimp only
      rw [ih ha.2]
      rfl

end Text

/-- A name for another file is the name with more characters after it. -/
lemma Symbol.exists_renamed_eq (name : String) (index : ℕ) :
    ∃ suffix, (∀ ch ∈ suffix, isSymbolChar ch = true) ∧
      (renamed name index).toList = name.toList ++ suffix := by
  unfold renamed
  split
  · exact ⟨[], nofun, (List.append_nil _).symm⟩
  · refine ⟨"_BCM_".toList ++ (toString index).toList, fun ch hch => ?_, by simp⟩
    rcases List.mem_append.mp hch with hch | hch
    · exact List.all_eq_true.mp (by decide : "_BCM_".toList.all isSymbolChar = true) ch hch
    · exact isSymbolChar_toString index ch hch

/-! ### Characters of a name, put in after such a character -/

/-- Whether a text ends in a character of a name. -/
def EndsInName (l : List Char) : Prop :=
  ∃ ch, l.getLast? = some ch ∧ isSymbolChar ch = true

lemma EndsInName.ne_nil {l : List Char} (h : EndsInName l) : l ≠ [] := by
  rintro rfl
  obtain ⟨ch, hch, -⟩ := h
  cases hch

lemma EndsInName.tail {l : List Char} {ch : Char} (h : EndsInName (ch :: l))
    (hch : isSymbolChar ch = false) : EndsInName l := by
  obtain ⟨d, hd, hsymbol⟩ := h
  cases l with
  | nil =>
      obtain rfl : ch = d := Option.some.inj hd
      rw [hch] at hsymbol
      cases hsymbol
  | cons e l =>
      rw [List.getLast?_cons_cons] at hd
      exact ⟨d, hd, hsymbol⟩

lemma EndsInName.of_append {a l : List Char} (h : EndsInName (a ++ l)) (hl : l ≠ []) :
    EndsInName l := by
  obtain ⟨d, hd, hsymbol⟩ := h
  exact ⟨d, by rwa [List.getLast?_append_of_ne_nil _ hl] at hd, hsymbol⟩

/-- A star that a slash follows occurs nowhere exactly if no two neighbours are of this kind. -/
lemma not_infix_iff_isChain {l : List Char} :
    ¬ ['*', '/'] <:+: l ↔ l.IsChain fun c d => ¬ (c = '*' ∧ d = '/') := by
  rw [List.isChain_iff_forall_rel_of_append_cons_cons]
  constructor
  · rintro h c d a b rfl ⟨rfl, rfl⟩
    exact h ⟨a, b, by simp⟩
  · rintro h ⟨a, b, hl⟩
    have hsplit : l = a ++ '*' :: '/' :: b := by simp [← hl]
    exact h hsplit ⟨rfl, rfl⟩

lemma not_infix_insert {a b put : List Char} (ha : EndsInName a)
    (hput : ∀ ch ∈ put, isSymbolChar ch = true) (h : ¬ ['*', '/'] <:+: a ++ b) :
    ¬ ['*', '/'] <:+: a ++ (put ++ b) := by
  have hnot {c : Char} (hc : isSymbolChar c = true) : c ≠ '*' ∧ c ≠ '/' := by
    constructor <;> rintro rfl <;> exact absurd hc (by decide)
  rw [not_infix_iff_isChain, List.isChain_append] at h ⊢
  obtain ⟨hchain, hrest, -⟩ := h
  obtain ⟨last, hlast, hsymbol⟩ := ha
  refine ⟨hchain, ?_, fun c hc d _ hcd => ?_⟩
  · rw [List.isChain_append]
    refine ⟨?_, hrest, fun c hc d _ hcd => (hnot (hput c (List.mem_of_getLast? hc))).1 hcd.1⟩
    refine List.isChain_iff_forall_rel_of_append_cons_cons.mpr ?_
    rintro c d a' b' rfl ⟨rfl, -⟩
    exact (hnot (hput '*' (by simp))).1 rfl
  · rw [hlast] at hc
    cases hc
    exact (hnot hsymbol).1 hcd.1

/-- Blanks and comments stay such. -/
lemma Spacing.insert {lead a b put : List Char} (h : Spacing lead) (hlead : lead = a ++ b)
    (ha : EndsInName a) (hput : ∀ ch ∈ put, isSymbolChar ch = true) :
    Spacing (a ++ (put ++ b)) := by
  induction h generalizing a with
  | nil => exact (ha.ne_nil (List.append_eq_nil_iff.mp hlead.symm).1).elim
  | @blank c l hc hl ih =>
      obtain ⟨d, a, rfl⟩ := List.exists_cons_of_ne_nil ha.ne_nil
      obtain ⟨rfl, rfl⟩ := List.cons.inj hlead
      have hsymbol : isSymbolChar c = false := (Spacing.blank hc hl).head rfl |>.1
      exact .blank hc (ih rfl (ha.tail hsymbol))
  | @comment body l hbody hl ih =>
      obtain ⟨d, a, rfl⟩ := List.exists_cons_of_ne_nil ha.ne_nil
      obtain ⟨rfl, hstar⟩ := List.cons.inj hlead
      replace ha := ha.tail rfl
      obtain ⟨d, a, rfl⟩ := List.exists_cons_of_ne_nil ha.ne_nil
      obtain ⟨rfl, htext⟩ := List.cons.inj hstar
      replace ha := ha.tail rfl
      -- the characters are put in within the comment or behind it
      rcases List.append_eq_append_iff.mp htext with ⟨c, rfl, hrest⟩ | ⟨c, rfl, rfl⟩
      · cases c with
        | nil =>
            obtain rfl : b = '*' :: '/' :: l := hrest.symm
            rw [List.append_nil] at ha ⊢
            have hinner : ¬ ['*', '/'] <:+: body ++ put ++ ['*'] := by
              rw [List.append_assoc]
              exact not_infix_insert ha hput hbody
            simpa using Spacing.comment hinner hl
        | cons d c =>
            obtain ⟨rfl, hslash⟩ := List.cons.inj hrest
            cases c with
            | nil => exact (((ha.of_append (by simp)).tail rfl).ne_nil rfl).elim
            | cons d c =>
                obtain ⟨rfl, rfl⟩ := List.cons.inj hslash
                have hc : EndsInName c := ((ha.of_append (by simp)).tail rfl).tail rfl
                have hinsert := Spacing.comment hbody (ih rfl hc)
                simpa using hinsert
      · have hinner : ¬ ['*', '/'] <:+: a ++ (put ++ c) ++ ['*'] := by
          rw [List.append_assoc, List.append_assoc]
          rw [List.append_assoc] at hbody
          exact not_infix_insert ha hput hbody
        simpa using Spacing.comment hinner hl

/-- Blanks and comments do not end in a character of a name. -/
lemma Spacing.not_endsInName {lead : List Char} (h : Spacing lead) : ¬ EndsInName lead := by
  induction h with
  | nil => exact fun hend => hend.ne_nil rfl
  | @blank c l hc hl ih => exact fun hend => ih (hend.tail ((Spacing.blank hc hl).head rfl).1)
  | comment _ _ ih =>
      intro hend
      have hafter := ((hend.tail rfl).tail rfl).of_append (by simp)
      exact ih ((hafter.tail rfl).tail rfl)

namespace Statement

lemma labelOf_of_isName {name : String} (h : IsName name) : labelOf name.toList =
    if Symbol.isDotLocal name then .dotLocal name else .symbol name := by
  obtain ⟨ch, l, hname, hstart, -⟩ := exists_cons_of_isSymbolName h
  have hdigit : ¬ name.toList.head?.any Char.isDigit = true := by
    rw [hname]
    exact not_isDigit_of_isSymbolStart hstart
  rw [labelOf, if_neg hdigit, String.ofList_toList]

/-- A label that is no number is a name. -/
lemma isName_of_labelName {name : List Char} (h : LabelName name)
    (hnumber : ∀ text, labelOf name ≠ .numeric text) : IsName (String.ofList name) := by
  cases name with
  | nil => exact h.elim
  | cons ch name =>
      rcases h with ⟨hdigit, -⟩ | ⟨hstart, hchars⟩
      · refine (hnumber (String.ofList (ch :: name)) ?_).elim
        rw [labelOf, if_pos (by simpa using hdigit)]
      · rw [IsName, String.toList_ofList, isSymbolName_cons]
        exact ⟨hstart, hchars⟩

/-- The spelling of a label that is no number. -/
lemma exists_of_shape_label {l : List Char} {label : Label} (h : Shape arch l (.label label))
    (hnumber : ∀ text, label ≠ .numeric text) :
    ∃ lead name, Spacing lead ∧ IsName name ∧ l = lead ++ (name.toList ++ [':']) ∧
      label = if Symbol.isDotLocal name then .dotLocal name else .symbol name := by
  obtain ⟨lead, body, hlead, hbody, rfl⟩ := h
  cases hbody with
  | @label name hname =>
      have hisName := isName_of_labelName hname hnumber
      have hlabel := labelOf_of_isName hisName
      rw [String.toList_ofList] at hlabel
      exact ⟨lead, String.ofList name, hlead, hisName, by rw [String.toList_ofList], hlabel⟩
  | directive _ _ _ _ _ _ _ hkind => cases isDirective_of_directiveKind hkind

/-- A label does not end in a line feed. -/
lemma Shape.getLast?_of_label {l : List Char} {label : Label}
    (h : Shape arch l (.label label)) : l.getLast? = some ':' := by
  obtain ⟨lead, body, -, hbody, rfl⟩ := h
  cases hbody with
  | label => rw [← List.append_assoc, List.getLast?_concat]
  | directive _ _ _ _ _ _ _ hkind => cases isDirective_of_directiveKind hkind

/-! ### Labels -/

variable {scope : Scope} {s : Statement}

lemma says_alias {name : String} (h : IsName name) :
    Says arch ((Symbol.localAlias name).toList ++ [':'])
      [.label (.dotLocal (Symbol.localAlias name))] := by
  have hlabel := labelOf_of_isName (Symbol.isName_localAlias h)
  rw [if_pos (Symbol.isDotLocal_localAlias name)] at hlabel
  have hshape : Shape arch ((Symbol.localAlias name).toList ++ [':']) _ :=
    shape_label (labelName_of_isName (Symbol.isName_localAlias h))
  rw [hlabel] at hshape
  exact ⟨_, .single hshape, rfl⟩

lemma says_aliasLine {name : String} (h : IsName name) :
    Says arch (Line.label (Symbol.localAlias name)).text.toList
      [.label (.dotLocal (Symbol.localAlias name))] := by
  have htext : (Line.label (Symbol.localAlias name)).text.toList =
      ((Symbol.localAlias name).toList ++ [':']) ++ ['\n'] := by
    simp [Line.text]
  rw [htext]
  exact (says_alias h).append says_newline

lemma adds_openAlias {name : String} (h : IsName name) :
    (Chunk.openLabel (Symbol.localAlias name)).Adds arch
      [.label (.dotLocal (Symbol.localAlias name))] := by
  refine fun o => ⟨"\n" ++ Symbol.localAlias name ++ ":", rfl, ?_⟩
  have htext : ("\n" ++ Symbol.localAlias name ++ ":").toList =
      ['\n'] ++ ((Symbol.localAlias name).toList ++ [':']) := by
    simp
  rw [htext]
  exact says_newline.append (says_alias h)

lemma isName_of_shape_label {l : List Char} {name : String}
    (h : Shape arch l (.label (.symbol name))) : IsName name := by
  obtain ⟨-, name', -, hname, -, hlabel⟩ := exists_of_shape_label h nofun
  split at hlabel
  · cases hlabel
  · cases hlabel
    exact hname

lemma isDotLocal_of_shape_label {l : List Char} {name : String}
    (h : Shape arch l (.label (.symbol name))) : Symbol.isDotLocal name = false := by
  obtain ⟨-, name', -, -, -, hlabel⟩ := exists_of_shape_label h nofun
  split at hlabel
  · cases hlabel
  · next hpublic =>
      cases hlabel
      simpa using hpublic

/-- The spelling of a local label. -/
lemma exists_of_shape_dotLocal {l : List Char} {name : String}
    (h : Shape arch l (.label (.dotLocal name))) :
    ∃ lead, Spacing lead ∧ IsName name ∧ Symbol.isDotLocal name = true ∧
      l = lead ++ (name.toList ++ [':']) := by
  obtain ⟨lead, name', hlead, hname, hl, hlabel⟩ := exists_of_shape_label h nofun
  split at hlabel
  · next hlocal =>
      cases hlabel
      exact ⟨lead, hlead, hname, hlocal, hl⟩
  · cases hlabel

/-- A local name with a colon is a local label. -/
lemma shape_dotLocal {lead : List Char} {name : String} (hlead : Spacing lead)
    (hname : IsName name) (hlocal : Symbol.isDotLocal name = true) :
    Shape arch (lead ++ (name.toList ++ [':'])) (.label (.dotLocal name)) := by
  have hlabel := labelOf_of_isName hname
  rw [if_pos hlocal] at hlabel
  rw [← hlabel]
  exact ⟨lead, _, hlead, .label (labelName_of_isName hname), rfl⟩

lemma isDotLocal_of_shape_dotLocal {l : List Char} {name : String}
    (h : Shape arch l (.label (.dotLocal name))) : Symbol.isDotLocal name = true := by
  obtain ⟨-, -, -, hlocal, -⟩ := exists_of_shape_dotLocal h
  exact hlocal

/-- A public label comes after its alias. -/
lemma writes_sealLabel {name : String} (h : Shape arch s.text.toList (.label (.symbol name))) :
    Writes arch (sealLabel scope s (.symbol name)).chunks
      [.label (.dotLocal (Symbol.localAlias name)), .label (.symbol name)] :=
  (Writes.line (says_aliasLine (isName_of_shape_label h))).append (.copied h)

/-- A public label in zero-initialised storage comes before its alias. -/
lemma writes_sealBssLabel {name : String} (h : Shape arch s.text.toList (.label (.symbol name))) :
    Writes arch (sealBssLabel s name).chunks
      [.label (.symbol name), .label (.dotLocal (Symbol.localAlias name))] :=
  (Writes.copied h).append (.cons rfl (adds_openAlias (isName_of_shape_label h)) .nil)

/-- The first place where the name of a label occurs is the label, or a place in the comments
before it. -/
lemma exists_of_label_eq {lead name a b : List Char} (hlead : Spacing lead) (hne : name ≠ [])
    (hname : ∀ ch ∈ name, isSymbolChar ch = true)
    (h : a ++ (name ++ b) = lead ++ (name ++ [':'])) :
    (a = lead ∧ b = [':']) ∨ ∃ c, lead = a ++ name ++ c ∧ b = c ++ (name ++ [':']) := by
  have hends {l : List Char} (hl : l ≠ []) (hsub : ∀ ch ∈ l, ch ∈ name) : EndsInName l :=
    ⟨l.getLast hl, List.getLast?_eq_some_getLast hl, hname _ (hsub _ (List.getLast_mem hl))⟩
  rw [← List.append_assoc] at h
  rcases List.append_eq_append_iff.mp h with ⟨c, hlead', hb⟩ | ⟨c, hsplit, htail⟩
  · exact .inr ⟨c, hlead', hb⟩
  left
  rcases List.append_eq_append_iff.mp htail with ⟨r, rfl, hr⟩ | ⟨r, hr, rfl⟩
  · cases r with
    | nil =>
        rw [List.append_nil] at hsplit
        exact ⟨List.append_cancel_right hsplit, hr.symm⟩
    | cons ch r =>
        -- the name would end in a colon
        obtain ⟨rfl, hnil⟩ := List.cons.inj hr
        obtain ⟨rfl, -⟩ := List.append_eq_nil_iff.mp hnil.symm
        obtain ⟨last, hlast, hsymbol⟩ := hends hne fun _ => id
        have hcolon := congrArg List.getLast? hsplit
        rw [List.getLast?_append_of_ne_nil _ hne, hlast, ← List.append_assoc,
          List.getLast?_append_of_ne_nil _ (List.cons_ne_nil _ _)] at hcolon
        cases hcolon
        exact absurd hsymbol (by decide)
  · rcases List.append_eq_append_iff.mp hsplit with ⟨q, hq, hcq⟩ | ⟨q, rfl, hq⟩
    · cases q with
      | nil =>
          -- nothing of the name stands in what is before
          rw [List.append_nil] at hq
          rw [hr, List.nil_append] at hcq
          rw [List.append_right_eq_self.mp hcq]
          exact ⟨hq.symm, rfl⟩
      | cons ch q =>
          rw [hq] at hlead
          refine (hlead.not_endsInName ?_).elim
          obtain ⟨last, hlast, hsymbol⟩ := hends (List.cons_ne_nil ch q) fun d hd => by
            rw [hcq]
            exact List.mem_append_left _ hd
          exact ⟨last, by rwa [List.getLast?_append_of_ne_nil _ (List.cons_ne_nil ch q)], hsymbol⟩
    · have hlength := congrArg List.length hq
      rw [hr, List.length_append, List.length_append] at hlength
      have hqnil : q = [] := List.length_eq_zero_iff.mp (by omega)
      have hrnil : r = [] := List.length_eq_zero_iff.mp (by omega)
      rw [hqnil, hrnil, List.append_nil]
      exact ⟨rfl, rfl⟩

/-- Whether the name of a local label occurs in its text before the label. -/
def namedBefore (text name : String) : Bool :=
  match Text.cut? name.toList text.toList with
  | some (_, rest) => rest != [':']
  | none => false

/-- The name that a local label is written with for the file at a position.  The name is exchanged
where it occurs first, so the label keeps it if that is before the label. -/
def labelFor (s : Statement) (index : ℕ) (name : String) : String :=
  if namedBefore s.text name then name else Symbol.renamed name index

lemma labelFor_eq (s : Statement) (index : ℕ) (name : String) :
    s.labelFor index name = name ∨ s.labelFor index name = Symbol.renamed name index := by
  unfold labelFor
  cases namedBefore s.text name
  · exact .inr rfl
  · exact .inl rfl

/-- A label with something put in the place of its name, or in the place of the same name in a
comment before it. -/
lemma toList_replaceFirst_label {lead : List Char} {name text : String} (put : String)
    (hlead : Spacing lead) (hname : IsName name)
    (htext : text.toList = lead ++ (name.toList ++ [':'])) :
    (namedBefore text name = false ∧
        (Text.replaceFirst name put text).toList = lead ++ (put.toList ++ [':'])) ∨
      (namedBefore text name = true ∧ ∃ a c, lead = a ++ name.toList ++ c ∧
        (Text.replaceFirst name put text).toList =
          a ++ put.toList ++ (c ++ (name.toList ++ [':']))) := by
  obtain ⟨ch, l, hcons, -, hchars⟩ := exists_cons_of_isSymbolName hname
  have hne : name.toList ≠ [] := by
    rw [hcons]
    nofun
  rw [namedBefore, Text.replaceFirst]
  cases hcut : Text.cut? name.toList text.toList with
  | none =>
      rw [htext] at hcut
      exact (Text.cut?_ne_none hcut).elim
  | some p =>
      obtain ⟨a, b⟩ := p
      have hfound := Text.eq_of_cut? hcut
      dsimp only
      rw [String.toList_append, String.toList_append, String.toList_ofList, String.toList_ofList]
      rcases exists_of_label_eq hlead hne hchars (hfound.symm.trans htext) with
        ⟨rfl, rfl⟩ | ⟨c, hsplit, rfl⟩
      · exact .inl ⟨bne_self_eq_false _, List.append_assoc ..⟩
      · refine .inr ⟨bne_iff_ne.mpr fun hcolon => ?_, a, c, hsplit, rfl⟩
        -- the name is not empty
        have hlength := congrArg List.length hcolon
        rw [hcons, List.length_append, List.length_append, List.length_cons] at hlength
        simp only [List.length_cons, List.length_nil] at hlength
        omega

/-- A local label has its new name, or keeps its name behind a comment that has the new one. -/
lemma shape_replaceFirst {name : String} (index : ℕ)
    (h : Shape arch s.text.toList (.label (.dotLocal name))) :
    Shape arch (Text.replaceFirst name (Symbol.renamed name index) s.text).toList
      (.label (.dotLocal (s.labelFor index name))) := by
  obtain ⟨lead, hlead, hname, hlocal, htext⟩ := exists_of_shape_dotLocal h
  rcases toList_replaceFirst_label (Symbol.renamed name index) hlead hname htext with
    ⟨hbefore, hput⟩ | ⟨hbefore, a, c, hsplit, hput⟩
  · rw [hput, labelFor, hbefore]
    exact shape_dotLocal hlead (Symbol.isName_renamed hname _) (Symbol.isDotLocal_renamed hlocal _)
  · obtain ⟨suffix, hsuffix, hrenamed⟩ := Symbol.exists_renamed_eq name index
    obtain ⟨ch, l, hcons, -, hchars⟩ := exists_cons_of_isSymbolName hname
    have hne : name.toList ≠ [] := by
      rw [hcons]
      nofun
    have hends : EndsInName (a ++ name.toList) :=
      ⟨name.toList.getLast hne, by
        rw [List.getLast?_append_of_ne_nil _ hne, List.getLast?_eq_some_getLast hne],
        hchars _ (List.getLast_mem hne)⟩
    have hinsert : Shape arch _ (.label (.dotLocal name)) :=
      shape_dotLocal (hlead.insert hsplit hends hsuffix) hname hlocal
    rw [hput, hrenamed, labelFor, hbefore]
    simpa using hinsert

/-- What is written for a local label is a local label. -/
lemma writes_sealLabel_dotLocal {name : String}
    (h : Shape arch s.text.toList (.label (.dotLocal name))) :
    Writes arch (sealLabel scope s (.dotLocal name)).chunks
      [.label (.dotLocal (s.labelFor scope.index name))] :=
  .copied (shape_replaceFirst scope.index h)

/-- What is written for any label is read. -/
lemma exists_writes_sealLabel {label : Label} (h : Shape arch s.text.toList (.label label)) :
    ∃ kinds, Writes arch (sealLabel scope s label).chunks kinds := by
  cases label with
  | numeric => exact ⟨_, .copied h⟩
  | symbol => exact ⟨_, writes_sealLabel h⟩
  | dotLocal => exact ⟨_, writes_sealLabel_dotLocal h⟩

/-! ### Directives that bind a symbol -/

/-- What a directive that binds a symbol consists of. -/
lemma DirectiveIn.exists_value {directive name : String} {value : Expr}
    (h : DirectiveIn arch (.binding directive name value)) :
    ∃ rest v, directive.toList = '.' :: rest ∧ rest ≠ [] ∧
      (∀ ch ∈ rest, isSymbolChar ch = true) ∧ directive.toLower ∈ bindingDirectives ∧
        IsName name ∧ value = Expr.parse v ∧ Whole arch true v ∧ X86.Trimmed v := by
  obtain ⟨rest, args, hne, hrest, hargs, hdirective⟩ := h
  cases hdirective with
  | binding hbinding hsplit hname =>
      refine ⟨rest, _, String.toList_ofList, hne, hrest, hbinding, ?_, rfl,
        Piece.whole_value hargs hsplit, X86.trimmed_trim _⟩
      rwa [IsName, String.toList_ofList]

/-- An expression without blanks around it has none with other symbols. -/
lemma trimmed_mapSymbols {f : String → String} {v : List Char} (h : X86.Trimmed v)
    (hf : ∀ name, IsName name → IsName (f name)) :
    X86.Trimmed ((Expr.parse v).mapSymbols f).display.toList := by
  have hnotBlank {ch : Char} (hch : isSymbolChar ch = true) : Text.isBlank ch = false := by
    simpa using not_isBlank_of_isSymbolChar hch
  refine ⟨fun ch hch => ?_, fun ch hch => ?_⟩
  · rcases Expr.head?_mapSymbols (Expr.named_parse v) hf hch with hsame | hsymbol
    · rw [Expr.display_parse] at hsame
      exact h.head ch hsame
    · exact hnotBlank hsymbol
  · rcases Expr.getLast?_mapSymbols (Expr.named_parse v) hf hch with hsame | hsymbol
    · rw [Expr.display_parse] at hsame
      exact h.last ch hsame
    · exact hnotBlank hsymbol

/-- The same directive for a symbol, or for another name. -/
lemma shape_rebound {directive name : String} {value : Expr}
    (h : DirectiveIn arch (.binding directive name value)) {target : String}
    (htarget : IsName target) :
    Shape arch
      (Line.column directive [target, (value.mapSymbols scope.localized).display]).text.toList
      (.binding directive target (value.mapSymbols scope.localized)) := by
  obtain ⟨rest, v, hdirective, hne, hrest, hbinding, -, rfl, hwhole, htrimmed⟩ := h.exists_value
  have hisName (name : String) (hname : IsName name) : IsName (scope.localized name) :=
    Scope.isName_localized hname
  have hshape := shape_binding hdirective hne hrest hbinding htarget
    (Expr.whole_mapSymbols hwhole hisName) (trimmed_mapSymbols htrimmed hisName)
  rwa [Expr.parse_mapSymbols fun name hname hpoint =>
    ⟨hisName name hname, Symbol.localized_ne_point hpoint⟩] at hshape

/-- The directives in the place of one that binds a symbol: the one for the symbol, and if the
module defines that as a public name, the same for its alias. -/
def boundKinds (scope : Scope) (directive name : String) (value : Expr) : List Kind :=
  let value := value.mapSymbols scope.localized
  .binding directive (scope.localized name) value ::
    if !Symbol.isDotLocal name && scope.defines name then
      [.binding directive (Symbol.localAlias name) value] else []

/-- What is written for a directive that binds a symbol consists of the directive for the symbol
and that for its alias. -/
lemma writes_sealBinding {directive name : String} {value : Expr}
    (h : Shape arch s.text.toList (.binding directive name value)) :
    Writes arch (sealBinding scope s directive name value).chunks
      (boundKinds scope directive name value) := by
  have hdirective : DirectiveIn arch (.binding directive name value) :=
    exists_args_of_shape h nofun nofun nofun nofun
  obtain ⟨-, -, -, -, -, -, hname, -, -, -⟩ := hdirective.exists_value
  have hline {target : String} (htarget : IsName target) :
      Says arch
        (Line.column directive [target, (value.mapSymbols scope.localized).display]).text.toList
        [.binding directive target (value.mapSymbols scope.localized)] :=
    ⟨_, .single (shape_rebound hdirective htarget), rfl⟩
  have hown : Writes arch
      (if scope.localized name = name ∧ value.mapSymbols scope.localized = value then
          Emission.copy s
        else .replace s [.column directive
          [scope.localized name, (value.mapSymbols scope.localized).display]]).chunks
      [.binding directive (scope.localized name) (value.mapSymbols scope.localized)] := by
    split
    · next hsame =>
        rw [hsame.1, hsame.2]
        exact .copied h
    · exact .quoted (.line (hline (Scope.isName_localized hname)))
  rw [sealBinding, boundKinds]
  split
  · exact hown.append (.line (hline (Symbol.isName_localAlias hname)))
  · exact hown

/-! ### Other directives -/

/-- Pieces whose live statements define no names. -/
def DefinesNothing (arch : Arch) (chunks : List Chunk) : Prop :=
  ∃ kinds, Writes arch chunks kinds ∧ ∀ kind ∈ kinds, kind.definedName? = none

lemma DefinesNothing.copied {text : String} {kind : Kind} (h : Shape arch text.toList kind)
    (hkind : kind.definedName? = none) : DefinesNothing arch [.copied text] := by
  refine ⟨_, .copied h, fun k hk => ?_⟩
  rw [List.mem_singleton.mp (List.mem_of_mem_filter hk)]
  exact hkind

/-- A directive that binds no symbol, with any arguments that close what they open. -/
lemma definesNothing_directive {indented : Bool} {directive gap : String} {rest : List Char}
    {arguments : List String} (hdirective : directive.toList = '.' :: rest) (hne : rest ≠ [])
    (hrest : ∀ ch ∈ rest, isSymbolChar ch = true) (hbinding : directive.toLower ∉ bindingDirectives)
    (hgap : gap = " " ∨ gap = "\t") (hargs : ∀ a ∈ arguments, Whole arch true a.toList) :
    DefinesNothing arch [.quoted s, .line (.directive indented directive gap arguments)] := by
  obtain ⟨kind, hkind⟩ := exists_directiveKind hbinding (Text.trimEnd
    ((Piece.join (arguments.map String.toList)).dropWhile Cursor.isSpace))
  have hshape : Shape arch (Line.directive indented directive gap arguments).text.toList kind :=
    shape_directive_line hdirective hne hrest hgap hargs hkind
  refine ⟨_, .quoted (.line ⟨_, .single hshape, rfl⟩), fun k hk => ?_⟩
  rw [List.mem_singleton.mp (List.mem_of_mem_filter hk)]
  exact definedName?_of_directiveKind hkind hbinding

/-- What is written for a directive whose arguments may mention symbols defines nothing. -/
lemma definesNothing_sealData {directive : String} {arguments : List Expr}
    (h : Shape arch s.text.toList (.symbolic directive arguments)) :
    DefinesNothing arch (sealData scope s directive arguments).chunks := by
  rw [sealData]
  split
  · exact .copied h rfl
  · obtain ⟨rest, args, hne, hrest, hwhole, hkind⟩ := exists_args_of_shape h nofun nofun nofun nofun
    cases hkind with
    | symbolic hsymbolic =>
        have hbinding : (String.ofList ('.' :: rest)).toLower ∉ bindingDirectives := by
          revert hsymbolic
          generalize (String.ofList ('.' :: rest)).toLower = lower
          intro hsymbolic hbinding
          simp only [bindingDirectives, List.mem_cons, List.not_mem_nil, or_false] at hbinding
          rcases hbinding with rfl | rfl | rfl | rfl <;> exact absurd hsymbolic (by decide)
        have hargs : ∀ a ∈ (((Piece.split args).map fun p => Expr.parse p.text).map
            (Expr.mapSymbols scope.localized)).map Expr.display, Whole arch true a.toList := by
          intro a ha
          simp only [List.map_map, List.mem_map, Function.comp_apply] at ha
          obtain ⟨p, hp, rfl⟩ := ha
          exact Expr.whole_mapSymbols (Piece.whole_of_mem_split hwhole hp).mono
            fun name hname => Scope.isName_localized hname
        exact definesNothing_directive String.toList_ofList hne hrest hbinding (.inr rfl) hargs

/-- The first argument of a directive, and what stands around it. -/
lemma exists_of_head?_split {args : List Char} {p : Piece}
    (h : (Piece.split args).head? = some p) :
    ∃ blanks r, args = blanks ++ (p.text ++ r) ∧ ∀ ch ∈ blanks, Text.isBlank ch = true := by
  rw [Piece.split] at h
  split at h
  · cases h
  obtain ⟨cut, cuts, hcut⟩ := List.exists_cons_of_ne_nil (Piece.cutCommas_ne_nil 0 false args)
  rw [hcut] at h
  obtain rfl : Piece.ofCut 0 cut = p := Option.some.inj h
  obtain ⟨rest, hrest⟩ := Piece.exists_append_of_cutCommas hcut
  obtain ⟨after, hcut, -⟩ := Piece.exists_append_trim cut
  refine ⟨cut.takeWhile Text.isBlank, after ++ rest, ?_, fun ch hch => List.mem_takeWhile_imp hch⟩
  change args = cut.takeWhile Text.isBlank ++ (Text.trim cut ++ (after ++ rest))
  rw [← List.append_assoc (Text.trim cut), ← List.append_assoc, ← hcut, hrest]

/-- What is written for common storage: the directive itself, or the directive with a new name in
the place of its first argument. -/
lemma sealCommon_eq_ok {directive arguments : String} {e : Emission}
    (h : DirectiveIn arch (.directive directive arguments))
    (he : sealCommon scope s directive arguments = .ok e) :
    ∃ p blanks rest, (Piece.split arguments.toList).head? = some p ∧
      arguments.toList = blanks ++ (p.text ++ rest) ∧
      (∀ ch ∈ blanks, Text.isBlank ch = true) ∧
      (scope.localized (String.ofList p.text) = String.ofList p.text ∧
          e.chunks = [.copied s.text] ∨
        ∃ put, put.toList = blanks ++ ((scope.localized (String.ofList p.text)).toList ++ rest) ∧
          Whole arch true put.toList ∧
            e.chunks = [.quoted s, .line (.column directive [put])]) := by
  unfold sealCommon at he
  split at he
  · cases he
  next p hp =>
  rw [Option.filter_eq_some_iff] at hp
  obtain ⟨blanks, rest, hsplit, hblanks⟩ := exists_of_head?_split hp.1
  refine ⟨p, blanks, rest, hp.1, hsplit, hblanks, ?_⟩
  dsimp only at he
  by_cases hsame : scope.localized (String.ofList p.text) = String.ofList p.text
  · rw [if_pos hsame] at he
    cases he
    exact .inl ⟨hsame, rfl⟩
  rw [if_neg hsame] at he
  cases he
  have hwhole : Whole arch true arguments.toList := by
    obtain ⟨name, args, -, -, hargs, hkind⟩ := h
    cases hkind with
    | other => rwa [String.toList_ofList]
  have hlocal : Symbol.isDotLocal (String.ofList p.text) = true := by
    by_contra hlocal
    rw [Scope.localized, Symbol.localized, if_neg hlocal] at hsame
    exact hsame rfl
  obtain ⟨found, hfound⟩ : ∃ found, p.text = '.' :: found := by
    obtain ⟨t, ht⟩ := List.isPrefixOf_iff_prefix.mp hlocal
    rw [String.toList_ofList (l := p.text)] at ht
    exact ⟨_, ht.symm⟩
  -- a local name starts with a point, so that it is not found in the blanks before it
  have hcut : Text.cut? p.text (blanks ++ (p.text ++ rest)) = some (blanks, rest) := by
    rw [hfound]
    exact Text.cut?_append fun hmem => absurd (hblanks _ hmem) (by decide)
  have hput : (Text.replaceFirst (String.ofList p.text) (scope.localized (String.ofList p.text))
      arguments).toList = blanks ++ ((scope.localized (String.ofList p.text)).toList ++ rest) := by
    rw [Text.replaceFirst, String.toList_ofList, hsplit, hcut]
    simp
  refine .inr ⟨_, hput, ?_, rfl⟩
  -- the new name is the old one with more characters of names, which close and open nothing
  obtain ⟨suffix, hsuffix, hrenamed⟩ := Symbol.exists_renamed_eq (String.ofList p.text) scope.index
  have hfirst : Whole arch true (blanks ++ p.text) := by
    refine (Scan.whole_inert_append fun ch hch => Scan.inert_of_isBlank (hblanks ch hch) ?_).mpr
      (Piece.whole_of_mem_split hwhole (List.mem_of_mem_head? hp.1)).mono
    rw [hsplit] at hwhole
    exact hwhole.ne_newline (List.mem_append_left _ hch)
  rw [hput, Scope.localized, Symbol.localized, if_pos hlocal, hrenamed, String.toList_ofList,
    List.append_assoc, ← List.append_assoc blanks]
  refine Scan.whole_insert hfirst (fun ch hch => Scan.inert_of_isSymbolChar (hsuffix ch hch)) ?_
  rwa [List.append_assoc, ← hsplit]

/-- What is written for common storage defines nothing. -/
lemma definesNothing_sealCommon {directive arguments : String} {e : Emission}
    (h : Shape arch s.text.toList (.directive directive arguments))
    (he : sealCommon scope s directive arguments = .ok e) : DefinesNothing arch e.chunks := by
  have hdirective : DirectiveIn arch (.directive directive arguments) :=
    exists_args_of_shape h nofun nofun nofun nofun
  obtain ⟨p, blanks, rest, -, -, -, ⟨-, hchunks⟩ | ⟨put, -, hput, hchunks⟩⟩ :=
    sealCommon_eq_ok hdirective he
  · rw [hchunks]
    exact .copied h rfl
  · obtain ⟨name, args, hne, hname, -, hkind⟩ := hdirective
    cases hkind with
    | other hbinding =>
        rw [hchunks]
        exact definesNothing_directive String.toList_ofList hne hname hbinding (.inr rfl)
          (List.forall_mem_singleton.mpr hput)

/-- What is written for a directive that opens a section defines nothing. -/
lemma definesNothing_sealSection {directive arguments : String} {e : Emission}
    (h : Shape arch s.text.toList (.directive directive arguments))
    (he : sealSection s arguments = .ok e) : DefinesNothing arch e.chunks := by
  have hname : ".text".toList = '.' :: "text".toList := rfl
  have htext : DefinesNothing arch [.quoted s, .line (.plain ".text" [])] :=
    definesNothing_directive hname (by decide) (List.all_eq_true.mp (by decide))
      (by decide +kernel) (.inl rfl) nofun
  unfold sealSection at he
  dsimp only at he
  split at he
  · cases he
  · split at he
    · cases he
      exact htext
    · cases he
      exact htext
    · cases he
    · cases he
      exact .copied h rfl

/-- What is written for any other directive defines nothing. -/
lemma definesNothing_sealDirective {directive arguments : String} {e : Emission}
    (h : Shape arch s.text.toList (.directive directive arguments))
    (he : sealDirective scope s directive arguments = .ok e) : DefinesNothing arch e.chunks := by
  unfold sealDirective at he
  dsimp only at he
  split at he
  · exact definesNothing_sealCommon h he
  · split at he
    · cases he
    · split at he
      · exact definesNothing_sealSection h he
      · cases he
        exact .copied h rfl

/-! ### Statements -/

/-- What is written for a statement is read, if that holds for instructions. -/
lemma exists_writes_emission {inBss : Bool} {e : Emission}
    (h : Shape arch s.text.toList s.kind) (he : emission arch scope inBss s = .ok e)
    (hinsn : ∀ insn, s.kind = .instruction insn → sealInstruction arch scope s insn = .ok e →
      ∃ kinds, Writes arch e.chunks kinds) : ∃ kinds, Writes arch e.chunks kinds := by
  have hcode (he : sealCode arch scope s = .ok e) : ∃ kinds, Writes arch e.chunks kinds := by
    unfold sealCode at he
    cases hkind : s.kind with
    | blank | comment | visibility | lineInfo =>
        rw [hkind] at he
        cases he
        exact ⟨_, .copied h⟩
    | symbolic =>
        rw [hkind] at he h
        cases he
        exact (definesNothing_sealData h).imp fun _ => And.left
    | binding =>
        rw [hkind] at he h
        cases he
        exact ⟨_, writes_sealBinding h⟩
    | directive =>
        rw [hkind] at he h
        exact (definesNothing_sealDirective h he).imp fun _ => And.left
    | label =>
        rw [hkind] at he h
        cases he
        exact exists_writes_sealLabel h
    | instruction insn =>
        rw [hkind] at he
        exact hinsn insn hkind he
  unfold emission at he
  split at he
  · next hkind =>
      cases he
      exact ⟨_, writes_sealBssLabel (hkind ▸ h)⟩
  · cases he
  · exact hcode he

end Statement

end Hermetic

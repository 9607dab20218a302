/-
Local names in directives.

Local names are exchanged for names of the file in directives with data and in directives that
bind a symbol, and so is the symbol that common storage is for.  A directive that switches to a
section of code or of read-only data becomes the one that switches to code, and all other directives
are copied.

* `Statement.directiveIn_of_parse`: a directive that is read, whatever the text ends with;
* `Statement.shape_data`: directives with data are read again with other names;
* `Statement.Becomes`, `Statement.FollowsNames`: what is written for a directive;
* `Term.Exchanged`, `Statement.Kind.Exchanged`: directives in which nothing but local names differs,
  with `Statement.emission_exchanged`: such a one is read where a directive is written anew;
* `sealed_followsNames`: this is what is written for the directives of a module;
* `exists_directive_not_renamed`: another directive than these keeps the name of a label that is
  exchanged.
-/
import Hermetic.Proofs.Module.Helpers
import Hermetic.Proofs.Sealing.LocalLabels
import Hermetic.Proofs.Sealing.Section

namespace Hermetic

namespace Statement

open Scan (Whole)

variable {arch : Arch}

/-! ### Directives that are read -/

lemma directiveIn_of_directive {c d : Cursor Char} {kind : Kind}
    (h : directive arch c = .ok (kind, d)) : DirectiveIn arch kind := by
  obtain ⟨name, hname, hlength, hall, -⟩ := Cursor.exists_run isSymbolChar c.bump
  have htake : (c.bump.takeWhile isSymbolChar).1 = String.ofList name := by
    change String.ofList (c.bump.rest.take (Cursor.countWhile isSymbolChar c.bump.rest)) = _
    rw [hlength, hname.rest, List.take_left]
  unfold directive at h
  dsimp only at h
  rw [htake] at h
  split at h
  · cases h
  · next hempty =>
      obtain ⟨⟨_, start⟩, -, h⟩ := Outcome.bind_eq_ok_iff.mp h
      obtain ⟨⟨args, stop⟩, hargs, h⟩ := Outcome.bind_eq_ok_iff.mp h
      obtain ⟨k, hkind, h⟩ := Outcome.bind_eq_ok_iff.mp h
      cases h
      have hkind := isDirective_of_directiveKind (Outcome.mapError_eq_ok_iff.mp hkind)
      have hdot : "." ++ String.ofList name = String.ofList ('.' :: name) := by
        rw [← String.toList_inj]
        simp
      rw [hdot] at hkind
      obtain ⟨raw, -, harguments, -⟩ := arguments_of_argumentsFrom hargs
      exact ⟨name, args, by simpa using hempty, hall, harguments.whole, hkind⟩

/-- Whether a statement of a kind is a directive. -/
def Kind.isDirective : Kind → Bool
  | visibility _ | lineInfo .. | symbolic .. | binding .. | directive .. => true
  | _ => false

/-- A directive that is read. -/
lemma directiveIn_of_parse {text : String} {statements : List Statement} {s : Statement}
    (h : parse arch text = .ok statements) (hs : s ∈ statements)
    (hdirective : s.kind.isDirective = true) : DirectiveIn arch s.kind := by
  obtain ⟨c, d, hread⟩ := (parse_eq_ok_iff.mp h).exists_ofCursor hs
  obtain ⟨start, -, -, -, -, -, -, hat, -⟩ := ofCursor_eq_ok hread
  revert hat hdirective
  generalize s.kind = kind
  intro hdirective hat
  rcases kindAt_eq_ok hat with rfl | rfl | ⟨label, rfl, -⟩ | ⟨stop, hat | hat⟩
  · cases hdirective
  · cases hdirective
  · cases hdirective
  · exact directiveIn_of_directive hat
  · obtain ⟨insn, rfl, -⟩ := exists_operand_of_instruction hat
    cases hdirective

/-! ### Directives with data -/

lemma directiveKind_symbolic {directive : String}
    (hsymbolic : directive.toLower ∈ symbolicDirectives) (args : List Char) :
    directiveKind directive args =
      .ok (.symbolic directive ((Piece.split args).map fun p => Expr.parse p.text)) := by
  have hother : directive.toLower ∉ visibilityDirectives ∧
      directive.toLower ∉ lineInfoDirectives := by
    revert hsymbolic
    generalize directive.toLower = lower
    revert lower
    decide +kernel
  rw [directiveKind, if_neg hother.1, if_neg hother.2, if_pos hsymbolic]

/-- Only an empty text becomes an empty text with other names. -/
lemma eq_nil_of_mapSymbols {f : String → String} {v : List Char}
    (hf : ∀ name, IsName name → name ≠ "." → IsName (f name) ∧ f name ≠ ".")
    (h : ((Expr.parse v).mapSymbols f).display.toList = []) : v = [] := by
  have hparse := Expr.parse_mapSymbols hf v
  rw [h] at hparse
  have hnil : (Expr.parse []).terms = [] := by
    rw [Expr.parse, Expr.termsFrom]
    rfl
  rw [hparse] at hnil
  have hterms : (Expr.parse v).terms = [] := List.map_eq_nil_iff.mp hnil
  rw [← Expr.display_parse v, Expr.toList_display, hterms]
  rfl

/-- A directive with data is read again with other names. -/
lemma shape_data {directive : String} {arguments : List Expr} {f : String → String}
    (hf : ∀ name, IsName name → name ≠ "." → IsName (f name) ∧ f name ≠ ".")
    (hname : ∀ name, IsName name → IsName (f name))
    (h : DirectiveIn arch (.symbolic directive arguments)) :
    Shape arch
      (Line.column directive ((arguments.map (Expr.mapSymbols f)).map Expr.display)).text.toList
      (.symbolic directive (arguments.map (Expr.mapSymbols f))) := by
  obtain ⟨rest, args, hne, hrest, hwhole, hkind⟩ := h
  cases hkind with
  | symbolic hsymbolic =>
      let written (v : List Char) : List Char := ((Expr.parse v).mapSymbols f).display.toList
      have htexts : ((((Piece.split args).map fun p => Expr.parse p.text).map
          (Expr.mapSymbols f)).map Expr.display).map String.toList =
            ((Piece.split args).map Piece.text).map written := by
        simp only [List.map_map]
        rfl
      -- each piece is written so that it stays one piece
      have hpieces (v : List Char) (hv : v ∈ ((Piece.split args).map Piece.text).map written) :
          Whole arch false v ∧ X86.Trimmed v := by
        obtain ⟨t, ht, rfl⟩ := List.mem_map.mp hv
        obtain ⟨p, hp, rfl⟩ := List.mem_map.mp ht
        obtain ⟨cut, -, htrim⟩ := Piece.text_mem_ofCuts (Piece.mem_ofCuts_of_mem_split hp)
        exact ⟨Expr.whole_mapSymbols (Piece.whole_of_mem_split hwhole hp) hname,
          trimmed_mapSymbols (htrim ▸ X86.trimmed_trim cut) hname⟩
      -- a renamed list is not a single empty piece, unless it was one
      have hone : ((Piece.split args).map Piece.text).map written ≠ [[]] := by
        intro hone
        obtain ⟨t, ht, hwritten⟩ := List.map_eq_singleton_iff.mp hone
        rw [eq_nil_of_mapSymbols hf hwritten] at ht
        exact map_text_split_ne args ht
      refine shape_directive_line String.toList_ofList hne hrest (.inr rfl) (fun a ha => ?_) ?_
      · exact (hpieces _ (htexts ▸ List.mem_map_of_mem ha)).1.mono
      · have hread := text_split_trimEnd_join hpieces hone
        have hparse (l : List Char) : ((Piece.split l).map fun p => Expr.parse p.text) =
            ((Piece.split l).map Piece.text).map Expr.parse := by
          rw [List.map_map, Function.comp_def]
        have hmapped : (((Piece.split args).map Piece.text).map written).map Expr.parse =
            (((Piece.split args).map Piece.text).map Expr.parse).map (Expr.mapSymbols f) := by
          simp only [List.map_map]
          exact List.map_congr_left fun p _ => Expr.parse_mapSymbols hf p.text
        rw [directiveKind_symbolic hsymbolic, htexts, hparse, hread, hparse args, hmapped]

/-! ### What is written for a directive -/

variable {scope : Scope} {inBss : Bool} {s : Statement} {e : Emission}

/-- Pieces that stand for a directive: they copy it, or they quote it and hold a line that is read
as a directive of a kind. -/
inductive Becomes (arch : Arch) (s : Statement) (kind : Kind) : List Chunk → Prop
  | copied : s.kind = kind → Becomes arch s kind [.copied s.text]
  | line {line : Line} {t : Statement} : parse arch line.text = .ok [t] → t.kind = kind →
      Becomes arch s kind [.quoted s, .line line]

/-- The symbol that common storage is for is exchanged: the first argument of the directive, with
what stands around it. -/
def ExchangesFirst (f : String → String) (arguments put : List Char) : Prop :=
  ∃ blanks name rest, (∀ ch ∈ blanks, Text.isBlank ch = true) ∧
    (Piece.split arguments).head?.map Piece.text = some name ∧
    arguments = blanks ++ (name ++ rest) ∧
    put = blanks ++ ((f (String.ofList name)).toList ++ rest)

/-- What is written for a directive of a kind: where it is written with names, the local ones are
those of the file. -/
inductive FollowsNames (arch : Arch) (scope : Scope) (s : Statement) : Kind → List Chunk → Prop
  | visibility {arguments : String} : FollowsNames arch scope s (.visibility arguments)
      [.copied s.text]
  | lineInfo {directive arguments : String} : FollowsNames arch scope s
      (.lineInfo directive arguments) [.copied s.text]
  | data {directive : String} {arguments : List Expr} {chunks : List Chunk} :
      Becomes arch s (.symbolic directive (arguments.map (Expr.mapSymbols scope.localized)))
        chunks →
      FollowsNames arch scope s (.symbolic directive arguments) chunks
  | binding {directive name : String} {value : Expr} {chunks : List Chunk} :
      ¬ (Symbol.isDotLocal name = false ∧ scope.defines name = true) →
      Becomes arch s (.binding directive (scope.localized name)
        (value.mapSymbols scope.localized)) chunks →
      FollowsNames arch scope s (.binding directive name value) chunks
  /-- The alias of a symbol is bound to the same value. -/
  | alias {directive name : String} {value : Expr} {chunks : List Chunk} {line : Line}
      {t : Statement} : Symbol.isDotLocal name = false ∧ scope.defines name = true →
      Becomes arch s (.binding directive (scope.localized name)
        (value.mapSymbols scope.localized)) chunks →
      parse arch line.text = .ok [t] →
      t.kind = .binding directive (Symbol.localAlias name) (value.mapSymbols scope.localized) →
      FollowsNames arch scope s (.binding directive name value) (chunks ++ [.line line])
  | commonCopied {directive arguments : String} : IsCommon directive →
      ExchangesFirst scope.localized arguments.toList arguments.toList →
      FollowsNames arch scope s (.directive directive arguments) [.copied s.text]
  | common {directive arguments : String} {put : List Char} {chunks : List Chunk} :
      IsCommon directive → ExchangesFirst scope.localized arguments.toList put →
      Becomes arch s (.directive directive
        (String.ofList (Text.trimEnd (put.dropWhile Cursor.isSpace)))) chunks →
      FollowsNames arch scope s (.directive directive arguments) chunks
  /-- A section of code or of read-only data becomes that of the code. -/
  | code {directive arguments : String} : directive.toLower = ".section" →
      Section.HoldsCode arguments →
      FollowsNames arch scope s (.directive directive arguments)
        [.quoted s, .line (.plain ".text" [])]
  | other {directive arguments : String} : ¬ IsCommon directive →
      ¬ (directive.toLower = ".section" ∧ Section.HoldsCode arguments) →
      FollowsNames arch scope s (.directive directive arguments) [.copied s.text]

lemma Becomes.of_shape {line : Line} {kind : Kind} (h : Shape arch line.text.toList kind) :
    Becomes arch s kind [.quoted s, .line line] := by
  obtain ⟨t, hparse, hkind⟩ := exists_parse_of_shape h
  exact .line hparse hkind

lemma localized_isName (name : String) (hname : IsName name) (hpoint : name ≠ ".") :
    IsName (scope.localized name) ∧ scope.localized name ≠ "." :=
  ⟨Scope.isName_localized hname, Symbol.localized_ne_point hpoint⟩

lemma becomes_sealData {directive : String} {arguments : List Expr}
    (h : DirectiveIn arch s.kind) (hkind : s.kind = .symbolic directive arguments) :
    Becomes arch s (.symbolic directive (arguments.map (Expr.mapSymbols scope.localized)))
      (sealData scope s directive arguments).chunks := by
  rw [sealData]
  split
  · next hsame => exact .copied (hkind.trans (by rw [hsame]))
  · exact .of_shape (shape_data localized_isName (fun _ => Scope.isName_localized) (hkind ▸ h))

lemma followsNames_sealBinding {directive name : String} {value : Expr}
    (h : DirectiveIn arch s.kind) (hkind : s.kind = .binding directive name value) :
    FollowsNames arch scope s (.binding directive name value)
      (sealBinding scope s directive name value).chunks := by
  rw [hkind] at h
  obtain ⟨-, -, -, -, -, -, hname, -, -, -⟩ := h.exists_value
  have hown : Becomes arch s (.binding directive (scope.localized name)
      (value.mapSymbols scope.localized))
      (if scope.localized name = name ∧ value.mapSymbols scope.localized = value then
          Emission.copy s
        else .replace s [.column directive
          [scope.localized name, (value.mapSymbols scope.localized).display]]).chunks := by
    split
    · next hsame => exact .copied (by rw [hkind, hsame.1, hsame.2])
    · exact .of_shape (shape_rebound h (Scope.isName_localized hname))
  rw [sealBinding]
  split
  · next hpublic =>
      have halias : Shape arch (Line.column directive
          [Symbol.localAlias name, (value.mapSymbols scope.localized).display]).text.toList _ :=
        shape_rebound h (Symbol.isName_localAlias hname)
      obtain ⟨t, hparse, ht⟩ := exists_parse_of_shape halias
      exact .alias (by simpa using hpublic) hown hparse ht
  · next hpublic => exact .binding (by simpa using hpublic) hown

lemma directiveKind_of_isCommon {directive : String} (h : IsCommon directive) (args : List Char) :
    directiveKind directive args = .ok (.directive directive (String.ofList args)) := by
  have hother : directive.toLower ∉ visibilityDirectives ∧
      directive.toLower ∉ lineInfoDirectives ∧ directive.toLower ∉ symbolicDirectives ∧
        directive.toLower ∉ bindingDirectives := by
    rcases h with h | h <;> rw [h] <;> decide +kernel
  rw [directiveKind, if_neg hother.1, if_neg hother.2.1, if_neg hother.2.2.1, if_neg hother.2.2.2]

lemma followsNames_sealCommon {directive arguments : String} (hcommon : IsCommon directive)
    (h : DirectiveIn arch s.kind) (hkind : s.kind = .directive directive arguments)
    (he : sealCommon scope s directive arguments = .ok e) :
    FollowsNames arch scope s (.directive directive arguments) e.chunks := by
  rw [hkind] at h
  obtain ⟨p, blanks, rest, hp, hsplit, hblanks, hwritten⟩ := sealCommon_eq_ok h he
  have hfirst : (Piece.split arguments.toList).head?.map Piece.text = some p.text := by
    rw [hp, Option.map_some]
  rcases hwritten with ⟨hsame, hchunks⟩ | ⟨put, hput, hwhole, hchunks⟩
  · rw [hchunks]
    refine .commonCopied hcommon ⟨blanks, p.text, rest, hblanks, hfirst, hsplit, ?_⟩
    rw [hsame, String.toList_ofList, hsplit]
  · rw [hchunks]
    refine .common hcommon ⟨blanks, p.text, rest, hblanks, hfirst, hsplit, hput⟩ (.of_shape ?_)
    obtain ⟨name, args, hne, hname, -, hdirective⟩ := h
    cases hdirective with
    | other =>
        refine shape_directive_line String.toList_ofList hne hname (.inr rfl)
          (List.forall_mem_singleton.mpr hwhole) ?_
        rw [directiveKind_of_isCommon hcommon, List.map_singleton, Piece.join_singleton]

lemma followsNames_sealDirective {directive arguments : String} (h : DirectiveIn arch s.kind)
    (hkind : s.kind = .directive directive arguments)
    (he : sealDirective scope s directive arguments = .ok e) :
    FollowsNames arch scope s (.directive directive arguments) e.chunks := by
  unfold sealDirective at he
  dsimp only at he
  split at he
  · next hcommon => exact followsNames_sealCommon hcommon h hkind he
  · next hcommon =>
      split at he
      · cases he
      · split at he
        · next hsection =>
            rcases sealSection_eq_ok he with ⟨hholds, rfl⟩ | ⟨hother, rfl⟩
            · exact .code hsection hholds
            · exact .other hcommon fun h => hother h.2
        · next hsection =>
            cases he
            exact .other hcommon fun h => hsection h.1

/-- Directives are written alike in zero-initialised storage and outside. -/
lemma emission_of_isDirective (h : s.kind.isDirective = true) :
    emission arch scope inBss s = sealCode arch scope s := by
  unfold emission
  split
  · next hkind =>
      rw [hkind] at h
      cases h
  · next hkind =>
      rw [hkind] at h
      cases h
  · rfl

/-- What is written for a directive that is read. -/
lemma followsNames_of_emission (h : DirectiveIn arch s.kind)
    (hdirective : s.kind.isDirective = true) (he : emission arch scope inBss s = .ok e) :
    FollowsNames arch scope s s.kind e.chunks := by
  rw [emission_of_isDirective hdirective] at he
  unfold sealCode at he
  cases hkind : s.kind with
  | blank | comment | label | instruction =>
      rw [hkind] at hdirective
      cases hdirective
  | visibility =>
      rw [hkind] at he
      cases he
      exact .visibility
  | lineInfo =>
      rw [hkind] at he
      cases he
      exact .lineInfo
  | symbolic =>
      rw [hkind] at he
      cases he
      exact .data (becomes_sealData h hkind)
  | binding =>
      rw [hkind] at he
      cases he
      exact followsNames_sealBinding h hkind
  | directive =>
      rw [hkind] at he
      exact followsNames_sealDirective h hkind he

end Statement

/-! ### Directives that are written anew -/

/-- A term in which a local name is exchanged for that of the file at a position. -/
inductive Term.Exchanged (index : ℕ) : Term → Term → Prop
  | ofLocal {name : String} : Symbol.isDotLocal name = true →
      Term.Exchanged index (.symbol name) (.symbol (Symbol.renamed name index))
  | ofPublic {name : String} : Symbol.isDotLocal name = false →
      Term.Exchanged index (.symbol name) (.symbol name)
  | other {text : String} : Term.Exchanged index (.other text) (.other text)

/-- An expression in which every local name is exchanged, term by term. -/
def Expr.Exchanged (index : ℕ) (e e' : Expr) : Prop :=
  List.Forall₂ (Term.Exchanged index) e.terms e'.terms

lemma Expr.exchanged_mapSymbols (scope : Scope) (e : Expr) :
    e.Exchanged scope.index (e.mapSymbols scope.localized) := by
  refine List.forall₂_map_right_iff.mpr (List.forall₂_same.mpr fun term _ => ?_)
  cases term with
  | other => exact .other
  | symbol name =>
      dsimp only
      rw [Scope.localized, Symbol.localized]
      split
      · next hlocal => exact .ofLocal hlocal
      · next hlocal => exact .ofPublic (by simpa using hlocal)

namespace Statement

variable {arch : Arch} {scope : Scope} {inBss : Bool} {s : Statement}

/-- A directive with data, or one that binds a symbol, in which every local name is exchanged,
argument by argument. -/
inductive Kind.Exchanged (index : ℕ) : Kind → Kind → Prop
  | symbolic {directive : String} {arguments arguments' : List Expr} :
      List.Forall₂ (Expr.Exchanged index) arguments arguments' →
      Kind.Exchanged index (.symbolic directive arguments) (.symbolic directive arguments')
  | binding {directive name : String} {value value' : Expr} : value.Exchanged index value' →
      Kind.Exchanged index (.binding directive name value)
        (.binding directive (Symbol.localized name index) value')

/-- Whether a statement of a kind holds expressions with symbols besides an instruction's. -/
def Kind.isSymbolic : Kind → Bool
  | symbolic .. | binding .. => true
  | _ => false

lemma Kind.isDirective_of_isSymbolic {kind : Kind} (h : kind.isSymbolic = true) :
    kind.isDirective = true := by
  cases kind <;> first | rfl | cases h

/-- What is written first for a directive in which local names are exchanged: its text, if they are
as they should be, or a comment that quotes it and a line that is read as the other directive. -/
lemma FollowsNames.exchanged {chunks : List Chunk} (h : FollowsNames arch scope s s.kind chunks)
    (hsymbolic : s.kind.isSymbolic = true) :
    (∃ rest, chunks = .copied s.text :: rest ∧ s.kind.Exchanged scope.index s.kind) ∨
      ∃ line rest t, chunks = .quoted s :: .line line :: rest ∧ parse arch line.text = .ok [t] ∧
        s.kind.Exchanged scope.index t.kind := by
  -- what is written first decides; an alias may follow
  have hbecomes {kind : Kind} {first : List Chunk} (rest : List Chunk)
      (hfirst : Becomes arch s kind first) (hkind : s.kind.Exchanged scope.index kind) :
      (∃ rest', first ++ rest = .copied s.text :: rest' ∧
          s.kind.Exchanged scope.index s.kind) ∨
        ∃ line rest' t, first ++ rest = .quoted s :: .line line :: rest' ∧
          parse arch line.text = .ok [t] ∧ s.kind.Exchanged scope.index t.kind := by
    cases hfirst with
    | copied hsame => exact .inl ⟨rest, rfl, hsame ▸ hkind⟩
    | line hparse hread => exact .inr ⟨_, rest, _, rfl, hparse, hread ▸ hkind⟩
  generalize hkind : s.kind = kind at h hsymbolic hbecomes
  cases h with
  | data hfirst =>
      have hboth := hbecomes [] hfirst
        (.symbolic (List.forall₂_map_right_iff.mpr
          (List.forall₂_same.mpr fun e _ => e.exchanged_mapSymbols scope)))
      rwa [List.append_nil] at hboth
  | @binding _ _ value _ _ hfirst =>
      have hboth := hbecomes [] hfirst (.binding (value.exchanged_mapSymbols scope))
      rwa [List.append_nil] at hboth
  | @«alias» _ _ value _ _ _ _ hfirst =>
      exact hbecomes _ hfirst (.binding (value.exchanged_mapSymbols scope))
  | visibility | lineInfo | commonCopied | common | code | other => cases hsymbolic

/-- A directive with data, or one that binds a symbol, is written as it stands if it has the local
names of its file.  Otherwise it is quoted, and the line after the comment is read as exactly one
statement, the same directive with these names in the place of the others. -/
theorem emission_exchanged {text : String} {statements : List Statement}
    (h : parse arch text = .ok statements) (hs : s ∈ statements)
    (hsymbolic : s.kind.isSymbolic = true) :
    ∃ e, emission arch scope inBss s = .ok e ∧
      ((∃ rest, e.chunks = .copied s.text :: rest ∧ s.kind.Exchanged scope.index s.kind) ∨
        ∃ line rest t, e.chunks = .quoted s :: .line line :: rest ∧
          parse arch line.text = .ok [t] ∧ s.kind.Exchanged scope.index t.kind) := by
  have hdirective := Kind.isDirective_of_isSymbolic hsymbolic
  obtain ⟨e, he⟩ : ∃ e, emission arch scope inBss s = .ok e := by
    rw [emission_of_isDirective hdirective, sealCode]
    revert hsymbolic
    cases s.kind with
    | symbolic | binding => exact fun _ => ⟨_, rfl⟩
    | _ => intro h; cases h
  exact ⟨e, he, (followsNames_of_emission (directiveIn_of_parse h hs hdirective) hdirective
    he).exchanged hsymbolic⟩

/-- Arguments with a specifier, brackets and a string, and one that is empty. -/
theorem emission_exchanged_data :
    let text := "\t.long .Lx@GOTOFF, (.Lx+4), \"a,.Lx\",\n"
    ∃ statements s, parse .x86_64 text = .ok statements ∧ s ∈ statements ∧
      s.kind.isSymbolic = true ∧ ∃ e, emission .x86_64 ⟨{}, "m", 1⟩ false s = .ok e ∧
        ((∃ rest, e.chunks = .copied s.text :: rest ∧ s.kind.Exchanged 1 s.kind) ∨
          ∃ line rest t, e.chunks = .quoted s :: .line line :: rest ∧
            parse .x86_64 line.text = .ok [t] ∧ s.kind.Exchanged 1 t.kind) := by
  intro text
  have hread : (parse .x86_64 text).toOption.any (·.any (·.kind.isSymbolic)) = true := by
    decide +kernel
  obtain ⟨statements, h, hany⟩ := Outcome.exists_of_any hread
  obtain ⟨s, hs, hsymbolic⟩ := List.any_eq_true.mp hany
  exact ⟨statements, s, h, hs, hsymbolic,
    emission_exchanged h hs hsymbolic⟩

end Statement

/-! ### Modules -/

namespace CodeModule

variable {m : CodeModule} {r : Sealed}

/-- The directives of a module are written with the local names of their files, where they are
written with names. -/
theorem sealed_followsNames (h : m.sealed = .ok r) :
    ∃ files symbols emissions, SealedFrom m r files symbols emissions ∧
      ∀ file ∈ files, ∀ s ∈ file.statements, s.kind.isDirective = true → ∀ inBss e,
        s.emission r.arch ⟨symbols, m.marker, file.index⟩ inBss = .ok e →
          s.FollowsNames r.arch ⟨symbols, m.marker, file.index⟩ s.kind e.chunks := by
  obtain ⟨files, symbols, emissions, hfrom⟩ := exists_sealedFrom h
  refine ⟨files, symbols, emissions, hfrom, fun file hf s hs hdirective inBss e he => ?_⟩
  obtain ⟨input, -, hparse⟩ := exists_parse_of_readFrom hfrom.read hf
  exact Statement.followsNames_of_emission (Statement.directiveIn_of_parse hparse hs hdirective)
    hdirective he

/-- An empty file, and one with a text. -/
def second (text : String) : CodeModule where
  givenArch := some .x86_64
  inputs := [⟨"a.s", ""⟩, ⟨"b.s", text⟩]

/-- A local name that a second file binds, and data that names it. -/
theorem sealed_followsNames_data :
    let m := second ".set .Lx, .\n\t.quad .Lx-4\n"
    ∃ r files symbols emissions, m.sealed = .ok r ∧ SealedFrom m r files symbols emissions ∧
      ∃ file ∈ files, file.index = 1 ∧ ∃ s ∈ file.statements, s.kind.isDirective = true ∧
        ∃ e, s.emission r.arch ⟨symbols, m.marker, file.index⟩ false = .ok e ∧
          s.FollowsNames r.arch ⟨symbols, m.marker, file.index⟩ s.kind e.chunks := by
  intro m
  have hok : m.sealed.toOption.isSome = true := by decide +kernel
  have hread : (m.files .x86_64).toOption.any (fun files => files.any fun file =>
      file.index = 1 ∧ file.statements.any (·.kind.isDirective) = true) = true := by decide +kernel
  cases h : m.sealed with
  | error e =>
      rw [h] at hok
      cases hok
  | ok r =>
      obtain ⟨files, symbols, emissions, hfrom, hfollows⟩ := sealed_followsNames h
      have harch : r.arch = .x86_64 := (Except.ok.inj hfrom.detected).symm
      have hfiles := hfrom.read
      rw [harch] at hfiles
      rw [hfiles] at hread
      obtain ⟨file, hf, hfile⟩ := List.any_eq_true.mp hread
      obtain ⟨hindex, hany⟩ := of_decide_eq_true (p := _ ∧ _) hfile
      obtain ⟨s, hs, hdirective⟩ := List.any_eq_true.mp hany
      obtain ⟨e, -, inBss, he⟩ := hfrom.emits.exists_mem hf hs
      have hcode : s.emission r.arch ⟨symbols, m.marker, file.index⟩ false = .ok e := by
        rwa [Statement.emission_of_isDirective hdirective] at he ⊢
      exact ⟨r, files, symbols, emissions, rfl, hfrom, file, hf, hindex, s, hs, hdirective, e,
        hcode, hfollows file hf s hs hdirective false e hcode⟩

/-- A local name that a second file binds, and a directive without data that names it: the binding
is written with the name for the file, and the directive as it stands. -/
theorem exists_directive_not_renamed :
    let m := second ".set .Lx, .\n\t.cfi_lsda 0x1b,.Lx\n"
    ∃ r files symbols emissions, m.sealed = .ok r ∧ SealedFrom m r files symbols emissions ∧
      ∃ file ∈ files, file.index = 1 ∧
        (∃ s ∈ file.statements, s.kind = .binding ".set" ".Lx" ⟨[.other "."]⟩ ∧
          s.emission r.arch ⟨symbols, m.marker, file.index⟩ false =
            .ok (.replace s [.column ".set" [".Lx_BCM_1", "."]])) ∧
        ∃ s ∈ file.statements, s.kind = .directive ".cfi_lsda" "0x1b,.Lx" ∧
          s.emission r.arch ⟨symbols, m.marker, file.index⟩ false =
            .ok { chunks := [.copied "\t.cfi_lsda 0x1b,.Lx\n"] } := by
  intro m
  -- what is read of the module is evaluated, and then the two statements are sealed
  have hok : m.sealed.toOption.isSome = true := by decide +kernel
  have hread : (m.files .x86_64).toOption.any (fun files => files.any fun file =>
      file.index = 1 ∧
        (file.statements.any (·.kind = .binding ".set" ".Lx" ⟨[.other "."]⟩)) = true ∧
        (file.statements.any fun s => s.kind = .directive ".cfi_lsda" "0x1b,.Lx" ∧
          s.text = "\t.cfi_lsda 0x1b,.Lx\n") = true) = true := by decide +kernel
  cases h : m.sealed with
  | error e =>
      rw [h] at hok
      cases hok
  | ok r =>
      obtain ⟨files, symbols, emissions, hfrom⟩ := exists_sealedFrom h
      have harch : r.arch = .x86_64 := (Except.ok.inj hfrom.detected).symm
      have hfiles := hfrom.read
      rw [harch] at hfiles
      rw [hfiles] at hread
      obtain ⟨file, hf, hfile⟩ := List.any_eq_true.mp hread
      obtain ⟨hindex, hbinding, hdirective⟩ := of_decide_eq_true (p := _ ∧ _ ∧ _) hfile
      refine ⟨r, files, symbols, emissions, rfl, hfrom, file, hf, hindex, ?_, ?_⟩
      · obtain ⟨s, hs, hs'⟩ := List.any_eq_true.mp hbinding
        have hkind : s.kind = .binding ".set" ".Lx" ⟨[.other "."]⟩ := of_decide_eq_true hs'
        have hlocal : Symbol.localized ".Lx" 1 = ".Lx_BCM_1" := by decide +kernel
        have hdot : Symbol.isDotLocal ".Lx" = true := by decide +kernel
        refine ⟨s, hs, hkind, ?_⟩
        rw [Statement.emission_of_isDirective (by rw [hkind]; rfl), Statement.sealCode, hkind]
        dsimp only
        rw [Statement.sealBinding, Scope.localized, hindex, hlocal, hdot]
        rfl
      · obtain ⟨s, hs, hs'⟩ := List.any_eq_true.mp hdirective
        obtain ⟨hkind, htext⟩ := of_decide_eq_true (p := _ ∧ _) hs'
        have hlower : ".cfi_lsda".toLower = ".cfi_lsda" := by decide +kernel
        refine ⟨s, hs, hkind, ?_⟩
        rw [Statement.emission_of_isDirective (by rw [hkind]; rfl), Statement.sealCode, hkind]
        dsimp only
        rw [Statement.sealDirective, hlower, if_neg (by decide), if_neg (by decide),
          if_neg (by decide), Emission.copy, htext]

end CodeModule

end Hermetic

/-
Line ends with and without carriage returns.

A text is read alike with a carriage return before every line feed: each step leads to cursors that
keep step, and both texts fail or neither does.

* `Statement.argumentsFrom_alike`: the arguments of a statement, with
  `Statement.GoesOn.alike_comment` and others: one step for each thing that may come next;
* `Statement.ofCursor_alike`: the next statement, which has the same kind;
* `Statement.oneLine_crlf`: it is quoted alike;
* `Statement.parse_crlf`: the statements of a text.
-/
import Hermetic.Proofs.Outcome
import Hermetic.Proofs.Source.LineEnds
import Hermetic.Proofs.Statement.Lossless
import Hermetic.Proofs.Statement.Steps

namespace Hermetic.Statement

open Cursor Outcome Text

variable {arch : Arch} {c c' : Cursor Char}

/-! ### What comes next -/

/-- Outside of line ends both cursors see the same. -/
lemma rest_of_beside {u : Char} {r : List Char} (h : Beside c c') (hc : c.rest = u :: r)
    (hu : u ≠ '\n') : c'.rest = u :: crlf r := by
  rcases h with h | ⟨r', hc', -⟩
  · rw [h, hc, crlf_cons hu]
  · rw [hc, List.cons.injEq] at hc'
    exact (hu hc'.1).elim

lemma rest_of_next? {u : Char} (h : c.next? = some u) : ∃ r, c.rest = u :: r := by
  obtain ⟨v, hv, rfl⟩ := Option.map_eq_some_iff.mp h
  exact List.head?_eq_some_iff.mp hv

lemma rest_eq_nil_of_beside (h : Beside c c') (hc : c.rest = []) : c'.rest = [] := by
  rcases h with h | ⟨r, hc', -⟩
  · rw [h, hc, crlf_nil]
  · rw [hc] at hc'
    cases hc'

lemma startsComment_crlf {first : Bool} {u : Char} {r : List Char} (hc : c.rest = u :: r)
    (hc' : c'.rest = u :: crlf r) :
    startsComment arch first c' = startsComment arch first c := by
  rw [Bool.eq_iff_iff, startsComment_iff hc', startsComment_iff hc,
    head?_crlf (by decide) (by decide)]

lemma endsArguments_crlf {u : Char} {r : List Char} (hc : c.rest = u :: r)
    (hc' : c'.rest = u :: crlf r) : endsArguments arch c' = endsArguments arch c := by
  rw [endsArguments, endsArguments, startsComment_crlf hc hc', next?_of_rest hc, next?_of_rest hc']

/-- A statement ends with its line. -/
lemma terminator_alike (h : Beside c c') :
    Alike (fun a a' => a'.rest = crlf a.rest) (terminator arch c) (terminator arch c') := by
  refine (skipSpace_alike h).bind fun found found' hstop => ?_
  obtain ⟨_, stop⟩ := found
  obtain ⟨_, stop'⟩ := found'
  dsimp only at hstop ⊢
  -- before the end of the line, one of the texts may have a carriage return
  have hbeside : Beside stop stop' := beside_of_pastReturn hstop
  cases hr : stop.rest with
  | nil =>
      have hr' := rest_eq_nil_of_beside hbeside hr
      rw [next?, next?, hr, hr']
      change stop'.rest = crlf stop.rest
      rw [hr, hr', crlf_nil]
  | cons u r =>
      by_cases hu : u = '\n'
      · subst hu
        rw [hr, pastReturn_newline] at hstop
        rw [next?_of_rest hr, next?_of_rest hstop]
        change stop'.bump.rest = crlf stop.bump.rest
        rw [rest_bump, rest_bump, hr, hstop]
        rfl
      · have hr' := rest_of_beside hbeside hr hu
        rw [next?_of_rest hr, next?_of_rest hr']
        dsimp only
        split
        · change stop'.bump.rest = crlf stop.bump.rest
          rw [rest_bump, rest_bump, hr, hr']
          rfl
        · rw [startsComment_crlf hr hr']
          split
          · exact rest_takeLine_bump_crlf hbeside
          · trivial

/-! ### Arguments -/

/-- What is read as arguments, and where they end. -/
abbrev SameArguments (a a' : List Char × Cursor Char) : Prop :=
  a'.1 = a.1 ∧ a'.2.rest = pastReturn a.2.rest

/-- A carriage return at the end of a line is kept, where it is one of the blanks at the end of
the arguments or before a backslash. -/
lemma argumentsFrom_return {kept : List Char} {opened : List (Char × Span)} {r : List Char}
    (hc : c.rest = '\r' :: '\n' :: r) :
    argumentsFrom arch kept opened c = argumentsFrom arch ('\r' :: kept) opened c.bump := by
  have hends : endsArguments arch c = false := by
    rw [Bool.eq_false_iff, Ne, endsArguments_iff hc]
    simp [EndsAt]
  rw [argumentsFrom_eq, peek_of_rest hc, hends, Bool.and_false]
  dsimp only
  rw [if_neg (by decide), if_neg (by decide), if_neg (by simp), if_neg (by decide),
    if_neg (by decide), if_neg (by decide)]

/-- A character that arguments go on with is followed alike. -/
lemma GoesOn.crlf {opened opened' : List (Char × Span)} {ch : Char} {r : List Char}
    (h : GoesOn arch opened c ch r) (hopened : opened'.map Prod.fst = opened.map Prod.fst)
    (hcrlf : c'.rest = Text.crlf c.rest) : GoesOn arch opened' c' ch (Text.crlf r) := by
  have hrest : c'.rest = ch :: Text.crlf r := by rw [hcrlf, h.rest, crlf_cons h.line]
  refine ⟨hrest, h.line, ?_⟩
  rw [endsArguments_crlf h.rest hrest, ← List.isEmpty_map (f := Prod.fst), hopened,
    List.isEmpty_map]
  exact h.going

/-- The arguments of texts with less than some number of characters are read alike. -/
def AlikeBelow (arch : Arch) (n : ℕ) : Prop :=
  ∀ {c c' : Cursor Char} {opened opened' : List (Char × Span)} (kept : List Char),
    c.rest.length < n → opened'.map Prod.fst = opened.map Prod.fst → c'.rest = crlf c.rest →
      Alike SameArguments (argumentsFrom arch kept opened c) (argumentsFrom arch kept opened' c')

section Branches

variable {kept : List Char} {opened opened' : List (Char × Span)} {ch : Char} {r : List Char}

lemma argumentsFrom_alike_nil (hopened : opened'.map Prod.fst = opened.map Prod.fst)
    (hc : c.rest = []) (hcrlf : c'.rest = crlf c.rest) :
    Alike SameArguments (argumentsFrom arch kept opened c)
      (argumentsFrom arch kept opened' c') := by
  have hc' : c'.rest = [] := by rw [hcrlf, hc, crlf_nil]
  rw [argumentsFrom_nil hc, argumentsFrom_nil hc']
  cases opened with
  | nil =>
      obtain rfl := List.map_eq_nil_iff.mp hopened
      exact ⟨rfl, by rw [hc, hc', pastReturn_nil]⟩
  | cons outer others =>
      obtain ⟨outer', others', rfl, -⟩ := List.map_eq_cons_iff.mp hopened
      trivial

/-- At the end of a line, one of the texts has a carriage return first. -/
lemma argumentsFrom_alike_newline (hbelow : AlikeBelow arch c.rest.length)
    (hopened : opened'.map Prod.fst = opened.map Prod.fst) (hc : c.rest = '\n' :: r)
    (hcrlf : c'.rest = crlf c.rest) :
    Alike SameArguments (argumentsFrom arch kept opened c)
      (argumentsFrom arch kept opened' c') := by
  rw [hc, crlf_newline] at hcrlf
  have hreturn : c'.bump.rest = '\n' :: crlf r := by rw [rest_bump, hcrlf, List.tail_cons]
  rw [argumentsFrom_return hcrlf]
  cases opened with
  | nil =>
      obtain rfl := List.map_eq_nil_iff.mp hopened
      rw [argumentsFrom_newline hc, argumentsFrom_newline hreturn]
      refine ⟨rfl, ?_⟩
      rw [hreturn, hc]
      rfl
  | cons outer others =>
      obtain ⟨outer', others', rfl, -⟩ := List.map_eq_cons_iff.mp hopened
      -- the carriage return is one more blank before the end of the line
      have hblank : ('\r' :: kept).dropWhile Text.isBlank = kept.dropWhile Text.isBlank := rfl
      by_cases hjoins : ∃ joined, kept.dropWhile Text.isBlank = '\\' :: joined
      · obtain ⟨joined, hjoined⟩ := hjoins
        have hbump : c'.bump.bump.rest = crlf c.bump.rest := by
          rw [rest_bump, rest_bump, rest_bump, hcrlf, hc]
          rfl
        have hlt : c.bump.rest.length < c.rest.length := by
          rw [rest_bump, hc]
          exact Nat.lt_succ_self _
        rw [argumentsFrom_joined _ _ hc hjoined,
          argumentsFrom_joined _ _ hreturn (hblank.trans hjoined)]
        exact hbelow _ hlt hopened hbump
      · rw [argumentsFrom_openAtLineEnd _ _ hc hjoins,
          argumentsFrom_openAtLineEnd _ _ hreturn (hblank ▸ hjoins)]
        trivial

lemma argumentsFrom_alike_ended (hopened : opened'.map Prod.fst = opened.map Prod.fst)
    (hc : c.rest = ch :: r) (hcrlf : c'.rest = crlf c.rest) (hline : ch ≠ '\n')
    (hend : (opened.isEmpty && endsArguments arch c) = true) :
    Alike SameArguments (argumentsFrom arch kept opened c)
      (argumentsFrom arch kept opened' c') := by
  have hc' : c'.rest = ch :: crlf r := by rw [hcrlf, hc, crlf_cons hline]
  have hend' : (opened'.isEmpty && endsArguments arch c') = true := by
    rwa [endsArguments_crlf hc hc', ← List.isEmpty_map (f := Prod.fst), hopened,
      List.isEmpty_map]
  rw [argumentsFrom_ended hc hline hend, argumentsFrom_ended hc' hline hend']
  exact ⟨rfl, by rw [hc, hc', pastReturn_cons hline]⟩

namespace GoesOn

/-- Behind a character that is no line feed, both texts go on as before it. -/
lemma rest_bump_crlf (h : GoesOn arch opened c ch r) (hcrlf : c'.rest = Text.crlf c.rest) :
    c'.bump.rest = Text.crlf c.bump.rest := by
  rw [rest_bump, rest_bump, hcrlf, h.rest, crlf_cons h.line, List.tail_cons, List.tail_cons]

lemma length_bump_lt (h : GoesOn arch opened c ch r) :
    c.bump.rest.length < c.rest.length := by
  rw [rest_bump, h.rest]
  exact Nat.lt_succ_self _

variable (hbelow : AlikeBelow arch c.rest.length)
variable (hopened : opened'.map Prod.fst = opened.map Prod.fst)
variable (hcrlf : c'.rest = Text.crlf c.rest)
include hbelow hopened hcrlf

lemma alike_comment (h : GoesOn arch opened c '/' ('*' :: r)) :
    Alike SameArguments (argumentsFrom arch kept opened c)
      (argumentsFrom arch kept opened' c') := by
  have h' : GoesOn arch opened' c' '/' ('*' :: Text.crlf r) := h.crlf hopened hcrlf
  rw [h.argumentsFrom_comment, h'.argumentsFrom_comment]
  have hread := skipBlockComment_alike h.rest hcrlf
  cases hs : settle c.skipBlockComment with
  | error e =>
      obtain ⟨e', he'⟩ := hread.exists_error hs
      rw [he']
      trivial
  | ok read =>
      obtain ⟨read', hs', hstop⟩ := hread.exists_ok hs
      rw [hs']
      refine hbelow _ ?_ hopened hstop
      exact (bump_reaches_of_skipBlockComment (settle_eq_ok_iff.mp hs)).length_lt h.rest_ne_nil

lemma alike_quote (h : GoesOn arch opened c '"' r) :
    Alike SameArguments (argumentsFrom arch kept opened c)
      (argumentsFrom arch kept opened' c') := by
  have hne := h.rest_ne_nil
  rw [h.argumentsFrom_quote, (h.crlf hopened hcrlf).argumentsFrom_quote]
  have hread := takeQuoted_alike h.rest hcrlf
  cases hs : settle c.takeQuoted with
  | error e =>
      obtain ⟨e', he'⟩ := hread.exists_error hs
      rw [he']
      trivial
  | ok read =>
      obtain ⟨read', hs', hquoted, hstop⟩ := hread.exists_ok hs
      rw [hs']
      dsimp only [bind, Except.bind]
      rw [hquoted]
      exact hbelow _ ((bump_reaches_of_takeQuoted hne (settle_eq_ok_iff.mp hs)).length_lt hne)
        hopened hstop

lemma alike_opening (h : GoesOn arch opened c ch r) (hch : ch = '(' ∨ ch = '[' ∨ ch = '{') :
    Alike SameArguments (argumentsFrom arch kept opened c)
      (argumentsFrom arch kept opened' c') := by
  rw [h.argumentsFrom_opening hch, (h.crlf hopened hcrlf).argumentsFrom_opening hch]
  refine hbelow _ h.length_bump_lt ?_ (h.rest_bump_crlf hcrlf)
  rw [List.map_cons, List.map_cons, hopened]

lemma alike_closing (h : GoesOn arch opened c ch r) (hch : ch = ')' ∨ ch = ']' ∨ ch = '}') :
    Alike SameArguments (argumentsFrom arch kept opened c)
      (argumentsFrom arch kept opened' c') := by
  rw [h.argumentsFrom_closing hch, (h.crlf hopened hcrlf).argumentsFrom_closing hch]
  cases opened with
  | nil =>
      obtain rfl := List.map_eq_nil_iff.mp hopened
      trivial
  | cons outer others =>
      obtain ⟨⟨bracket, span⟩, others', rfl, hbracket, hothers⟩ := List.map_eq_cons_iff.mp hopened
      obtain rfl : bracket = outer.1 := hbracket
      dsimp only
      split
      · exact hbelow _ h.length_bump_lt hothers (h.rest_bump_crlf hcrlf)
      · trivial

lemma alike_other (h : GoesOn arch opened c ch r)
    (hcomment : ¬ (ch = '/' ∧ r.head? = some '*')) (hquote : ch ≠ '"')
    (hopening : ¬ (ch = '(' ∨ ch = '[' ∨ ch = '{'))
    (hclosing : ¬ (ch = ')' ∨ ch = ']' ∨ ch = '}')) :
    Alike SameArguments (argumentsFrom arch kept opened c)
      (argumentsFrom arch kept opened' c') := by
  have hcomment' : ¬ (ch = '/' ∧ (Text.crlf r).head? = some '*') := by
    rwa [head?_crlf (by decide) (by decide)]
  rw [h.argumentsFrom_other hcomment hquote hopening hclosing,
    (h.crlf hopened hcrlf).argumentsFrom_other hcomment' hquote hopening hclosing]
  exact hbelow _ h.length_bump_lt hopened (h.rest_bump_crlf hcrlf)

end GoesOn

end Branches

/-- Arguments are read alike. -/
lemma argumentsFrom_alike (kept : List Char) {opened opened' : List (Char × Span)}
    (hopened : opened'.map Prod.fst = opened.map Prod.fst) (h : c'.rest = crlf c.rest) :
    Alike SameArguments (argumentsFrom arch kept opened c)
      (argumentsFrom arch kept opened' c') := by
  -- by the length of the text without carriage returns: each branch leaves less of it
  induction hn : c.rest.length using Nat.strongRecOn generalizing kept opened opened' c c' with
  | ind n ih =>
      have hbelow : AlikeBelow arch c.rest.length := fun kept hlt hopened h =>
        ih _ (hn ▸ hlt) kept hopened h rfl
      cases hc : c.rest with
      | nil => exact argumentsFrom_alike_nil hopened hc h
      | cons ch r =>
          rcases eq_or_ne ch '\n' with rfl | hline
          · exact argumentsFrom_alike_newline hbelow hopened hc h
          by_cases hend : (opened.isEmpty && endsArguments arch c) = true
          · exact argumentsFrom_alike_ended hopened hc h hline hend
          have hgoes : GoesOn arch opened c ch r := ⟨hc, hline, hend⟩
          cases Part.of ch r with
          | comment => exact hgoes.alike_comment hbelow hopened h
          | quote => exact hgoes.alike_quote hbelow hopened h
          | opening _ hch => exact hgoes.alike_opening hbelow hopened h hch
          | closing _ hch => exact hgoes.alike_closing hbelow hopened h hch
          | other hcomment hquote hopening hclosing =>
              exact hgoes.alike_other hbelow hopened h hcomment hquote hopening hclosing

lemma arguments_alike (h : c'.rest = pastReturn c.rest) :
    Alike SameArguments (arguments arch c) (arguments arch c') := by
  rcases beside_of_pastReturn h with hcrlf | ⟨r, hc, hc'⟩
  · exact argumentsFrom_alike [] rfl hcrlf
  · unfold arguments
    rw [argumentsFrom_eq, argumentsFrom_eq, peek_of_rest hc, peek_of_rest hc']
    exact ⟨rfl, h⟩

/-! ### Words -/

lemma mnemonicLength_alike (h : Beside c c') : mnemonicLength c' = mnemonicLength c := by
  cases hr : c.rest with
  | nil => rw [mnemonicLength, mnemonicLength, next?, next?, hr, rest_eq_nil_of_beside h hr]
  | cons u r =>
      by_cases hu : u = '\n'
      · subst hu
        obtain ⟨v, r', hr', hv⟩ : ∃ v r', c'.rest = v :: r' ∧ v.isAlpha = false := by
          rcases h with h | ⟨r', -, h⟩
          · exact ⟨_, _, by rw [h, hr, crlf_newline], by decide⟩
          · exact ⟨_, _, h, by decide⟩
        rw [mnemonicLength, mnemonicLength, next?_of_rest hr, next?_of_rest hr']
        simp [hv]
      · have hr' := rest_of_beside h hr hu
        have hcrlf : c'.rest = crlf c.rest := by rw [hr', hr, crlf_cons hu]
        rw [mnemonicLength, mnemonicLength, next?_of_rest hr, next?_of_rest hr', hcrlf,
          countWhile_crlf (by decide) (by decide)]

/-- What has no line ends is taken alike. -/
lemma take_alike {n : ℕ} (h : c'.rest = crlf c.rest) (hline : '\n' ∉ c.rest.take n) :
    (c'.take n).1 = (c.take n).1 ∧ (c'.skip n).rest = crlf (c.skip n).rest := by
  refine ⟨?_, by rw [rest_skip, rest_skip, h, drop_crlf hline]⟩
  change String.ofList (c'.rest.take n) = String.ofList (c.rest.take n)
  rw [h, take_crlf hline]

lemma newline_notMem_mnemonic (c : Cursor Char) : '\n' ∉ c.rest.take (mnemonicLength c) := by
  unfold mnemonicLength
  split
  · exact newline_notMem_take_countWhile (by decide) _
  · simp

/-- A mnemonic and the words before it, and where it ends. -/
abbrev SameWords (a a' : List String × String × Cursor Char) : Prop :=
  a'.1 = a.1 ∧ a'.2.1 = a.2.1 ∧ a'.2.2.rest = crlf a.2.2.rest

lemma modifiersFrom_alike {word : String} (h : c'.rest = crlf c.rest) :
    Alike SameWords (modifiersFrom word c) (modifiersFrom word c') := by
  fun_induction modifiersFrom word c generalizing c' with
  | case1 word c hmem e stop hs =>
      obtain ⟨e', he'⟩ := (skipSpace_alike (.inl h)).exists_error (e := e) (by rw [hs]; rfl)
      rw [modifiersFrom_eq, if_pos hmem, he']
      trivial
  | case2 word c hmem start hs hn =>
      obtain ⟨⟨_, start'⟩, hs', hstart⟩ :=
        (skipSpace_alike (.inl h)).exists_ok (settle_eq_ok_iff.mpr hs)
      have hlength := mnemonicLength_alike (beside_of_pastReturn hstart)
      rw [modifiersFrom_eq word c', if_pos hmem, hs']
      change Alike _ _ (if mnemonicLength start' = 0 then _ else _)
      rw [if_pos (hlength.trans hn)]
      exact ⟨rfl, rfl, h⟩
  | case3 word c hmem start hs hn ih =>
      obtain ⟨⟨_, start'⟩, hs', hstart⟩ :=
        (skipSpace_alike (.inl h)).exists_ok (settle_eq_ok_iff.mpr hs)
      have hbeside : Beside start start' := beside_of_pastReturn hstart
      have hlength := mnemonicLength_alike hbeside
      -- a word follows, so that the line does not end here
      have hcrlf : start'.rest = crlf start.rest := by
        refine hbeside.resolve_right fun hnewline => hn ?_
        obtain ⟨r, hr, -⟩ := hnewline
        rw [mnemonicLength, next?_of_rest hr]
        exact if_neg (by decide)
      obtain ⟨hword, hstop⟩ := take_alike hcrlf (newline_notMem_mnemonic start)
      rw [modifiersFrom_eq word c', if_pos hmem, hs']
      change Alike _ _ (if mnemonicLength start' = 0 then _ else _)
      rw [if_neg (hlength ▸ hn)]
      dsimp only
      rw [hlength, hword]
      exact (ih hstop).bind fun a a' ha => ⟨by rw [ha.1], ha.2⟩
  | case4 word c hmem =>
      rw [modifiersFrom_eq, if_neg hmem]
      exact ⟨rfl, rfl, h⟩

lemma mnemonic_alike (h : c'.rest = crlf c.rest) :
    Alike SameWords (mnemonic arch c) (mnemonic arch c') := by
  obtain ⟨hword, hstop⟩ := take_alike h (newline_notMem_mnemonic c)
  unfold mnemonic
  rw [mnemonicLength_alike (.inl h), hword]
  cases arch with
  | x86_64 => exact modifiersFrom_alike hstop
  | aarch64 => exact ⟨rfl, rfl, hstop⟩

lemma endsMnemonic_crlf (h : c'.rest = crlf c.rest) :
    endsMnemonic arch c' = endsMnemonic arch c := by
  cases hr : c.rest with
  | nil =>
      have hr' : c'.rest = [] := by rw [h, hr, crlf_nil]
      rw [endsMnemonic, endsMnemonic, next?, next?, hr, hr']
      rfl
  | cons u r =>
      by_cases hu : u = '\n'
      · subst hu
        rw [hr, crlf_newline] at h
        rw [endsMnemonic, endsMnemonic, next?_of_rest hr, next?_of_rest h]
        rfl
      · have hr' := rest_of_beside (.inl h) hr hu
        have hsecond {d : Char} (hreturn : d ≠ '\r') (hline : d ≠ '\n') :
            (c'.second? == some d) = (c.second? == some d) := by
          rw [Bool.eq_iff_iff, beq_iff_eq, beq_iff_eq, second?_of_rest hr, second?_of_rest hr',
            head?_crlf hreturn hline]
        rw [endsMnemonic, endsMnemonic, next?_of_rest hr, next?_of_rest hr']
        dsimp only
        rw [startsComment_crlf hr hr', hsecond (by decide) (by decide),
          hsecond (by decide) (by decide)]

/-! ### Statements -/

/-- A kind, and where its statement or its arguments end. -/
abbrev SameKind (a a' : Kind × Cursor Char) : Prop :=
  a'.1 = a.1 ∧ a'.2.rest = crlf a.2.rest

/-- A kind, and where the arguments of its statement end. -/
abbrev SameBody (a a' : Kind × Cursor Char) : Prop :=
  a'.1 = a.1 ∧ a'.2.rest = pastReturn a.2.rest

lemma directive_alike (h : c'.rest = crlf c.rest) (hpoint : c.next? = some '.') :
    Alike SameBody (directive arch c) (directive arch c') := by
  obtain ⟨r, hr⟩ := rest_of_next? hpoint
  have hr' : c'.rest = '.' :: crlf r := rest_of_beside (.inl h) hr (by decide)
  have hbump : c'.bump.rest = crlf c.bump.rest := by
    rw [rest_bump, rest_bump, hr, hr', List.tail_cons, List.tail_cons]
  obtain ⟨hname, hstop⟩ :=
    take_alike hbump (newline_notMem_take_countWhile (p := isSymbolChar) (by decide) _)
  have htake : c'.bump.takeWhile isSymbolChar =
      c'.bump.take (countWhile isSymbolChar c.bump.rest) := by
    rw [takeWhile, hbump, countWhile_crlf (by decide) (by decide)]
  unfold directive
  rw [htake]
  dsimp only [takeWhile]
  rw [hname]
  split
  · trivial
  · refine (skipSpace_alike (.inl hstop)).bind fun found found' hstart => ?_
    refine (arguments_alike hstart).bind fun read read' hd => ?_
    obtain ⟨args, d⟩ := read
    obtain ⟨args', d'⟩ := read'
    obtain ⟨rfl, hd⟩ : args' = args ∧ d'.rest = pastReturn d.rest := hd
    refine (alike_mapError _ _ _).bind fun kind kind' hkind => ?_
    subst hkind
    exact ⟨rfl, hd⟩

lemma operands_alike (start start' : Span) (args : List Char) :
    Alike Eq (operands arch start args) (operands arch start' args) := by
  refine alike_mapM (fun piece => ?_) _
  dsimp only
  split
  · trivial
  · exact alike_mapError _ _ _

lemma instruction_alike (h : c'.rest = crlf c.rest) :
    Alike SameBody (instruction arch c) (instruction arch c') := by
  refine (mnemonic_alike h).bind fun read read' ha => ?_
  obtain ⟨words, m, stop⟩ := read
  obtain ⟨words', m', stop'⟩ := read'
  obtain ⟨rfl, rfl, hstop⟩ : words' = words ∧ m' = m ∧ stop'.rest = crlf stop.rest := ha
  dsimp only
  rw [endsMnemonic_crlf hstop]
  split
  · trivial
  · refine (skipSpace_alike (.inl hstop)).bind fun found found' hstart => ?_
    refine (arguments_alike hstart).bind fun read read' hd => ?_
    obtain ⟨args, d⟩ := read
    obtain ⟨args', d'⟩ := read'
    obtain ⟨rfl, hd⟩ : args' = args ∧ d'.rest = pastReturn d.rest := hd
    refine (operands_alike _ _ _).bind fun os os' hos => ?_
    subst hos
    exact ⟨rfl, hd⟩

lemma bodyAt_alike (h : c'.rest = crlf c.rest) (hline : c.next? ≠ some '\n') :
    Alike SameBody (bodyAt arch c) (bodyAt arch c') := by
  have hnext : c'.next? = c.next? := by
    cases hr : c.rest with
    | nil => rw [next?, next?, hr, h, hr, crlf_nil]
    | cons u r =>
        have hu : u ≠ '\n' := fun hu => hline (by rw [next?_of_rest hr, hu])
        rw [next?_of_rest hr, next?_of_rest (rest_of_beside (.inl h) hr hu)]
  unfold bodyAt
  rw [hnext]
  split
  · next hpoint => exact directive_alike h hpoint
  · split
    · exact instruction_alike h
    · trivial

/-- A label is told alike. -/
lemma label?_alike {u : Char} {r : List Char} (hc : c.rest = u :: r) (h : c'.rest = crlf c.rest)
    (hu : u ≠ '\n') :
    (label? c = none ∧ label? c' = none) ∨ ∃ label stop stop', label? c = some (label, stop) ∧
      label? c' = some (label, stop') ∧ stop'.rest = crlf stop.rest := by
  have hc' : c'.rest = u :: crlf r := rest_of_beside (.inl h) hc hu
  -- the name of a label has neither a line feed nor a carriage return
  have hlength : labelLength c' = labelLength c := by
    rw [labelLength, labelLength, next?_of_rest hc, next?_of_rest hc', h,
      countWhile_crlf (by decide) (by decide), countWhile_crlf (by decide) (by decide)]
  have hline : '\n' ∉ c.rest.take (labelLength c) := by
    unfold labelLength
    rw [next?_of_rest hc]
    dsimp only
    split
    · exact newline_notMem_take_countWhile (by decide) _
    · split
      · exact newline_notMem_take_countWhile (by decide) _
      · simp
  obtain ⟨-, hskip⟩ := take_alike h hline
  -- so that the colon is met in both or in neither
  have hcolon : (c'.skip (labelLength c)).next? = some ':' ↔
      (c.skip (labelLength c)).next? = some ':' := by
    rw [next?, next?, hskip]
    cases hrest : (c.skip (labelLength c)).rest with
    | nil => rfl
    | cons v l =>
        by_cases hv : v = '\n'
        · subst hv
          simp
        · rw [crlf_cons hv]
          rfl
  unfold label?
  dsimp only
  rw [hlength, h, take_crlf hline]
  by_cases hcond : 0 < labelLength c ∧ (c.skip (labelLength c)).next? = some ':'
  · rw [if_pos hcond, if_pos (by rwa [hcolon])]
    refine .inr ⟨_, _, _, rfl, rfl, ?_⟩
    obtain ⟨l, hl⟩ := rest_of_next? hcond.2
    rw [rest_bump, rest_bump, hskip, hl]
    rfl
  · rw [if_neg hcond, if_neg (by rwa [hcolon])]
    exact .inl ⟨rfl, rfl⟩

lemma kindAt_alike (h : c'.rest = pastReturn c.rest) :
    Alike SameKind (kindAt arch c) (kindAt arch c') := by
  have hbeside : Beside c c' := beside_of_pastReturn h
  cases hr : c.rest with
  | nil =>
      have hr' := rest_eq_nil_of_beside hbeside hr
      rw [kindAt, kindAt, next?, next?, hr, hr']
      exact ⟨rfl, by rw [hr, hr', crlf_nil]⟩
  | cons u r =>
      by_cases hu : u = '\n'
      · subst hu
        rw [hr, pastReturn_newline] at h
        rw [kindAt, kindAt, next?_of_rest hr, next?_of_rest h]
        exact ⟨rfl, by rw [rest_bump, rest_bump, hr, h]; rfl⟩
      · have hr' := rest_of_beside hbeside hr hu
        -- within the line both texts go on alike
        have hcrlf : c'.rest = crlf c.rest := by rw [hr', hr, crlf_cons hu]
        rw [kindAt, kindAt, next?_of_rest hr, next?_of_rest hr']
        dsimp only
        split
        · exact ⟨rfl, by rw [rest_bump, rest_bump, hr, hr']; rfl⟩
        · rw [startsComment_crlf hr hr']
          split
          · exact ⟨rfl, rest_takeLine_bump_crlf hbeside⟩
          · rcases label?_alike hr hcrlf hu with ⟨hl, hl'⟩ | ⟨label, stop, stop', hl, hl', hstop⟩
            · rw [hl, hl']
              refine (bodyAt_alike hcrlf ?_).bind fun read read' hd => ?_
              · rw [next?_of_rest hr]
                simpa using hu
              · obtain ⟨kind, d⟩ := read
                obtain ⟨kind', d'⟩ := read'
                obtain ⟨rfl, hd⟩ : kind' = kind ∧ d'.rest = pastReturn d.rest := hd
                refine (terminator_alike (beside_of_pastReturn hd)).bind fun e e' he => ?_
                exact ⟨rfl, he⟩
            · rw [hl, hl']
              exact ⟨rfl, hstop⟩

/-- A statement, and the same with other line ends. -/
structure SameLines (s s' : Statement) : Prop where
  kind : s'.kind = s.kind
  text : s'.text.toList = crlf s.text.toList

/-- The next statement is the same, but for its line ends. -/
lemma ofCursor_alike (h : c'.rest = crlf c.rest) :
    Alike (fun a a' => SameLines a.1 a'.1 ∧ a'.2.rest = crlf a.2.rest) (ofCursor arch c)
      (ofCursor arch c') := by
  have halike : Alike (fun a a' => a'.1.kind = a.1.kind ∧ a'.2.rest = crlf a.2.rest)
      (ofCursor arch c) (ofCursor arch c') := by
    refine (skipSpace_alike (.inl h)).bind fun found found' hstart => ?_
    exact (kindAt_alike hstart).bind fun read read' hd => hd
  cases hs : ofCursor arch c with
  | error e =>
      obtain ⟨e', he'⟩ := halike.exists_error hs
      rw [he']
      trivial
  | ok next =>
      obtain ⟨next', hs', hkind, hrest⟩ := halike.exists_ok hs
      obtain ⟨s, d⟩ := next
      obtain ⟨s', d'⟩ := next'
      rw [hs']
      refine ⟨⟨hkind, ?_⟩, hrest⟩
      have hwhole := (between_of_ofCursor hs').rest
      rw [h, (between_of_ofCursor hs).rest, crlf_append, hrest] at hwhole
      exact (List.append_cancel_right hwhole).symm

/-! ### Quoted statements -/

lemma trimEnd_append_blank (l : List Char) {u : Char} (h : isBlank u = true) :
    trimEnd (l ++ [u]) = trimEnd l := by
  rw [trimEnd, trimEnd, List.reverse_append, List.reverse_singleton, List.singleton_append,
    List.dropWhile_cons_of_pos h]

lemma trimStart_crlf (l : List Char) : trimStart (crlf l) = crlf (trimStart l) := by
  unfold trimStart
  induction l with
  | nil => rfl
  | cons u l ih =>
      by_cases hu : u = '\n'
      · subst hu
        exact ih
      · rw [crlf_cons hu, List.dropWhile_cons, List.dropWhile_cons]
        split
        · exact ih
        · rw [crlf_cons hu]

lemma trimEnd_crlf (l : List Char) : trimEnd (crlf l) = crlf (trimEnd l) := by
  induction l using List.reverseRecOn with
  | nil => rfl
  | append_singleton l u ih =>
      rw [crlf_append]
      by_cases hblank : isBlank u = true
      · rw [trimEnd_append_blank l hblank, ← ih]
        by_cases hu : u = '\n'
        · subst hu
          rw [show crlf l ++ crlf ['\n'] = crlf l ++ ['\r'] ++ ['\n'] by simp,
            trimEnd_append_blank _ (by decide), trimEnd_append_blank _ (by decide)]
        · rw [crlf_cons hu, crlf_nil, trimEnd_append_blank _ hblank]
      · have hu : u ≠ '\n' := by
          rintro rfl
          exact hblank (by decide)
        have hkeep (l : List Char) : trimEnd (l ++ [u]) = l ++ [u] := by
          rw [trimEnd, List.reverse_append, List.reverse_singleton, List.singleton_append,
            List.dropWhile_cons_of_neg hblank, List.reverse_cons, List.reverse_reverse]
        rw [hkeep, crlf_append, crlf_cons hu, crlf_nil, hkeep]

/-- The lines of a text have a carriage return at their end, save the last. -/
lemma lines_crlf (l : List Char) :
    List.Forall₂ (fun line line' => line' = line ∨ line' = line ++ ['\r']) (lines l)
      (lines (crlf l)) := by
  have hcons (u : Char) (l : List Char) : lines (u :: l) =
      if u = '\n' then [] :: lines l else (lines l).modifyHead (u :: ·) := by
    rw [lines, List.splitOn, List.splitOnP_cons_eq_if_modifyHead]
    simp only [beq_iff_eq]
    rfl
  induction l with
  | nil => exact .cons (.inl rfl) .nil
  | cons u l ih =>
      by_cases hu : u = '\n'
      · subst hu
        rw [crlf_newline, hcons, hcons, hcons, if_pos rfl, if_neg (by decide), if_pos rfl]
        exact .cons (.inr rfl) ih
      · rw [crlf_cons hu, hcons, hcons, if_neg hu, if_neg hu]
        generalize lines l = a, lines (crlf l) = b at ih
        cases ih with
        | nil => exact .nil
        | cons hhead htail =>
            exact .cons (hhead.imp (congrArg (u :: ·)) (congrArg (u :: ·))) htail

/-- A statement is quoted alike: carriage returns stand at the ends of its lines. -/
lemma oneLine_crlf {s s' : Statement} (h : s'.text.toList = crlf s.text.toList) :
    s'.oneLine = s.oneLine := by
  have htrim : trim s'.text.toList = crlf (trim s.text.toList) := by
    rw [h, trim, trim, trimStart_crlf, trimEnd_crlf]
  have hline (line : List Char) : trim (line ++ ['\r']) = trim line := by
    rw [trim, trim, trimStart, trimStart, List.dropWhile_append]
    split
    · next hempty =>
        rw [List.isEmpty_iff.mp hempty]
        rfl
    · exact trimEnd_append_blank _ (by decide)
  have hlines : (lines (trim s'.text.toList)).map trim = (lines (trim s.text.toList)).map trim := by
    have hreturns := lines_crlf (trim s.text.toList)
    rw [htrim]
    generalize lines (trim s.text.toList) = a, lines (crlf (trim s.text.toList)) = b at hreturns ⊢
    induction hreturns with
    | nil => rfl
    | cons hhead _ ih =>
        rw [List.map_cons, List.map_cons, ih]
        rcases hhead with rfl | rfl
        · rfl
        · rw [hline]
  simp only [oneLine, hlines]

/-! ### Texts -/

lemma allFrom_alike {read read' : List Statement} (hread : List.Forall₂ SameLines read read')
    (h : c'.rest = crlf c.rest) :
    Alike (List.Forall₂ SameLines) (allFrom arch read c) (allFrom arch read' c') := by
  fun_induction allFrom arch read c generalizing read' c' with
  | case1 read c hc =>
      rw [allFrom_eq, if_pos (by rw [h, hc, crlf_nil])]
      exact List.forall₂_reverse_iff.mpr hread
  | case2 read c hc e hs =>
      obtain ⟨e', he'⟩ := (ofCursor_alike h).exists_error hs
      rw [allFrom_eq, if_neg (by rwa [h, crlf_eq_nil_iff]), he']
      trivial
  | case3 read c hc s stop hs ih =>
      obtain ⟨⟨s', stop'⟩, hs', hsame, hstop⟩ := (ofCursor_alike h).exists_ok hs
      rw [allFrom_eq read' c', if_neg (by rwa [h, crlf_eq_nil_iff]), hs']
      exact ih (.cons hsame hread) hstop

/-- A text with a carriage return before every line feed. -/
def withReturns (text : String) : String :=
  String.ofList (crlf text.toList)

/-- Line ends do not matter: with a carriage return before every line feed a text is read exactly
if it is read without, as many statements of the same kinds, which are quoted alike. -/
theorem parse_withReturns (arch : Arch) (text : String) :
    ((∃ statements', parse arch (withReturns text) = .ok statements') ↔
      ∃ statements, parse arch text = .ok statements) ∧
    ∀ statements statements', parse arch text = .ok statements →
      parse arch (withReturns text) = .ok statements' →
        List.Forall₂ (fun s s' => s'.kind = s.kind ∧ s'.oneLine = s.oneLine) statements
          statements' := by
  have halike : Alike (List.Forall₂ SameLines) (parse arch text)
      (parse arch (withReturns text)) := by
    have hrest (text : String) : (Cursor.ofString text : Cursor Char).rest = text.toList := rfl
    refine allFrom_alike .nil ?_
    rw [hrest, hrest, withReturns, String.toList_ofList]
  refine ⟨?_, fun statements statements' h h' => ?_⟩
  · cases h : parse arch text with
    | error e =>
        obtain ⟨e', h'⟩ := halike.exists_error h
        rw [h']
        simp
    | ok statements =>
        obtain ⟨statements', h', -⟩ := halike.exists_ok h
        rw [h']
        simp
  · rw [h, h'] at halike
    exact halike.imp fun s s' hsame => ⟨hsame.kind, oneLine_crlf hsame.text⟩

end Hermetic.Statement

/-
Operands of AArch64 are read back from how they are written, also with other symbols.

* `Arm.IsOpening`: how numbers start, and the names that take the place of others, with
  `Arm.kind_of_isOpening`: what is read as such a text;
* `Arm.display_of_kind`: an operand is written as it was read, and what is written of it is read;
* `Arm.kind_mapSymbols`, `Arm.kind_withSymbol`: a constant and a symbol with other names;
* `Arm.readsBack_withKind`: an operand with another kind is read back.
-/
import Hermetic.Proofs.Operand.RoundTrip.X86

namespace Hermetic

namespace Arm

open Statement (ReadsBack)

variable {l : List Char} {c : Char} {k : Operand.Kind} {m : MemoryRef}

/-! ### First characters of operands of AArch64 -/

/-- The characters with which a number starts, or a name that takes the place of a symbol's. -/
def IsOpening (c : Char) : Prop :=
  c.isDigit = true ∨ c ∈ ['-', '.', 'b']

/-- The characters with which modifiers, registers and the operands in brackets start, but for the
one that a name starts with as well. -/
def otherOpenings : List Char :=
  "larmuswxfqdhvzp[\x7b#:".toList

lemma IsOpening.not_mem (h : IsOpening c) : c ∉ otherOpenings := by
  have hdigits : otherOpenings.all (!·.isDigit) = true := by decide
  have hnames : ['-', '.', 'b'].all (!otherOpenings.contains ·) = true := by decide
  rcases h with hdigit | hmem
  · intro hmem
    have hnot := List.all_eq_true.mp hdigits c hmem
    rw [hdigit] at hnot
    cases hnot
  · simpa using List.all_eq_true.mp hnames c hmem

lemma IsOpening.toLower (h : IsOpening c) : c.toLower = c := by
  rcases h with hdigit | hmem
  · simp only [Char.isDigit, Bool.and_eq_true, decide_eq_true_eq] at hdigit
    unfold Char.toLower
    grind
  · have hnames : ['-', '.', 'b'].all (fun d => d.toLower == d) = true := by decide
    exact beq_iff_eq.mp (List.all_eq_true.mp hnames c hmem)

lemma IsOpening.isBlank (h : IsOpening c) : Text.isBlank c = false := by
  rcases h with hdigit | hmem
  · simpa using not_isBlank_of_isSymbolChar
      (isSymbolChar_of_isAlphanum (Offset.isAlphanum_of_isDigit hdigit))
  · have hnames : ['-', '.', 'b'].all (!Text.isBlank ·) = true := by decide
    simpa using List.all_eq_true.mp hnames c hmem

/-- The first word of a text that starts with no blank. -/
lemma exists_words_cons (h : Text.isBlank c = false) (l : List Char) :
    ∃ w ws, Text.words (c :: l) = (c :: w) :: ws := by
  obtain ⟨w, ws, hsplit⟩ := List.exists_cons_of_ne_nil (List.splitOnP_ne_nil Text.isBlank l)
  refine ⟨w, ws.filter (!·.isEmpty), ?_⟩
  rw [Text.words, List.splitOnP_cons_eq_if_modifyHead, if_neg (by simp [h]), hsplit]
  rfl

lemma contains_ofList_cons (words : List String)
    (h : words.all (fun w => otherOpenings.any (w.toList.head? == some ·)) = true)
    (hc : IsOpening c)
    (l : List Char) : words.contains (String.ofList ((c :: l).map Char.toLower)) = false := by
  rw [List.map_cons, hc.toLower]
  by_contra hcontains
  rw [Bool.not_eq_false, List.contains_iff_mem] at hcontains
  obtain ⟨d, hd, hhead⟩ := List.any_eq_true.mp (List.all_eq_true.mp h _ hcontains)
  rw [String.toList_ofList] at hhead
  obtain rfl : c = d := Option.some.inj (beq_iff_eq.mp hhead)
  exact hc.not_mem hd

lemma isModifier_of_isOpening (hc : IsOpening c) : isModifier (c :: l) = false := by
  obtain ⟨w, ws, hwords⟩ := exists_words_cons hc.isBlank l
  have hname := contains_ofList_cons modifiers (by decide +kernel) hc w
  unfold isModifier
  rw [hwords]
  split
  · next heq =>
      cases heq
      exact hname
  · next heq =>
      cases heq
      rw [hname, Bool.false_and]
  · rfl

/-- A text is no register if it starts as no register does, or with no number after its letter. -/
lemma isRegister_of_isOpening (hc : IsOpening c) (hb : c = 'b' → l.head? = some 'c') :
    isRegister (c :: l) = false := by
  have hnamed := contains_ofList_cons namedRegisters (by decide +kernel) hc l
  have hnumbered : isNumberedRegister ((c :: l).map Char.toLower) = false := by
    rw [List.map_cons, hc.toLower, isNumberedRegister]
    by_cases hletter : c = 'b'
    · subst hletter
      obtain ⟨r, rfl⟩ := List.head?_eq_some_iff.mp (hb rfl)
      rfl
    · have hother : registerLetters.contains c = false := by
        by_contra hcontains
        rw [Bool.not_eq_false, List.contains_iff_mem] at hcontains
        have hletters :
            registerLetters.all (fun d => d == 'b' || otherOpenings.contains d) = true := by
          decide
        rcases Bool.or_eq_true_iff.mp (List.all_eq_true.mp hletters c hcontains) with hb | hother
        · exact hletter (beq_iff_eq.mp hb)
        · exact hc.not_mem (List.contains_iff_mem.mp hother)
      rw [hother]
      rfl
  rw [isRegister, hnamed, hnumbered]
  rfl

/-- What a text is read as that starts as a number or a name. -/
lemma kind_of_isOpening (hc : IsOpening c) (hb : c = 'b' → l.head? = some 'c') :
    kind (c :: l) =
      if isNumericReference (c :: l) then .ok (.localLabel (String.ofList (c :: l)))
      else if c.isDigit || c == '-' then .ok (.immediate none (Expr.parse (c :: l)))
      else match symbolRef? (c :: l) with
        | some m => .ok (.memory m)
        | none => .ok (.raw (String.ofList (c :: l))) := by
  have hnot {d : Char} {r : List Char} (hd : d ∈ otherOpenings) : c :: l ≠ d :: r := by
    intro heq
    obtain rfl : c = d := (List.cons.inj heq).1
    exact hc.not_mem hd
  unfold kind
  split
  iterate 5
    next heq => exact (hnot (by decide) heq).elim
  rw [if_neg (by simp [isModifier_of_isOpening hc]),
    if_neg (by simp [isRegister_of_isOpening hc hb])]
  rfl

/-! ### Kinds of operand of AArch64 -/

/-- An operand is written as it was read, but for blanks between brackets, and is read back. -/
lemma display_of_kind (h : kind l = .ok k)
    (hlast : ∀ ch, l.getLast? = some ch → Text.isBlank ch = false) :
    Text.squeezed k.display.toList = Text.squeezed l ∧ kind k.display.toList = .ok k := by
  have hread := h
  have hsame (hdisplay : k.display.toList = l) :
      Text.squeezed k.display.toList = Text.squeezed l ∧ kind k.display.toList = .ok k := by
    rw [hdisplay]
    exact ⟨rfl, hread⟩
  -- by the forms of an operand; only an indexed one may lose blanks
  unfold kind at h
  dsimp only at h
  split at h
  · obtain ⟨x, hx, rfl⟩ := Outcome.map_eq_ok_iff.mp h
    obtain ⟨hsqueezed, hhead, hagain⟩ := indexed_display hx
    refine ⟨hsqueezed, ?_⟩
    obtain ⟨r, hr⟩ := List.head?_eq_some_iff.mp hhead
    rw [Operand.Kind.display]
    rw [hr] at hagain ⊢
    rw [kind, hagain]
    rfl
  · cases h
    exact hsame String.toList_ofList
  · next l =>
      obtain ⟨r, hr, rfl⟩ := Outcome.map_eq_ok_iff.mp h
      refine hsame (relocation_display hr fun ch hch => hlast ch ?_).2
      rw [List.getLast?_cons, hch]
      rfl
  · cases h
    exact hsame (by simp [Operand.Kind.display, Expr.display_parse])
  · obtain ⟨r, hr, rfl⟩ := Outcome.map_eq_ok_iff.mp h
    exact hsame (relocation_display hr hlast).2
  · split at h
    · cases h
      exact hsame String.toList_ofList
    · split at h
      · cases h
        exact hsame String.toList_ofList
      · split at h
        · cases h
          exact hsame String.toList_ofList
        · split at h
          · cases h
            exact hsame (by simp [Operand.Kind.display, Expr.display_parse])
          · split at h
            · next m hm =>
                cases h
                obtain ⟨name, offset, hl, -, -, -, rfl⟩ := exists_of_symbolRef? hm
                exact hsame (by simp [Operand.Kind.display, MemoryRef.display, hl])
            · cases h
              exact hsame String.toList_ofList

/-- What is known of a constant, with a sign before it or without. -/
lemma exists_of_immediate {sigil : Option Char} {value : Expr}
    (h : kind l = .ok (.immediate sigil value)) :
    (∃ v, l = '#' :: v ∧ v.head? ≠ some ':' ∧ sigil = some '#' ∧ value = Expr.parse v) ∨
      ∃ c r, l = c :: r ∧ (c.isDigit || c == '-') = true ∧ isNumericReference l = false ∧
        sigil = none ∧ value = Expr.parse l := by
  -- all other forms give something else than a constant
  unfold kind at h
  dsimp only at h
  split at h
  · obtain ⟨x, -, hx⟩ := Outcome.map_eq_ok_iff.mp h
    cases hx
  · cases h
  · obtain ⟨x, -, hx⟩ := Outcome.map_eq_ok_iff.mp h
    cases hx
  · next v hcolon =>
      cases h
      refine .inl ⟨v, rfl, fun hhead => ?_, rfl, rfl⟩
      obtain ⟨r, rfl⟩ := List.head?_eq_some_iff.mp hhead
      exact hcolon r rfl
  · obtain ⟨x, -, hx⟩ := Outcome.map_eq_ok_iff.mp h
    cases hx
  · split at h
    · cases h
    · split at h
      · cases h
      · split at h
        · cases h
        · next hnumeric =>
            split at h
            · next hfirst =>
                cases h
                cases l with
                | nil => cases hfirst
                | cons c r =>
                    exact .inr ⟨c, r, rfl, hfirst, by simpa using hnumeric, rfl, rfl⟩
            · split at h <;> cases h

/-- A number with other local names behind it starts as it did. -/
lemma exists_cons_mapSymbols (index : ℕ) (hc : (c.isDigit || c == '-') = true) (r : List Char) :
    ∃ r', ((Expr.parse (c :: r)).mapSymbols (Symbol.localized · index)).display.toList =
      c :: r' := by
  have hf (name : String) (hname : IsName name) (hpoint : name ≠ ".") :
      IsName (Symbol.localized name index) ∧ Symbol.localized name index ≠ "." :=
    ⟨Symbol.isName_localized hname index, Symbol.localized_ne_point hpoint⟩
  rw [Expr.toList_display]
  change ∃ r', Expr.textOf (Expr.mapTerms _ (Expr.termsFrom [] false (c :: r))) = c :: r'
  have hquote : c ≠ '"' := by
    rintro rfl
    exact absurd hc (by decide)
  by_cases hdigit : c.isDigit = true
  · obtain ⟨l', -, htext, -⟩ := Expr.exists_termsFrom_eq_mapTerms hf
      ((r.takeWhile isSymbolChar).reverse ++ [c]) false (r.dropWhile isSymbolChar)
    rw [Expr.termsFrom, if_neg hquote, if_pos hdigit, htext]
    simp
  · obtain rfl : c = '-' := by simpa [hdigit] using hc
    obtain ⟨l', -, htext, -⟩ := Expr.exists_termsFrom_eq_mapTerms hf ['-'] false r
    rw [Expr.termsFrom, if_neg hquote, if_neg hdigit, if_neg (by decide)]
    exact ⟨l', htext⟩

/-- A number with other local names behind it refers to no numeric label if it did not before. -/
lemma isNumericReference_mapSymbols (index : ℕ) (hc : (c.isDigit || c == '-') = true)
    {r : List Char} (h : isNumericReference (c :: r) = false) : isNumericReference
      ((Expr.parse (c :: r)).mapSymbols (Symbol.localized · index)).display.toList = false := by
  obtain ⟨r', hr'⟩ := exists_cons_mapSymbols index hc r
  have hread := Expr.parse_mapSymbols (f := (Symbol.localized · index)) (fun name hname hpoint =>
    ⟨Symbol.isName_localized hname index, Symbol.localized_ne_point hpoint⟩) (c :: r)
  rw [hr'] at hread ⊢
  by_contra hnumeric
  rw [Bool.not_eq_false] at hnumeric
  have hdigit := X86.isDigit_of_isNumericReference hnumeric
  have hchars (d : Char) (hd : d ∈ r') : isSymbolChar d = true := by
    rcases X86.forall_mem_of_isNumericReference hnumeric d (List.mem_cons_of_mem _ hd) with
      hd | hd
    · exact isSymbolChar_of_isAlphanum (Offset.isAlphanum_of_isDigit hd)
    · have hmarks : ['$', 'b', 'f'].all isSymbolChar = true := by decide
      exact List.all_eq_true.mp hmarks d hd
  have hterms := (Expr.termsFrom_digit hdigit hchars).symm.trans (congrArg Expr.terms hread)
  obtain ⟨none, hnone, hrest⟩ := Expr.exists_of_mapTerms_eq_other hterms.symm
  rw [Expr.eq_nil_of_mapTerms hrest] at hnone
  have htext : (Expr.parse (c :: r)).display.toList = c :: r' := by
    rw [Expr.toList_display, Expr.parse, hnone]
    simp [Expr.textOf, Term.text]
  rw [Expr.display_parse] at htext
  rw [htext, hnumeric] at h
  cases h

/-- A text after a number sign is read as a constant, but for a specifier. -/
lemma kind_number {v : List Char} (h : v.head? ≠ some ':') :
    kind ('#' :: v) = .ok (.immediate (some '#') (Expr.parse v)) := by
  cases v with
  | nil => rfl
  | cons d v =>
      have hd : d ≠ ':' := fun hd => h (by rw [hd]; rfl)
      unfold kind
      simp [hd]

/-- A constant with other local names is read as one. -/
lemma kind_mapSymbols {sigil : Option Char} {value : Expr}
    (h : kind l = .ok (.immediate sigil value)) (index : ℕ) :
    kind (Operand.Kind.immediate sigil
        (value.mapSymbols (Symbol.localized · index))).display.toList =
      .ok (.immediate sigil (value.mapSymbols (Symbol.localized · index))) := by
  have hf (name : String) (hname : IsName name) (hpoint : name ≠ ".") :
      IsName (Symbol.localized name index) ∧ Symbol.localized name index ≠ "." :=
    ⟨Symbol.isName_localized hname index, Symbol.localized_ne_point hpoint⟩
  rcases exists_of_immediate h with
    ⟨v, rfl, hcolon, rfl, rfl⟩ | ⟨c, r, rfl, hfirst, hnumeric, rfl, rfl⟩
  · have hdisplay : (Operand.Kind.immediate (some '#')
        ((Expr.parse v).mapSymbols (Symbol.localized · index))).display.toList =
          '#' :: ((Expr.parse v).mapSymbols (Symbol.localized · index)).display.toList := by
      simp [Operand.Kind.display]
    have hread := Expr.parse_mapSymbols hf v
    -- the renamed constant starts with no colon, since no name does
    have hcolon' : ((Expr.parse v).mapSymbols
        (Symbol.localized · index)).display.toList.head? ≠ some ':' := by
      intro hhead
      rcases Expr.head?_mapSymbols (Expr.named_parse v)
        (fun name hname => Symbol.isName_localized hname index) hhead with hhead | hsymbol
      · exact hcolon (by rwa [Expr.display_parse] at hhead)
      · exact absurd hsymbol (by decide)
    rw [hdisplay, kind_number hcolon', hread]
  · have hdisplay : (Operand.Kind.immediate none
        ((Expr.parse (c :: r)).mapSymbols (Symbol.localized · index))).display.toList =
          ((Expr.parse (c :: r)).mapSymbols (Symbol.localized · index)).display.toList := by
      simp [Operand.Kind.display]
    have hread := Expr.parse_mapSymbols hf (c :: r)
    have hnumeric' := isNumericReference_mapSymbols index hfirst hnumeric
    obtain ⟨r', hr'⟩ := exists_cons_mapSymbols index hfirst r
    -- the first character tells a constant, and is that of the text before
    have hopening : IsOpening c := by
      rcases Bool.or_eq_true_iff.mp hfirst with hdigit | hminus
      · exact .inl hdigit
      · exact .inr (by simp [beq_iff_eq.mp hminus])
    rw [hdisplay]
    rw [hr'] at hread hnumeric' ⊢
    rw [kind_of_isOpening hopening, if_neg (by simp [hnumeric']), if_pos hfirst, hread]
    rintro rfl
    exact absurd hfirst (by decide)

lemma symbolRef?_of_kind (h : kind l = .ok (.memory m)) : symbolRef? l = some m := by
  unfold kind at h
  dsimp only at h
  split at h
  · obtain ⟨x, -, hx⟩ := Outcome.map_eq_ok_iff.mp h
    cases hx
  · cases h
  · obtain ⟨x, -, hx⟩ := Outcome.map_eq_ok_iff.mp h
    cases hx
  · cases h
  · obtain ⟨x, -, hx⟩ := Outcome.map_eq_ok_iff.mp h
    cases hx
  · split at h
    · cases h
    · split at h
      · cases h
      · split at h
        · cases h
        · split at h
          · cases h
          · split at h
            · next hm =>
                cases h
                exact hm
            · cases h

/-- A symbol with offsets is read as such with another name. -/
lemma kind_withSymbol {s t : String} (h : kind l = .ok (.memory m)) (hs : m.symbol = some s)
    (ht : Symbol.Renames s t) :
    kind (Operand.Kind.memory { m with symbol := some t }).display.toList =
      .ok (.memory { m with symbol := some t }) := by
  obtain ⟨name, offset, -, hname, hoffset, hhead, rfl⟩ :=
    exists_of_symbolRef? (symbolRef?_of_kind h)
  obtain rfl : name = s := Option.some.inj hs
  have hdisplay : (Operand.Kind.memory { symbol := some t, offset }).display.toList =
      t.toList ++ offset.toList := by
    simp [Operand.Kind.display, MemoryRef.display]
  have hread := symbolRef?_append (ht.isName hname) hoffset hhead
  obtain ⟨c, r, htext, hc, hb⟩ : ∃ c r, t.toList = c :: r ∧ (c = '.' ∨ c = 'b') ∧
      (c = 'b' → r.head? = some 'c') := by
    rcases ht.toList_eq with ⟨r, hr⟩ | ⟨r, hr⟩
    · exact ⟨'.', 'L' :: r, hr, .inl rfl, fun hpoint => absurd hpoint (by decide)⟩
    · exact ⟨'b', 'c' :: r, hr, .inr rfl, fun _ => rfl⟩
  have hdigit : (c.isDigit || c == '-') = false := by
    rcases hc with rfl | rfl <;> decide
  have hnumeric : isNumericReference (c :: (r ++ offset.toList)) = false := by
    rw [isNumericReference, (Bool.or_eq_false_iff.mp hdigit).1, Bool.false_and]
  have hopening : IsOpening c := by
    rcases hc with rfl | rfl <;> exact .inr (by decide)
  have hfollows (hcb : c = 'b') : (r ++ offset.toList).head? = some 'c' := by
    rw [List.head?_append, hb hcb]
    rfl
  rw [htext, List.cons_append] at hread
  dsimp only
  rw [hdisplay, htext, List.cons_append, kind_of_isOpening hopening hfollows,
    if_neg (by simp [hnumeric]), if_neg (by simp [hdigit]), hread, String.ofList_toList]

/-! ### Operands of AArch64 -/

variable {o : Operand}

lemma operand_eq_ok_iff : operand l = .ok o ↔
    ∃ k, kind l = .ok k ∧ o = { text := String.ofList l, kind := k } := by
  have hoperand : operand l =
      (kind l).map fun k => { text := String.ofList l, kind := k } := rfl
  rw [hoperand, Outcome.map_eq_ok_iff]
  simp only [eq_comm]

/-- An operand is read back whose kind is. -/
lemma readsBack_withKind (h : operand l = .ok o) (hk : kind k.display.toList = .ok k) :
    ReadsBack .aarch64 (o.withKind k) := by
  obtain ⟨before, -, rfl⟩ := operand_eq_ok_iff.mp h
  have hdisplay : (Operand.withKind { text := String.ofList l, kind := before } k).display =
      k.display := by
    simp [Operand.withKind, Operand.display]
  refine ⟨{ text := String.ofList k.display.toList, kind := k }, ?_, rfl, rfl, rfl⟩
  rw [hdisplay]
  exact operand_eq_ok_iff.mpr ⟨k, hk, rfl⟩

end Arm

end Hermetic

/-
The terms of an expression, and what tells them apart.

* `Term.isSymbol`: the two kinds of terms, which `Expr.isChain_termsFrom` says take turns;
* `Expr.Delimited`: terms of which every symbol is a name that goes as far as it may, with
  `Expr.delimited_termsFrom`: so it is in every expression that is read;
* `Expr.mapSymbols_congr`: only what becomes of its own symbols matters for an expression;
* `Expr.parse_display_mapSymbols`: an expression is written as it was read, and with other symbols
  it is read as these.
-/
import Hermetic.Proofs.Operand.Expr
import Mathlib.Data.List.Chain

namespace Hermetic

/-- Whether a term is a symbol. -/
def Term.isSymbol : Term → Bool
  | symbol _ => true
  | other _ => false

namespace Expr

variable {pending l : List Char} {tagged : Bool} {terms : List Term}

/-! ### Kinds of terms -/

/-- Text that belongs to no symbol is the first term. -/
lemma exists_flush (h : pending ≠ []) (terms : List Term) :
    ∃ text, flush pending terms = .other text :: terms := by
  rw [flush, if_neg (by simpa using h)]
  exact ⟨_, rfl⟩

/-- What is read after text that belongs to no symbol starts with that text. -/
lemma exists_termsFrom_of_pending (h : pending ≠ []) (tagged : Bool) (l : List Char) :
    ∃ text terms, termsFrom pending tagged l = .other text :: terms := by
  fun_induction termsFrom pending tagged l with
  | case1 pending =>
      obtain ⟨text, htext⟩ := exists_flush h []
      exact ⟨text, [], htext⟩
  | case5 pending tagged c l _ _ _ tail _ =>
      obtain ⟨text, htext⟩ := exists_flush h
        (.symbol (String.ofList (c :: tail)) :: termsFrom [] false (l.dropWhile isSymbolChar))
      exact ⟨text, _, htext⟩
  | case2 | case3 | case4 | case6 =>
      rename_i ih
      exact ih (by simp)

/-- What follows a word starts with no character of one. -/
lemma not_isSymbolChar_of_head?_dropWhile (l : List Char) {ch : Char}
    (h : (l.dropWhile isSymbolChar).head? = some ch) : isSymbolChar ch = false := by
  have hnot := List.head?_dropWhile_not isSymbolChar l
  rwa [h] at hnot

/-- Where no symbol goes on, no symbol comes next. -/
lemma isSymbol_head?_termsFrom (hl : ∀ ch, l.head? = some ch → isSymbolChar ch = false) :
    ∀ t ∈ (termsFrom [] tagged l).head?, t.isSymbol = false := by
  -- what is kept back comes first, and is no symbol
  have hother {pending : List Char} (hne : pending ≠ []) (tagged : Bool) (l : List Char) :
      ∀ t ∈ (termsFrom pending tagged l).head?, t.isSymbol = false := by
    obtain ⟨text, terms, hterms⟩ := exists_termsFrom_of_pending hne tagged l
    rw [hterms]
    rintro t ht
    cases ht
    rfl
  cases l with
  | nil =>
      intro t ht
      rw [termsFrom] at ht
      cases ht
  | cons c l =>
      have hc := hl c rfl
      have hdigit : ¬ c.isDigit = true := fun hdigit => by
        simp [isSymbolChar, Char.isAlphanum, hdigit] at hc
      have hstart : ¬ isSymbolStart c = true := fun hstart => by
        rw [isSymbolChar_of_isSymbolStart hstart] at hc
        cases hc
      rw [termsFrom, if_neg hdigit, if_neg hstart]
      split
      · exact hother (by simp) _ _
      · exact hother (by simp) _ _

/-- Symbols and other terms take turns. -/
lemma isChain_termsFrom (pending : List Char) (tagged : Bool) (l : List Char) :
    (termsFrom pending tagged l).IsChain fun s t => s.isSymbol ≠ t.isSymbol := by
  -- only a symbol starts a new term, and what is kept back is flushed before it
  fun_induction termsFrom pending tagged l with
  | case1 pending =>
      rw [flush]
      split
      · exact .nil
      · exact .singleton _
  | case5 pending tagged c l _ _ _ tail _ ih =>
      have hnext : ∀ t ∈ (termsFrom [] false (l.dropWhile isSymbolChar)).head?,
          t.isSymbol = false :=
        isSymbol_head?_termsFrom fun _ => not_isSymbolChar_of_head?_dropWhile l
      have hsymbol : (Term.symbol (String.ofList (c :: tail)) ::
          termsFrom [] false (l.dropWhile isSymbolChar)).IsChain
            fun s t => s.isSymbol ≠ t.isSymbol := by
        refine List.isChain_cons.mpr ⟨fun t ht => ?_, ih⟩
        rw [hnext t ht]
        exact Bool.false_ne_true.symm
      rw [flush]
      split
      · exact hsymbol
      · exact List.isChain_cons_cons.mpr ⟨Bool.false_ne_true, hsymbol⟩
  | case2 | case3 | case4 | case6 =>
      rename_i ih
      exact ih

/-! ### Symbols -/

/-- Every symbol among some terms is a name other than a point, and goes as far as it may. -/
def Delimited (terms : List Term) : Prop :=
  ∀ before name after, terms = before ++ .symbol name :: after →
    IsName name ∧ name ≠ "." ∧ ∀ ch, (textOf after).head? = some ch → isSymbolChar ch = false

lemma delimited_nil : Delimited [] := by
  intro before name after h
  cases before <;> cases h

lemma Delimited.other (h : Delimited terms) (text : String) : Delimited (.other text :: terms) := by
  intro before name after hterms
  cases before with
  | nil => cases hterms
  | cons t before => exact h before name after (List.cons.inj hterms).2

lemma Delimited.flush (h : Delimited terms) (pending : List Char) :
    Delimited (flush pending terms) := by
  unfold Expr.flush
  split
  · exact h
  · exact h.other _

lemma Delimited.symbol {name : String} (h : Delimited terms) (hname : IsName name)
    (hpoint : name ≠ ".") (hstop : ∀ ch, (textOf terms).head? = some ch → isSymbolChar ch = false) :
    Delimited (.symbol name :: terms) := by
  intro before name' after hterms
  cases before with
  | nil =>
      cases hterms
      exact ⟨hname, hpoint, hstop⟩
  | cons t before => exact h before name' after (List.cons.inj hterms).2

lemma delimited_termsFrom (pending : List Char) (tagged : Bool) (l : List Char) :
    Delimited (termsFrom pending tagged l) := by
  fun_induction termsFrom pending tagged l with
  | case1 pending => exact delimited_nil.flush pending
  | case5 pending tagged c l _ _ hstart tail hother ih =>
      refine (ih.symbol (isName_cons_takeWhile hstart l) (ne_point_of_not_other hother)
        fun ch hch => ?_).flush pending
      rw [(termsFrom_spec _ _ _).1, List.reverse_nil, List.nil_append] at hch
      exact not_isSymbolChar_of_head?_dropWhile l hch
  | case2 | case3 | case4 | case6 =>
      rename_i ih
      exact ih

/-! ### Expressions -/

/-- Only what becomes of its own symbols matters for an expression. -/
lemma mapSymbols_congr {f g : String → String} {e : Expr}
    (h : ∀ name ∈ e.symbols, f name = g name) : e.mapSymbols f = e.mapSymbols g := by
  rw [mapSymbols, mapSymbols, Expr.mk.injEq]
  refine List.map_congr_left fun t ht => ?_
  cases t with
  | other => rfl
  | symbol name =>
      have hname : name ∈ e.symbols := List.mem_filterMap.mpr ⟨_, ht, rfl⟩
      exact congrArg Term.symbol (h name hname)

/-- Every expression is written as it was read: its symbols and what stands between them take
turns, and every symbol is a name other than a point that goes as far as it may.  If other such
names take the place of its symbols, it is read as the expression with these. -/
theorem parse_display_mapSymbols (l : List Char) :
    (parse l).display.toList = l ∧
      ((parse l).terms.IsChain fun s t => s.isSymbol ≠ t.isSymbol) ∧ Delimited (parse l).terms ∧
        ∀ f : String → String, (∀ name ∈ (parse l).symbols, IsName (f name) ∧ f name ≠ ".") →
          parse ((parse l).mapSymbols f).display.toList = (parse l).mapSymbols f := by
  refine ⟨display_parse l, isChain_termsFrom [] false l, delimited_termsFrom [] false l,
    fun f hf => ?_⟩
  -- elsewhere the function may do what it likes
  have hcongr : (parse l).mapSymbols f =
      (parse l).mapSymbols fun name => if name ∈ (parse l).symbols then f name else name :=
    mapSymbols_congr fun name hname => (if_pos hname).symm
  rw [hcongr]
  refine parse_mapSymbols (fun name hname hpoint => ?_) l
  split
  · next hmem => exact hf name hmem
  · exact ⟨hname, hpoint⟩

/-- A difference of two symbols, of which one has a specifier, after a string and a number. -/
theorem parse_display_mapSymbols_difference :
    let l := "\"é\\\"\"1f+foo@PLT-.Lbar".toList
    (∀ name ∈ (parse l).symbols, IsName (name ++ "_BCM_1") ∧ name ++ "_BCM_1" ≠ ".") ∧
      parse ((parse l).mapSymbols (· ++ "_BCM_1")).display.toList =
        (parse l).mapSymbols (· ++ "_BCM_1") := by
  intro l
  have h : ∀ name ∈ (parse l).symbols, IsName (name ++ "_BCM_1") ∧ name ++ "_BCM_1" ≠ "." := by
    have hsymbols : (parse l).symbols = ["foo", ".Lbar"] := by decide +kernel
    rw [hsymbols]
    unfold IsName
    decide +kernel
  exact ⟨h, (parse_display_mapSymbols l).2.2.2 _ h⟩

end Expr

end Hermetic

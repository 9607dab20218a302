/-
Expressions with other symbols.

* `Expr.display_parse`, `Expr.named_parse`: an expression is written as it was read, and its
  symbols are names;
* `Scan.run_name`: a scan reads every name alike;
* `Expr.run_mapSymbols`: so it does not see whether the symbols of an expression are exchanged,
  and `Expr.getLast?_mapSymbols`: the end of the expression hardly changes either;
* `Expr.parse_mapSymbols`: an expression with other symbols is read as such.
-/
import Hermetic.Proofs.Symbol.Names
import Hermetic.Proofs.Text.Scan
import Mathlib.Data.List.Induction

namespace Hermetic

/-! ### Names under a scan -/

namespace Scan

variable {arch : Arch} {commas : Bool} {s : State}

/-- The state after a name. -/
def State.named (s : State) : State :=
  ⟨s.opened, match s.mode with
    | .plain | .slash => .plain
    | .quoted | .escaped => .quoted⟩

lemma step_symbolChar {ch : Char} (hch : isSymbolChar ch = true) :
    step arch commas s ch = some s.named := by
  have hinert := inert_of_isSymbolChar hch
  obtain ⟨opened, mode⟩ := s
  cases mode with
  | plain | slash => exact step_inert (by simp [State.Outside]) hinert
  | quoted | escaped =>
      have hnot : ch ≠ '\n' ∧ ch ≠ '"' ∧ ch ≠ '\\' := by
        refine ⟨?_, ?_, ?_⟩ <;> rintro rfl <;> exact absurd hch (by decide)
      simp [step, State.named, hnot]

lemma named_named (s : State) : s.named.named = s.named := by
  obtain ⟨opened, mode⟩ := s
  cases mode <;> rfl

/-- A scan reads every name alike. -/
lemma run_symbolChars {l : List Char} (hl : ∀ ch ∈ l, isSymbolChar ch = true) (hne : l ≠ []) :
    run arch commas s l = some s.named := by
  induction l generalizing s with
  | nil => exact (hne rfl).elim
  | cons ch l ih =>
      rw [run_cons, step_symbolChar (hl ch List.mem_cons_self), Option.bind_some]
      by_cases hnil : l = []
      · rw [hnil, run_nil]
      · rw [ih (fun d hd => hl d (List.mem_cons_of_mem _ hd)) hnil, named_named]

lemma run_name {name : String} (h : IsName name) :
    run arch commas s name.toList = some s.named := by
  obtain ⟨ch, l, hname, -, hchars⟩ := exists_cons_of_isSymbolName h
  exact run_symbolChars hchars (by rw [hname]; simp)

end Scan

/-! ### Expressions -/

namespace Expr

/-- Every symbol among some terms is a name. -/
def Named (terms : List Term) : Prop :=
  ∀ name, .symbol name ∈ terms → IsName name

/-- The text of some terms. -/
def textOf (terms : List Term) : List Char :=
  terms.flatMap fun t => t.text.toList

lemma toList_display (e : Expr) : e.display.toList = textOf e.terms := by
  rw [display, String.toList_join, List.flatMap_map]
  rfl

lemma flush_spec (pending : List Char) (terms : List Term) (h : Named terms) :
    textOf (flush pending terms) = pending.reverse ++ textOf terms ∧
      Named (flush pending terms) := by
  unfold flush
  split
  · next hempty =>
      rw [List.isEmpty_iff.mp hempty]
      exact ⟨rfl, h⟩
  · refine ⟨by simp [textOf, Term.text], fun name hname => ?_⟩
    rcases List.mem_cons.mp hname with hother | hname
    · cases hother
    · exact h name hname

/-- The point alone belongs to no symbol. -/
lemma ne_point_of_not_other {c : Char} {tail : List Char} {tagged : Bool}
    (h : ¬ (tagged || (c == '.' && tail.isEmpty)) = true) : String.ofList (c :: tail) ≠ "." := by
  intro heq
  have hlist : c :: tail = ['.'] := by
    rw [← String.toList_ofList (l := c :: tail), heq]
    rfl
  obtain ⟨rfl, rfl⟩ := List.cons.inj hlist
  simp at h

lemma termsFrom_spec (pending : List Char) (tagged : Bool) (l : List Char) :
    textOf (termsFrom pending tagged l) = pending.reverse ++ l ∧
      Named (termsFrom pending tagged l) := by
  -- along the reading: what is kept back is the end of the text so far
  fun_induction termsFrom pending tagged l with
  | case1 pending tagged =>
      obtain ⟨htext, hnamed⟩ := flush_spec pending [] nofun
      exact ⟨by rw [htext]; rfl, hnamed⟩
  | case2 pending tagged l n ih =>
      refine ⟨?_, ih.2⟩
      rw [ih.1, List.reverse_append, List.reverse_reverse, List.reverse_cons]
      simp [List.take_append_drop]
  | case3 pending tagged c l _ _ ih =>
      refine ⟨?_, ih.2⟩
      rw [ih.1, List.reverse_append, List.reverse_reverse, List.reverse_cons]
      simp [List.takeWhile_append_dropWhile]
  | case4 pending tagged c l _ _ _ tail _ ih =>
      refine ⟨?_, ih.2⟩
      rw [ih.1, List.reverse_append, List.reverse_reverse, List.reverse_cons]
      simp [tail, List.takeWhile_append_dropWhile]
  | case5 pending tagged c l _ _ hstart tail _ ih =>
      have hname : IsName (String.ofList (c :: tail)) := isName_cons_takeWhile hstart l
      -- the one term that is a symbol has the name that was read
      have hnamed : Named (.symbol (String.ofList (c :: tail)) ::
          termsFrom [] false (l.dropWhile isSymbolChar)) := by
        intro name hmem
        rcases List.mem_cons.mp hmem with hfirst | hmem
        · cases hfirst
          exact hname
        · exact ih.2 name hmem
      obtain ⟨htext, hall⟩ := flush_spec pending _ hnamed
      refine ⟨?_, hall⟩
      rw [htext, textOf, List.flatMap_cons, ← textOf, ih.1]
      simp [Term.text, tail, List.takeWhile_append_dropWhile]
  | case6 pending tagged c l _ _ _ ih =>
      refine ⟨?_, ih.2⟩
      rw [ih.1, List.reverse_cons]
      simp

/-- An expression is written as it was read. -/
lemma display_parse (l : List Char) : (parse l).display.toList = l := by
  rw [toList_display]
  exact (termsFrom_spec [] false l).1

/-- The symbols of an expression that is read are names. -/
lemma named_parse (l : List Char) : Named (parse l).terms :=
  (termsFrom_spec [] false l).2

/-- A scan does not see whether the symbols of an expression are exchanged for other names. -/
lemma run_mapSymbols {arch : Arch} {commas : Bool} {f : String → String} {e : Expr}
    (h : Named e.terms)
    (hf : ∀ name, IsName name → IsName (f name)) (s : Scan.State) :
    Scan.run arch commas s (e.mapSymbols f).display.toList =
      Scan.run arch commas s e.display.toList := by
  rw [toList_display, toList_display, mapSymbols]
  obtain ⟨terms⟩ := e
  dsimp only at h ⊢
  induction terms generalizing s with
  | nil => rfl
  | cons t terms ih =>
      have hrest : Named terms := fun name hname => h name (List.mem_cons_of_mem _ hname)
      rw [List.map_cons, textOf, textOf, List.flatMap_cons, List.flatMap_cons, ← textOf, ← textOf,
        Scan.run_append, Scan.run_append]
      cases t with
      | symbol name =>
          have hname := h name List.mem_cons_self
          simp only [Term.text]
          rw [Scan.run_name hname, Scan.run_name (hf name hname), Option.bind_some,
            Option.bind_some, ih _ hrest]
      | other text =>
          simp only [Term.text]
          exact congrArg _ (funext fun s' => ih s' hrest)

/-- What is read as an expression closes what it opens with other symbols, too. -/
lemma whole_mapSymbols {arch : Arch} {commas : Bool} {f : String → String} {l : List Char}
    (h : Scan.Whole arch commas l) (hf : ∀ name, IsName name → IsName (f name)) :
    Scan.Whole arch commas ((parse l).mapSymbols f).display.toList := by
  rw [Scan.Whole, run_mapSymbols (named_parse l) hf, display_parse]
  exact h

/-- With other symbols, an expression ends in the same character or in one of a name. -/
lemma getLast?_mapSymbols {f : String → String} {e : Expr}
    (h : Named e.terms)
    (hf : ∀ name, IsName name → IsName (f name)) {ch : Char}
    (hch : (e.mapSymbols f).display.toList.getLast? = some ch) :
    e.display.toList.getLast? = some ch ∨ isSymbolChar ch = true := by
  rw [toList_display] at hch ⊢
  rw [mapSymbols] at hch
  obtain ⟨terms⟩ := e
  dsimp only at h hch ⊢
  -- from the last term; a term without text leaves it to the one before
  induction terms using List.reverseRecOn with
  | nil => cases hch
  | append_singleton terms t ih =>
      have hrest : Named terms := fun name hname => h name (List.mem_append_left _ hname)
      simp only [List.map_append, List.map_singleton, textOf, List.flatMap_append,
        List.flatMap_singleton] at hch ⊢
      cases t with
      | symbol name =>
          have hname := hf name (h name (by simp))
          obtain ⟨d, r, hd, -, hchars⟩ := exists_cons_of_isSymbolName hname
          have hne : (f name).toList ≠ [] := by
            rw [hd]
            simp
          rw [Term.text, List.getLast?_append, List.getLast?_eq_some_getLast hne,
            Option.some_or] at hch
          cases hch
          exact .inr (hchars _ (List.getLast_mem hne))
      | other text =>
          simp only [Term.text] at hch ⊢
          rw [List.getLast?_append] at hch ⊢
          cases hlast : text.toList.getLast? with
          | some d =>
              rw [hlast] at hch
              exact .inl hch
          | none =>
              rw [hlast] at hch
              exact ih hrest hch

/-- With other symbols, an expression starts with the same character or with one of a name. -/
lemma head?_mapSymbols {f : String → String} {e : Expr} (h : Named e.terms)
    (hf : ∀ name, IsName name → IsName (f name)) {ch : Char}
    (hch : (e.mapSymbols f).display.toList.head? = some ch) :
    e.display.toList.head? = some ch ∨ isSymbolChar ch = true := by
  rw [toList_display] at hch ⊢
  rw [mapSymbols] at hch
  obtain ⟨terms⟩ := e
  dsimp only at h hch ⊢
  -- from the first term; a term without text leaves it to the next
  induction terms with
  | nil => cases hch
  | cons t terms ih =>
      have hrest : Named terms := fun name hname => h name (List.mem_cons_of_mem _ hname)
      rw [List.map_cons, textOf, List.flatMap_cons, ← textOf, List.head?_append] at hch
      rw [textOf, List.flatMap_cons, ← textOf, List.head?_append]
      cases t with
      | symbol name =>
          obtain ⟨d, r, hd, -, hchars⟩ :=
            exists_cons_of_isSymbolName (hf name (h name List.mem_cons_self))
          rw [Term.text, hd] at hch
          cases hch
          exact .inr (hchars _ (by rw [hd]; exact List.mem_cons_self))
      | other text =>
          simp only [Term.text] at hch ⊢
          cases hhead : text.toList.head? with
          | some d =>
              rw [hhead] at hch
              exact .inl hch
          | none =>
              rw [hhead] at hch
              exact ih hrest hch

/-! ### Other symbols are read -/

lemma stringLength_append {l r : List Char} (hr : l.drop (stringLength l) = [] → r = []) :
    stringLength (l.take (stringLength l) ++ r) = stringLength l := by
  fun_induction stringLength l with
  | case1 =>
      rw [hr rfl]
      rfl
  | case2 => rfl
  | case3 c l ih =>
      have hrest : l.drop (stringLength l) = [] → r = [] := fun h => hr (by
        rw [Nat.add_comm]
        exact h)
      rw [Nat.add_comm 2, List.take_succ_cons, List.take_succ_cons, List.cons_append,
        List.cons_append, stringLength, ih hrest, Nat.add_comm]
  | case4 c l hquote hescape ih =>
      have hrest : l.drop (stringLength l) = [] → r = [] := fun h => hr (by
        rw [Nat.add_comm]
        exact h)
      rw [Nat.add_comm 1, List.take_succ_cons, List.cons_append, stringLength, ih hrest,
        Nat.add_comm]
      · exact hquote
      · intro d m hc hm
        -- a backslash at the end of the text takes nothing with it
        cases l with
        | nil =>
            rw [hrest rfl] at hm
            cases hm
        | cons d' l => exact hescape d' l hc rfl

/-- Terms with other symbols. -/
def mapTerms (f : String → String) (terms : List Term) : List Term :=
  (mapSymbols f ⟨terms⟩).terms

lemma mapTerms_flush (f : String → String) (pending : List Char) (terms : List Term) :
    mapTerms f (flush pending terms) = flush pending (mapTerms f terms) := by
  unfold flush
  split <;> rfl

lemma textOf_flush (pending : List Char) (terms : List Term) :
    textOf (flush pending terms) = pending.reverse ++ textOf terms := by
  unfold flush
  split
  · next hempty => rw [List.isEmpty_iff.mp hempty, List.reverse_nil, List.nil_append]
  · simp [textOf, Term.text]

/-- A text that takes the place of another, which starts with a character of a name if it does. -/
structure Replaces (l' l : List Char) : Prop where
  nil : l = [] → l' = []
  head : ∀ ch, l'.head? = some ch → isSymbolChar ch = true →
    ∃ d, l.head? = some d ∧ isSymbolChar d = true

lemma Replaces.empty : Replaces [] [] where
  nil _ := rfl
  head _ h := by cases h

lemma Replaces.cons {ch : Char} {l' l : List Char} : Replaces (ch :: l') (ch :: l) where
  nil := nofun
  head d hd hsymbol := ⟨d, hd, hsymbol⟩

/-- What takes the place of the text after a name starts with no character of one. -/
lemma Replaces.takeWhile_append {l' l a : List Char}
    (h : Replaces l' (l.dropWhile isSymbolChar)) (ha : ∀ ch ∈ a, isSymbolChar ch = true) :
    (a ++ l').takeWhile isSymbolChar = a ∧ (a ++ l').dropWhile isSymbolChar = l' := by
  have hhead (ch : Char) (hch : l'.head? = some ch) : isSymbolChar ch = false := by
    cases hsymbol : isSymbolChar ch with
    | false => rfl
    | true =>
        obtain ⟨d, hd, hd'⟩ := h.head ch hch hsymbol
        have hnot := List.head?_dropWhile_not isSymbolChar l
        rw [hd] at hnot
        simp [hd'] at hnot
  exact ⟨takeWhile_append_of_stop ha hhead, dropWhile_append_of_stop ha hhead⟩

/-- The text of some terms with other symbols is read as these terms. -/
lemma exists_termsFrom_eq_mapTerms {f : String → String}
    (hf : ∀ name, IsName name → name ≠ "." → IsName (f name) ∧ f name ≠ ".")
    (pending : List Char) (tagged : Bool) (l : List Char) :
    ∃ l', Replaces l' l ∧
      textOf (mapTerms f (termsFrom pending tagged l)) = pending.reverse ++ l' ∧
      termsFrom pending tagged l' = mapTerms f (termsFrom pending tagged l) := by
  -- along the reading of the given text; what takes the place of the rest of it starts alike
  fun_induction termsFrom pending tagged l with
  | case1 pending tagged =>
      refine ⟨[], .empty, ?_, ?_⟩
      · rw [mapTerms_flush, textOf_flush]
        rfl
      · rw [mapTerms_flush, termsFrom]
        rfl
  | case2 pending tagged l n ih =>
      obtain ⟨l', hl', htext, hread⟩ := ih
      -- a string is kept, and ends where it ended, also if that is at the end of the text
      have hlength : stringLength (l.take n ++ l') = n := stringLength_append hl'.nil
      refine ⟨'"' :: (l.take n ++ l'), .cons, by rw [htext]; simp, ?_⟩
      rw [termsFrom, if_pos rfl, ← hread]
      dsimp only
      rw [hlength]
      by_cases hn : n ≤ l.length
      · have htake : (l.take n).length = n := List.length_take_of_le hn
        rw [List.take_append_of_le_length htake.ge, List.take_of_length_le htake.le,
          List.drop_append_of_le_length htake.ge, List.drop_of_length_le htake.le, List.nil_append]
      · have hdrop : l.drop n = [] := List.drop_of_length_le (by omega)
        obtain rfl := hl'.nil hdrop
        rw [List.append_nil, List.take_take, Nat.min_self,
          List.drop_of_length_le (by rw [List.length_take]; omega)]
  | case3 pending tagged c l hquote hdigit ih =>
      obtain ⟨l', hl', htext, hread⟩ := ih
      have hdigits (ch : Char) (hch : ch ∈ l.takeWhile isSymbolChar) : isSymbolChar ch = true :=
        List.mem_takeWhile_imp hch
      obtain ⟨htake, hdrop⟩ := hl'.takeWhile_append hdigits
      refine ⟨c :: (l.takeWhile isSymbolChar ++ l'), .cons, by rw [htext]; simp, ?_⟩
      rw [termsFrom, if_neg hquote, if_pos hdigit, htake, hdrop, hread]
  | case4 pending tagged c l hquote hdigit hstart tail hother ih =>
      obtain ⟨l', hl', htext, hread⟩ := ih
      obtain ⟨htake, hdrop⟩ :=
        hl'.takeWhile_append (a := tail) fun ch hch => List.mem_takeWhile_imp hch
      refine ⟨c :: (tail ++ l'), .cons, by rw [htext]; simp, ?_⟩
      rw [termsFrom, if_neg hquote, if_neg hdigit, if_pos hstart, htake, hdrop, if_pos hother,
        hread]
  | case5 pending tagged c l hquote hdigit hstart tail hother ih =>
      obtain ⟨l', hl', htext, hread⟩ := ih
      -- a symbol: the new name is read up to where the old one ends, and is no point
      have hname : IsName (String.ofList (c :: tail)) := isName_cons_takeWhile hstart l
      have hpoint : String.ofList (c :: tail) ≠ "." := ne_point_of_not_other hother
      obtain ⟨hnew, hnewPoint⟩ := hf _ hname hpoint
      obtain ⟨d, r, hd, hdstart, hchars⟩ := exists_cons_of_isSymbolName hnew
      obtain ⟨htake, hdrop⟩ := hl'.takeWhile_append (a := r) fun ch hch =>
        hchars ch (by rw [hd]; exact List.mem_cons_of_mem _ hch)
      have hmap : mapTerms f (flush pending (.symbol (String.ofList (c :: tail)) ::
          termsFrom [] false (l.dropWhile isSymbolChar))) =
            flush pending (.symbol (f (String.ofList (c :: tail))) ::
              mapTerms f (termsFrom [] false (l.dropWhile isSymbolChar))) := mapTerms_flush ..
      have hdquote : ¬ d = '"' := by
        rintro rfl
        exact absurd hdstart (by decide)
      have hddigit : ¬ d.isDigit = true := not_isDigit_of_isSymbolStart hdstart
      have hdother : ¬ (tagged || (d == '.' && r.isEmpty)) = true := by
        simp only [Bool.or_eq_true, Bool.and_eq_true, beq_iff_eq, not_or] at hother ⊢
        refine ⟨hother.1, fun hempty => hnewPoint ?_⟩
        rw [← String.toList_inj, hd, hempty.1, List.isEmpty_iff.mp hempty.2]
        rfl
      refine ⟨d :: (r ++ l'), ⟨fun h => (List.cons_ne_nil _ _ h).elim, fun _ _ _ =>
        ⟨c, rfl, isSymbolChar_of_isSymbolStart hstart⟩⟩, ?_, ?_⟩
      · rw [hmap, textOf_flush, textOf, List.flatMap_cons, ← textOf, htext, Term.text, hd]
        rfl
      · rw [hmap, termsFrom, if_neg hdquote, if_neg hddigit, if_pos hdstart, htake, hdrop,
          if_neg hdother, hread, ← hd, String.ofList_toList]
  | case6 pending tagged c l hquote hdigit hstart ih =>
      obtain ⟨l', hl', htext, hread⟩ := ih
      refine ⟨c :: l', .cons, by rw [htext]; simp, ?_⟩
      rw [termsFrom, if_neg hquote, if_neg hdigit, if_neg hstart, hread]

/-- An expression with other symbols is read as such. -/
lemma parse_mapSymbols {f : String → String}
    (hf : ∀ name, IsName name → name ≠ "." → IsName (f name) ∧ f name ≠ ".") (l : List Char) :
    parse ((parse l).mapSymbols f).display.toList = (parse l).mapSymbols f := by
  obtain ⟨l', -, htext, hread⟩ := exists_termsFrom_eq_mapTerms hf [] false l
  have hdisplay : ((parse l).mapSymbols f).display.toList = l' := by
    rw [toList_display]
    exact htext
  rw [hdisplay, parse, hread]
  rfl

/-- With other symbols, an expression holds the characters it held, and those of names. -/
lemma mem_mapSymbols {f : String → String} {e : Expr} (h : Named e.terms)
    (hf : ∀ name, IsName name → IsName (f name)) {ch : Char}
    (hch : ch ∈ (e.mapSymbols f).display.toList) :
    ch ∈ e.display.toList ∨ isSymbolChar ch = true := by
  rw [toList_display, textOf, mapSymbols, List.flatMap_map, List.mem_flatMap] at hch
  obtain ⟨term, hterm, hch⟩ := hch
  cases term with
  | symbol name =>
      obtain ⟨-, -, -, -, hchars⟩ := exists_cons_of_isSymbolName (hf name (h name hterm))
      exact .inr (hchars ch hch)
  | other text =>
      rw [toList_display, textOf, List.mem_flatMap]
      exact .inl ⟨.other text, hterm, hch⟩

/-! ### Texts of a few terms -/

lemma termsFrom_name_append {name : String} {r : List Char} (pending : List Char) (h : IsName name)
    (hne : name ≠ ".") (hr : ∀ ch, r.head? = some ch → isSymbolChar ch = false) :
    termsFrom pending false (name.toList ++ r) =
      flush pending (.symbol name :: termsFrom [] false r) := by
  obtain ⟨ch, l, hname, hstart, hchars⟩ := exists_cons_of_isSymbolName h
  have htail (d : Char) (hd : d ∈ l) : isSymbolChar d = true :=
    hchars d (by rw [hname]; exact List.mem_cons_of_mem _ hd)
  have hquote : ¬ ch = '"' := by
    rintro rfl
    exact absurd hstart (by decide)
  have hpoint : ¬ (false || (ch == '.' && l.isEmpty)) = true := by
    simp only [Bool.false_or, Bool.and_eq_true, beq_iff_eq]
    rintro ⟨rfl, hempty⟩
    rw [List.isEmpty_iff.mp hempty] at hname
    exact hne (String.toList_inj.mp hname)
  rw [hname, List.cons_append, termsFrom, if_neg hquote,
    if_neg (not_isDigit_of_isSymbolStart hstart), if_pos hstart,
    takeWhile_append_of_stop htail hr, dropWhile_append_of_stop htail hr, if_neg hpoint, ← hname,
    String.ofList_toList]

/-- No symbol is read in a number. -/
lemma termsFrom_digit {ch : Char} {l : List Char} (hch : ch.isDigit = true)
    (hl : ∀ d ∈ l, isSymbolChar d = true) :
    termsFrom [] false (ch :: l) = [.other (String.ofList (ch :: l))] := by
  have hquote : ¬ ch = '"' := by
    rintro rfl
    exact absurd hch (by decide)
  rw [termsFrom, if_neg hquote, if_pos hch, List.takeWhile_eq_self_iff.mpr hl,
    List.dropWhile_eq_nil_iff.mpr hl, termsFrom, flush, if_neg (by simp)]
  simp

/-- The first term that is exchanged, if it is a symbol. -/
lemma exists_of_mapTerms_eq_symbol {f : String → String} {terms rest : List Term} {name : String}
    (h : mapTerms f terms = .symbol name :: rest) :
    ∃ before terms', terms = .symbol before :: terms' ∧ f before = name ∧
      mapTerms f terms' = rest := by
  obtain ⟨term, terms', rfl, hterm, hrest⟩ := List.map_eq_cons_iff.mp h
  cases term with
  | symbol before =>
      cases hterm
      exact ⟨before, terms', rfl, rfl, hrest⟩
  | other => cases hterm

/-- The first term that is exchanged, if it is no symbol. -/
lemma exists_of_mapTerms_eq_other {f : String → String} {terms rest : List Term} {text : String}
    (h : mapTerms f terms = .other text :: rest) :
    ∃ terms', terms = .other text :: terms' ∧ mapTerms f terms' = rest := by
  obtain ⟨term, terms', rfl, hterm, hrest⟩ := List.map_eq_cons_iff.mp h
  cases term with
  | symbol => cases hterm
  | other =>
      cases hterm
      exact ⟨terms', rfl, hrest⟩

lemma eq_nil_of_mapTerms {f : String → String} {terms : List Term} (h : mapTerms f terms = []) :
    terms = [] :=
  List.map_eq_nil_iff.mp h

end Expr

end Hermetic

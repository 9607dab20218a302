/-
Operands of x86-64 are read back from how they are written, also with other symbols.

* `Statement.ReadsBack`: operands that are read back from how they are written;
* `X86.undecorated_append`: decorations are taken off again where they were taken off;
* `X86.display_of_kind`, `X86.operand_of_kind`: an operand is written as it was read, and what is
  written of it is read;
* `X86.RefersToTable`: the constants that are no expressions, with
  `X86.RefersToTable.of_mapSymbols`: no other names make a constant one of them;
* `X86.parts_of_operand`, `X86.readsBack_withMemory`, `X86.readsBack_withImmediate`: an operand, and
  one with another symbol, is read back.
-/
import Hermetic.Statement.Parser
import Hermetic.Proofs.Operand.Indexed
import Hermetic.Proofs.Operand.Written

namespace Hermetic

/-- Whether an operand is read back from how it is written, but for its text. -/
def Statement.ReadsBack (arch : Arch) (o : Operand) : Prop :=
  ∃ o', Statement.operand arch o.display.toList = .ok o' ∧ o'.kind = o.kind ∧
    o'.indirect = o.indirect ∧ o'.decorators = o.decorators

namespace X86

open Scan
open Statement (ReadsBack)

variable {l body ds : List Char} {k : Operand.Kind} {m : MemoryRef}

/-! ### Decorations -/

/-- Texts, backwards, from which no group in braces is taken off. -/
def Stopped (l : List Char) : Prop :=
  l.head? = some '}' → '{' ∉ l

lemma stopped_peel (acc l : List Char) : Stopped (peel acc l).1 := by
  fun_induction peel acc l with
  | case1 acc l hdrop =>
      intro _ hmem
      have hne : '{' ∈ l := by simpa using hmem
      exact absurd (List.dropWhile_eq_nil_iff.mp hdrop '{' hne) (by decide)
  | case2 acc l ch rest hdrop ih => exact ih
  | case3 acc l hnot =>
      intro hhead
      obtain ⟨r, rfl⟩ := List.head?_eq_some_iff.mp hhead
      exact (hnot r rfl).elim

lemma peel_of_stopped (acc : List Char) (h : Stopped l) : peel acc l = (l, acc) := by
  rw [peel.eq_def]
  split
  · next l =>
      have hnot : '{' ∉ l := fun hmem => h rfl (List.mem_cons_of_mem _ hmem)
      have hdrop : l.dropWhile (· != '{') = [] := by
        refine List.dropWhile_eq_nil_iff.mpr fun ch hch => ?_
        have hne : ch ≠ '{' := fun heq => hnot (heq ▸ hch)
        simpa using hne
      split
      · rfl
      · next hcons =>
          rw [hdrop] at hcons
          cases hcons
  · rfl

/-- Decorations are taken off where nothing else is. -/
lemma undecorated_of_stopped (hstopped : Stopped body.reverse) {ch : Char}
    (hhead : body.head? = some ch) (hbrace : ch ≠ '{') (hds : Groups ds)
    (hlast : ∀ ch, body.getLast? = some ch → Text.isBlank ch = false) :
    undecorated (body ++ ds) = (body, ds) := by
  have hne : body ≠ [] := by
    rintro rfl
    cases hhead
  have hpeel : peel [] (body ++ ds).reverse = (body.reverse, ds) := by
    have hend := List.getLast?_eq_some_getLast hne
    rw [peel_groups hds hend (hlast _ hend), List.append_nil, peel_of_stopped ds hstopped]
  unfold undecorated
  split
  · next heq =>
      have hfirst := congrArg List.head? heq
      rw [List.head?_append, hhead] at hfirst
      exact (hbrace (Option.some.inj hfirst)).elim
  · rw [hpeel]
    simp

/-- What is known of an operand without its decorations, if it is not in braces. -/
lemma stopped_undecorated (h : l.head? ≠ some '{') : Stopped (undecorated l).1.reverse := by
  unfold undecorated
  split
  · exact (h rfl).elim
  · rw [List.reverse_reverse]
    exact stopped_peel [] l.reverse

/-- Decorations are taken off again where they were taken off. -/
lemma undecorated_append (htrimmed : Trimmed l) :
    undecorated ((undecorated l).1 ++ (undecorated l).2) = undecorated l := by
  obtain ⟨hgroups, hlast, hhead⟩ := undecorated_spec htrimmed
  cases l with
  | nil => simp [undecorated, peel]
  | cons ch l =>
      by_cases hbrace : ch = '{'
      · subst hbrace
        simp [undecorated]
      · exact undecorated_of_stopped (stopped_undecorated (by simpa using hbrace)) hhead hbrace
          hgroups hlast

lemma squeezed_peel (acc l : List Char) :
    Text.squeezed ((peel acc l).1.reverse ++ (peel acc l).2) =
      Text.squeezed (l.reverse ++ acc) := by
  fun_induction peel acc l with
  | case1 | case3 => rfl
  | case2 acc l ch rest hdrop ih =>
      have hch : ch = '{' := by
        have hnot := List.head?_dropWhile_not (· != '{') l
        rw [hdrop] at hnot
        simpa using hnot
      subst hch
      have hl : l = l.takeWhile (· != '{') ++ '{' :: rest := by
        rw [← hdrop, List.takeWhile_append_dropWhile]
      have hrest : Text.squeezed (rest.dropWhile Text.isBlank) = Text.squeezed rest :=
        Text.squeezed_trimStart rest
      rw [ih, Text.squeezed_append, Text.squeezed_reverse, hrest]
      conv_rhs => rw [hl]
      rw [← Text.squeezed_reverse, ← Text.squeezed_append]
      simp

lemma squeezed_undecorated (l : List Char) :
    Text.squeezed ((undecorated l).1 ++ (undecorated l).2) = Text.squeezed l := by
  unfold undecorated
  split
  · rw [List.append_nil]
  · have hpeel := squeezed_peel [] l.reverse
    rwa [List.reverse_reverse, List.append_nil] at hpeel

lemma squeezed_direct (l : List Char) :
    Text.squeezed (star (l.head? == some '*') ++ direct l) = Text.squeezed l := by
  unfold direct
  split
  · next rest =>
      rw [Text.squeezed_append, Text.squeezed_trimStart, ← Text.squeezed_append]
      rfl
  · next hnot =>
      have hstar : (l.head? == some '*') = false := by
        rw [beq_eq_false_iff_ne]
        intro hhead
        obtain ⟨r, rfl⟩ := List.head?_eq_some_iff.mp hhead
        exact hnot r rfl
      rw [hstar]
      rfl

/-! ### Kinds of operand of x86-64 -/

lemma display_immediate (l : List Char) : (immediate l).display.toList = '$' :: l := by
  have hvalue : (Operand.Kind.immediate (some '$') (Expr.parse l)).display.toList = '$' :: l := by
    simp [Operand.Kind.display, Expr.display_parse]
  unfold immediate
  split
  · next anchor hanchor =>
      split
      · rw [Text.after?_eq_some_iff.mp hanchor]
        simp [Operand.Kind.display]
      · exact hvalue
  · split
    · next symbol hsymbol =>
        rw [Text.before?_eq_some_iff.mp (Option.filter_eq_some_iff.mp hsymbol).1]
        simp [Operand.Kind.display]
    · split
      · next symbol hsymbol =>
          rw [Text.before?_eq_some_iff.mp (Option.filter_eq_some_iff.mp hsymbol).1]
          simp [Operand.Kind.display]
      · exact hvalue

/-- An operand is written as it was read, and starts neither with a star nor with a blank. -/
lemma display_of_kind (h : kind body = .ok k)
    (hlast : ∀ ch, body.getLast? = some ch → Text.isBlank ch = false) :
    k.display.toList = body ∧
      ∃ ch, body.head? = some ch ∧ ch ≠ '*' ∧ Text.isBlank ch = false := by
  have hread := h
  -- by the forms of an operand; the text is kept as it is, but for a reference
  unfold kind at h
  split at h
  · cases h
    exact ⟨String.toList_ofList, _, rfl, by decide⟩
  · cases h
    exact ⟨display_immediate _, _, rfl, by decide⟩
  · split at h
    · next hgot =>
        cases h
        rw [hgot]
        exact ⟨rfl, '_', by decide⟩
    · split at h
      · next hnumeric =>
          cases h
          refine ⟨String.toList_ofList, ?_⟩
          cases body with
          | nil => cases hnumeric
          | cons ch l =>
              have hdigit := isDigit_of_isNumericReference hnumeric
              refine ⟨ch, rfl, ?_, ?_⟩
              · rintro rfl
                exact absurd hdigit (by decide)
              · simpa using not_isBlank_of_isSymbolChar
                  (isSymbolChar_of_isAlphanum (Offset.isAlphanum_of_isDigit hdigit))
      · split at h
        · next hpercent =>
            split at h
            · cases h
              exact ⟨String.toList_ofList, '%', hpercent.1, by decide⟩
            · cases h
        · obtain ⟨m, -, rfl⟩ := Outcome.map_eq_ok_iff.mp h
          obtain ⟨hspelled, rfl⟩ := spelled_of_kind hread hlast
          exact ⟨rfl, exists_head?_display hspelled⟩

/-- An operand is read with a star in front of it and its decorations after it. -/
lemma operand_of_kind (h : kind body = .ok k)
    (hlast : ∀ ch, body.getLast? = some ch → Text.isBlank ch = false)
    (hds : undecorated (body ++ ds) = (body, ds)) (indirect : Bool) :
    ∃ text, operand (star indirect ++ (body ++ ds)) =
      .ok { text, indirect, kind := k, decorators := String.ofList ds } := by
  obtain ⟨-, ch, hhead, hstar, hblank⟩ := display_of_kind h hlast
  have hdirect := direct_star_append indirect hhead hstar hblank ds
  have hindirect : ((star indirect ++ (body ++ ds)).head? == some '*') = indirect := by
    cases indirect with
    | true => rfl
    | false =>
        rw [beq_eq_false_iff_ne]
        intro hd
        rw [star, if_neg (by decide), List.nil_append, List.head?_append, hhead] at hd
        exact hstar (Option.some.inj hd)
  refine ⟨String.ofList (star indirect ++ (body ++ ds)), operand_eq_ok_iff.mpr ⟨k, ?_, ?_⟩⟩
  · rwa [hdirect, hds]
  · rw [hdirect, hds, hindirect]

/-! ### Constants of x86-64 with other symbols -/

/-- The constants that refer to the offset table. -/
def RefersToTable (v : List Char) : Prop :=
  (∃ anchor, v = (gotName ++ "-").toList ++ anchor ∧
      Symbol.isDotLocal (String.ofList anchor) = true ∧ isSymbolName anchor = true) ∨
    ∃ symbol tag, isSymbolName symbol = true ∧ tag ∈ ["@GOTOFF", "@GOT"] ∧
      v = symbol ++ tag.toList

lemma immediate_of_not_refersToTable {v : List Char} (h : ¬ RefersToTable v) :
    immediate v = .immediate (some '$') (Expr.parse v) := by
  have htagged {symbol : List Char} {tag : String} (htag : tag ∈ ["@GOTOFF", "@GOT"])
      (hsymbol : (Text.before? tag.toList v).filter isSymbolName = some symbol) : False := by
    obtain ⟨hbefore, hname⟩ := Option.filter_eq_some_iff.mp hsymbol
    exact h (.inr ⟨symbol, tag, hname, htag, Text.before?_eq_some_iff.mp hbefore⟩)
  unfold immediate
  split
  · next anchor hanchor =>
      split
      · next hlocal =>
          rw [Bool.and_eq_true] at hlocal
          exact (h (.inl ⟨anchor, Text.after?_eq_some_iff.mp hanchor, hlocal⟩)).elim
      · rfl
  · split
    · next hsymbol => exact (htagged (by simp) hsymbol).elim
    · split
      · next hsymbol => exact (htagged (by simp) hsymbol).elim
      · rfl

/-- No constant that refers to the offset table is read as an expression. -/
lemma not_refersToTable_of_immediate {v : List Char} {sigil : Option Char} {value : Expr}
    (h : immediate v = .immediate sigil value) : ¬ RefersToTable v := by
  rintro (⟨anchor, hv, hlocal, hname⟩ | ⟨symbol, tag, hname, htag, hv⟩)
  · unfold immediate at h
    rw [Text.after?_eq_some_iff.mpr hv] at h
    simp [hlocal, hname] at h
  · unfold immediate at h
    have hread : Text.before? tag.toList v = some symbol := Text.before?_eq_some_iff.mpr hv
    split at h
    · next anchor hanchor =>
        -- the difference has a sign, which neither a name nor a tag has
        have hminus : '-' ∈ symbol ++ tag.toList := by
          rw [← hv, Text.after?_eq_some_iff.mp hanchor]
          simp
        obtain ⟨-, -, -, -, hchars⟩ := exists_cons_of_isSymbolName hname
        rcases List.mem_append.mp hminus with hmem | hmem
        · exact absurd (hchars _ hmem) (by decide)
        · rcases List.mem_pair.mp htag with rfl | rfl <;> exact absurd hmem (by decide)
    · rcases List.mem_pair.mp htag with rfl | rfl
      · rw [hread, Option.filter_some, if_pos hname] at h
        cases h
      · split at h
        · cases h
        · rw [hread, Option.filter_some, if_pos hname] at h
          cases h

lemma termsFrom_distance {anchor : List Char} (hname : isSymbolName anchor = true)
    (hlocal : Symbol.isDotLocal (String.ofList anchor) = true) :
    Expr.termsFrom [] false ((gotName ++ "-").toList ++ anchor) =
      [.symbol gotName, .other "-", .symbol (String.ofList anchor)] := by
  have hanchor : IsName (String.ofList anchor) := by
    rwa [IsName, String.toList_ofList]
  have hpoint : String.ofList anchor ≠ "." := by
    intro heq
    rw [heq] at hlocal
    exact absurd hlocal (by decide)
  -- the name of the table ends at the sign
  have hfirst : Expr.termsFrom [] false (gotName.toList ++ '-' :: anchor) =
      .symbol gotName :: Expr.termsFrom [] false ('-' :: anchor) := by
    have hgot : isSymbolName gotName.toList = true := by decide
    refine Expr.termsFrom_name_append [] hgot (by decide) fun ch hch => ?_
    obtain rfl : '-' = ch := Option.some.inj hch
    decide
  have hlast : Expr.termsFrom ['-'] false ((String.ofList anchor).toList ++ []) =
      [.other "-", .symbol (String.ofList anchor)] := by
    have hend (ch : Char) (hch : ([] : List Char).head? = some ch) : isSymbolChar ch = false := by
      cases hch
    rw [Expr.termsFrom_name_append ['-'] hanchor hpoint hend, Expr.termsFrom.eq_1]
    rfl
  rw [List.append_nil, String.toList_ofList] at hlast
  rw [String.toList_append, List.append_assoc]
  refine hfirst.trans ?_
  rw [Expr.termsFrom, if_neg (by decide), if_neg (by decide), if_neg (by decide)]
  exact congrArg (List.cons _) hlast

lemma termsFrom_tagged {symbol : List Char} {tag : String} (hname : isSymbolName symbol = true)
    (htag : tag ∈ ["@GOTOFF", "@GOT"]) :
    Expr.termsFrom [] false (symbol ++ tag.toList) = [.symbol (String.ofList symbol), .other tag] ∨
      Expr.termsFrom [] false (symbol ++ tag.toList) =
        [.other (String.ofList (symbol ++ tag.toList))] := by
  by_cases hpoint : String.ofList symbol = "."
  · obtain rfl : symbol = ['.'] := by
      rw [← String.toList_ofList (l := symbol), hpoint]
      rfl
    right
    rcases List.mem_pair.mp htag with rfl | rfl <;> decide +kernel
  · left
    have hsymbol : IsName (String.ofList symbol) := by
      rwa [IsName, String.toList_ofList]
    have htail : Expr.termsFrom [] false tag.toList = [.other tag] := by
      rcases List.mem_pair.mp htag with rfl | rfl <;> decide +kernel
    have hread := Expr.termsFrom_name_append (r := tag.toList) [] hsymbol hpoint fun ch hch => by
      rcases List.mem_pair.mp htag with rfl | rfl
      all_goals
        obtain rfl : '@' = ch := Option.some.inj hch
        decide
    rw [String.toList_ofList, htail] at hread
    exact hread

/-- A constant with other local names refers to the offset table only if it did before. -/
lemma RefersToTable.of_mapSymbols {v : List Char} (index : ℕ)
    (h : RefersToTable ((Expr.parse v).mapSymbols (Symbol.localized · index)).display.toList) :
    RefersToTable v := by
  -- the renamed terms are those of the renamed text, so that the terms before are known
  have hread : Expr.termsFrom [] false
      ((Expr.parse v).mapSymbols (Symbol.localized · index)).display.toList =
        Expr.mapTerms (Symbol.localized · index) (Expr.parse v).terms :=
    congrArg Expr.terms (Expr.parse_mapSymbols (fun name hname hpoint =>
      ⟨Symbol.isName_localized hname index, Symbol.localized_ne_point hpoint⟩) v)
  have htext : Expr.textOf (Expr.parse v).terms = v := by
    rw [← Expr.toList_display, Expr.display_parse]
  have hnamed := Expr.named_parse v
  generalize (Expr.parse v).terms = terms at hread htext hnamed
  rcases h with ⟨anchor, hv, hlocal, hname⟩ | ⟨symbol, tag, hname, htag, hv⟩
  · -- the table, a sign and a local name
    rw [hv, termsFrom_distance hname hlocal] at hread
    obtain ⟨table, rest, rfl, htable, hrest⟩ := Expr.exists_of_mapTerms_eq_symbol hread.symm
    obtain rfl := Symbol.eq_of_localized_eq (by decide) htable
    obtain ⟨last, rfl, hlast⟩ := Expr.exists_of_mapTerms_eq_other hrest
    obtain ⟨before, none, rfl, hbefore, hnone⟩ := Expr.exists_of_mapTerms_eq_symbol hlast
    obtain rfl := Expr.eq_nil_of_mapTerms hnone
    refine .inl ⟨before.toList, ?_, ?_, hnamed before (by simp)⟩
    · rw [← htext]
      simp [Expr.textOf, Term.text]
    · rwa [String.ofList_toList, ← Symbol.isDotLocal_localized before index, hbefore]
  · rw [hv] at hread
    -- a name with its tag, read as a symbol or as a number
    rcases termsFrom_tagged hname htag with hterms | hterms
    · rw [hterms] at hread
      obtain ⟨before, rest, rfl, -, hrest⟩ := Expr.exists_of_mapTerms_eq_symbol hread.symm
      obtain ⟨none, rfl, hnone⟩ := Expr.exists_of_mapTerms_eq_other hrest
      obtain rfl := Expr.eq_nil_of_mapTerms hnone
      refine .inr ⟨before.toList, tag, hnamed before List.mem_cons_self, htag, ?_⟩
      rw [← htext]
      simp [Expr.textOf, Term.text]
    · rw [hterms] at hread
      obtain ⟨none, rfl, hnone⟩ := Expr.exists_of_mapTerms_eq_other hread.symm
      obtain rfl := Expr.eq_nil_of_mapTerms hnone
      refine .inr ⟨symbol, tag, hname, htag, ?_⟩
      rw [← htext]
      simp [Expr.textOf, Term.text]

section

variable {v : List Char} {index : ℕ}

/-- A constant as it is written with other local names. -/
lemma toList_display_immediate (e : Expr) :
    (Operand.Kind.immediate (some '$') e).display.toList = '$' :: e.display.toList := by
  simp [Operand.Kind.display]

/-- A constant with other local names is read as one. -/
lemma kind_mapSymbols (h : immediate v = .immediate (some '$') (Expr.parse v)) (index : ℕ) :
    kind ('$' :: ((Expr.parse v).mapSymbols (Symbol.localized · index)).display.toList) =
      .ok (.immediate (some '$') ((Expr.parse v).mapSymbols (Symbol.localized · index))) := by
  have hnot := mt (RefersToTable.of_mapSymbols index) (not_refersToTable_of_immediate h)
  refine congrArg Except.ok ((immediate_of_not_refersToTable hnot).trans ?_)
  rw [Expr.parse_mapSymbols fun name hname hpoint =>
    ⟨Symbol.isName_localized hname index, Symbol.localized_ne_point hpoint⟩]

/-- With other local names, a constant ends as it did or in a character of a name. -/
lemma getLast?_constant {ch : Char}
    (h : ('$' :: ((Expr.parse v).mapSymbols (Symbol.localized · index)).display.toList).getLast? =
      some ch) : ('$' :: v).getLast? = some ch ∨ isSymbolChar ch = true := by
  rw [List.getLast?_cons] at h
  cases hlast : ((Expr.parse v).mapSymbols (Symbol.localized · index)).display.toList.getLast? with
  | none =>
      rw [hlast] at h
      obtain rfl : '$' = ch := Option.some.inj h
      exact .inr (by decide)
  | some d =>
      rw [hlast] at h
      obtain rfl : d = ch := Option.some.inj h
      have hread := Expr.getLast?_mapSymbols (Expr.named_parse v)
        (fun name hname => Symbol.isName_localized hname index) hlast
      rw [Expr.display_parse] at hread
      refine hread.imp_left fun hv => ?_
      rw [List.getLast?_cons, hv]
      rfl

/-- With other local names, no group is taken off a constant if none was. -/
lemma Stopped.mapSymbols (h : Stopped ('$' :: v).reverse) (index : ℕ) : Stopped
    ('$' :: ((Expr.parse v).mapSymbols (Symbol.localized · index)).display.toList).reverse := by
  intro hbrace hmem
  rw [List.head?_reverse] at hbrace
  rcases getLast?_constant hbrace with hlast | hsymbol
  · have hnot := h (by rwa [List.head?_reverse])
    rw [List.mem_reverse, List.mem_cons] at hnot hmem
    rcases hmem with hdollar | hmem
    · exact absurd hdollar (by decide)
    · rcases Expr.mem_mapSymbols (Expr.named_parse v)
        (fun name hname => Symbol.isName_localized hname index) hmem with hv | hsymbol
      · rw [Expr.display_parse] at hv
        exact hnot (.inr hv)
      · exact absurd hsymbol (by decide)
  · exact absurd hsymbol (by decide)

end

/-! ### Operands of x86-64 -/

lemma ne_gotName_of_renames {name t : String} (h : Symbol.Renames name t) : t ≠ gotName := by
  rintro rfl
  have hfirst : gotName.toList.head? = some '_' := by decide
  rcases h.toList_eq with ⟨r, hr⟩ | ⟨r, hr⟩
  all_goals
    rw [hr] at hfirst
    cases hfirst
variable {o : Operand}

/-- What is known of an operand that is read, by its parts. -/
lemma parts_of_operand (h : operand l = .ok o) (htrimmed : Trimmed l) :
    kind o.kind.display.toList = .ok o.kind ∧
      (∀ ch, o.kind.display.toList.getLast? = some ch → Text.isBlank ch = false) ∧
      undecorated (o.kind.display.toList ++ o.decorators.toList) =
        (o.kind.display.toList, o.decorators.toList) ∧
      Groups o.decorators.toList ∧
      Text.squeezed o.display.toList = Text.squeezed l := by
  obtain ⟨k, hk, ho⟩ := operand_eq_ok_iff.mp h
  have hdirect := trimmed_direct htrimmed
  obtain ⟨hgroups, hlast, -⟩ := undecorated_spec hdirect
  have hkind : o.kind = k := by rw [ho]
  have hdisplay : o.kind.display.toList = (undecorated (direct l)).1 := by
    rw [hkind, (display_of_kind hk hlast).1]
  have hdecorators : o.decorators.toList = (undecorated (direct l)).2 := by
    rw [ho, String.toList_ofList]
  have hindirect : o.indirect = (l.head? == some '*') := by rw [ho]
  have hshown : o.display.toList = star o.indirect ++
      (o.kind.display.toList ++ o.decorators.toList) := toList_display_withKind o o.kind
  rw [hshown, hdisplay, hdecorators, hkind, hindirect]
  refine ⟨hk, hlast, undecorated_append hdirect, hgroups, ?_⟩
  rw [Text.squeezed_append, squeezed_undecorated, ← Text.squeezed_append, squeezed_direct]

/-- An operand is read back whose kind is, and whose decorations are taken off again. -/
lemma readsBack_withKind (hk : kind k.display.toList = .ok k)
    (hlast : ∀ ch, k.display.toList.getLast? = some ch → Text.isBlank ch = false)
    (hds : undecorated (k.display.toList ++ o.decorators.toList) =
      (k.display.toList, o.decorators.toList)) : ReadsBack .x86_64 (o.withKind k) := by
  obtain ⟨text, hread⟩ := operand_of_kind hk hlast hds o.indirect
  rw [← toList_display_withKind, String.ofList_toList] at hread
  exact ⟨_, hread, rfl, rfl, rfl⟩

/-- An operand with another reference, whose symbol is not the offset table. -/
lemma readsBack_withMemory {t : String} (hm : Spelled m) (hsymbol : m.symbol = some t)
    (ht : t ≠ gotName) (hds : Groups o.decorators.toList) :
    ReadsBack .x86_64 (o.withKind (.memory m)) := by
  refine readsBack_withKind ?_ (not_isBlank_getLast?_display hm) (undecorated_display hm hds)
  have hgot : m.display.toList ≠ (gotName ++ "(%rip)").toList := by
    intro heq
    have hread := memoryRef_display hm
    have htable : memoryRef (gotName ++ "(%rip)").toList = .ok (.ripRelative gotName) := by
      decide +kernel
    rw [heq, htable] at hread
    cases hread
    exact ht (Option.some.inj hsymbol).symm
  have hnumeric := isNumericReference_display hm (.inl (by rw [hsymbol]; rfl))
  rw [Operand.Kind.display, kind_display hm, if_neg hgot, hnumeric]
  rfl

/-- An operand with other local names in its constant. -/
lemma readsBack_withImmediate (h : operand l = .ok o) (htrimmed : Trimmed l) {sigil : Option Char}
    {value : Expr} (hkind : o.kind = .immediate sigil value) (index : ℕ) :
    ReadsBack .x86_64
      (o.withKind (.immediate sigil (value.mapSymbols (Symbol.localized · index)))) := by
  obtain ⟨hk, hlast, hds, hgroups, -⟩ := parts_of_operand h htrimmed
  rw [hkind] at hk hlast hds
  obtain ⟨v, hbody, rfl, rfl⟩ := immediate_of_kind hk
  rw [hbody] at hk hlast hds
  -- the constant ends as before, or in a character of a name
  have hnotBlank (ch : Char) (hch : ('$' :: ((Expr.parse v).mapSymbols
      (Symbol.localized · index)).display.toList).getLast? = some ch) :
      Text.isBlank ch = false := by
    rcases getLast?_constant hch with hch | hsymbol
    · exact hlast ch hch
    · simpa using not_isBlank_of_isSymbolChar hsymbol
  have hstopped : Stopped ('$' :: v).reverse := by
    have hstop : Stopped (undecorated ('$' :: v ++ o.decorators.toList)).1.reverse :=
      stopped_undecorated (by simp)
    rwa [hds] at hstop
  refine readsBack_withKind ?_ ?_ ?_
  all_goals rw [toList_display_immediate]
  · exact kind_mapSymbols (Except.ok.inj hk) index
  · exact hnotBlank
  · refine undecorated_of_stopped (hstopped.mapSymbols index) rfl (by decide) hgroups
      hnotBlank

end X86

end Hermetic

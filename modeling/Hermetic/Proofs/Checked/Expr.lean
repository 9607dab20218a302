/-
Terms of an expression, read by the indices of the bytes of its text.

* `Checked.stringEnd`, `Checked.wordEnd`: where a string and a word end;
* `Checked.termsFrom`, `Checked.termsFrom_eq`: the terms of a text are those that are read by its
  characters.
-/
import Hermetic.Proofs.Operand.Expr
import Hermetic.Proofs.Checked.Runs

namespace Hermetic

open Text (byteLength byteLength_nil byteLength_cons byteLength_append)
open SourceUnit (char)

namespace Checked

variable {l before rest : List Char} {u : Char} {i j : ℕ}

/-! ### Strings and words -/

/-- Where a string ends, from within: at its closing quote, or after the text. -/
def stringEnd (l : List Char) (i : ℕ) : Option ℕ :=
  if _h : i < (bytes l).length then do
    let b ← byteAt l i
    if b = '"' then return i
    else if b = '\\' then stringEnd l (i + 2)
    else stringEnd l (i + 1)
  else some i
termination_by (bytes l).length - i
decreasing_by all_goals omega

/-- Where a word ends. -/
def wordEnd (l : List Char) (i : ℕ) : Option ℕ :=
  if _h : i < (bytes l).length then do
    if isSymbolChar (← byteAt l i) then wordEnd l (i + 1) else return i
  else some i
termination_by (bytes l).length - i
decreasing_by omega

lemma le_of_stringEnd (h : stringEnd l i = some j) : i ≤ j := by
  fun_induction stringEnd l i with
  | case1 i hi ih₁ ih₂ =>
      obtain ⟨b, -, h⟩ := Option.bind_eq_some_iff.mp h
      split at h
      · cases h
        exact le_rfl
      · split at h
        · have := ih₁ h
          omega
        · have := ih₂ h
          omega
  | case2 =>
      cases h
      exact le_rfl

lemma le_of_wordEnd (h : wordEnd l i = some j) : i ≤ j := by
  fun_induction wordEnd l i with
  | case1 i hi ih =>
      obtain ⟨b, -, h⟩ := Option.bind_eq_some_iff.mp h
      split at h
      · have := ih h
        omega
      · cases h
        exact le_rfl
  | case2 =>
      cases h
      exact le_rfl

/-- A word has at least the character that it starts with. -/
lemma lt_of_wordEnd (hu : byteAt l i = some u) (hword : isSymbolChar u = true)
    (h : wordEnd l i = some j) : i < j := by
  rw [wordEnd, dif_pos (lt_length_bytes hu), hu, Option.bind_eq_bind, Option.bind_some,
    if_pos hword] at h
  exact le_of_wordEnd h

lemma isSymbolChar_of_isDigit (h : u.isDigit = true) : isSymbolChar u = true := by
  simp [isSymbolChar, Char.isAlphanum, h]

/-- From within a character, a string goes on after it. -/
lemma stringEnd_add (hl : l = before ++ u :: rest) {k : ℕ} (hpos : 0 < k) (hk : k ≤ u.utf8Size) :
    stringEnd l (byteLength before + k) = stringEnd l (byteLength (before ++ [u])) := by
  rw [byteLength_append, byteLength_cons, byteLength_nil, Nat.add_zero]
  by_cases hu : IsNarrow u
  · rw [utf8Size_of_isNarrow hu] at hk ⊢
    rw [show k = 1 by omega]
  · refine scan_of_not_isNarrow hl hu (fun i b hb hbyte => ?_) hk
    rw [stringEnd, dif_pos (lt_length_bytes hbyte), hbyte, Option.bind_eq_bind, Option.bind_some,
      if_neg (hb.char_ne (by decide)), if_neg (hb.char_ne (by decide))]

/-- A string ends where it does by its characters. -/
lemma stringEnd_eq (hl : l = before ++ rest) :
    ∃ close, stringEnd l (byteLength before) = some close ∧
      min (close + 1) (bytes l).length =
        byteLength (before ++ rest.take (Expr.stringLength rest)) := by
  -- by the number of characters: a backslash goes past two of them
  induction hn : rest.length using Nat.strongRecOn generalizing before rest with
  | ind n ih =>
      cases rest with
      | nil =>
          have hend : ¬ byteLength before < (bytes l).length := by
            rw [hl, length_bytes, List.append_nil]
            exact lt_irrefl _
          refine ⟨byteLength before, by rw [stringEnd, dif_neg hend], ?_⟩
          rw [hl, length_bytes, List.take_nil, List.append_nil]
          exact Nat.min_eq_right (Nat.le_succ _)
      | cons u r =>
          have hpos := Char.utf8Size_pos u
          have hlsucc : l = before ++ [u] ++ r := by rw [hl, List.append_assoc]; rfl
          have hlength : (bytes l).length = byteLength before + u.utf8Size + byteLength r := by
            rw [hl, length_bytes, byteLength_append, byteLength_cons, Nat.add_assoc]
          obtain ⟨d, hd, hchars, -⟩ := exists_byteAt before u r
          rw [← hl] at hd
          rw [stringEnd, dif_pos (lt_length_bytes hd), hd, Option.bind_eq_bind, Option.bind_some]
          simp only [hchars _ (show IsNarrow '"' by decide),
            hchars _ (show IsNarrow '\\' by decide)]
          by_cases hquote : u = '"'
          · subst hquote
            refine ⟨_, if_pos rfl, ?_⟩
            have hsize : '"'.utf8Size = 1 := by decide
            rw [hlength, hsize, Expr.stringLength, List.take_succ_cons, List.take_zero,
              byteLength_append, byteLength_cons, byteLength_nil, hsize]
            omega
          · rw [if_neg hquote]
            by_cases hslash : u = '\\'
            · rw [if_pos hslash]
              subst hslash
              have hsize : '\\'.utf8Size = 1 := by decide
              have hone : byteLength (before ++ ['\\']) = byteLength before + 1 := by
                rw [byteLength_append, byteLength_cons, byteLength_nil, hsize]
              cases r with
              | nil =>
                  -- a backslash at the end of the text: the string is not closed
                  rw [hsize, byteLength_nil] at hlength
                  refine ⟨_, by rw [stringEnd, dif_neg (by omega)], ?_⟩
                  rw [hlength]
                  change _ = byteLength (before ++ ['\\'])
                  omega
              | cons v r =>
                  have hltwo : l = before ++ ['\\'] ++ [v] ++ r := by rw [hl]; simp
                  obtain ⟨close, hclose, hmin⟩ := ih r.length
                    (by rw [← hn, List.length_cons, List.length_cons]; omega) hltwo rfl
                  refine ⟨close, ?_, ?_⟩
                  · rw [← hclose, ← stringEnd_add hlsucc Nat.one_pos (Char.utf8Size_pos v), hone]
                  · rw [hmin, Expr.stringLength, Nat.add_comm, List.take_succ_cons,
                      List.take_succ_cons, List.append_assoc, List.append_assoc]
                    rfl
            · rw [if_neg hslash, stringEnd_add hl (Nat.one_pos) hpos]
              obtain ⟨close, hclose, hmin⟩ := ih r.length (by rw [← hn]; simp) hlsucc rfl
              refine ⟨close, hclose, ?_⟩
              have hrun : Expr.stringLength (u :: r) = 1 + Expr.stringLength r := by
                rw [Expr.stringLength]
                · exact hquote
                · exact fun d l hu _ => hslash hu
              rw [hmin, hrun, Nat.add_comm, List.take_succ_cons, List.append_assoc]
              rfl

/-- A word ends where it does by its characters. -/
lemma wordEnd_eq (hl : l = before ++ rest) :
    wordEnd l (byteLength before) = some (byteLength (before ++ rest.takeWhile isSymbolChar)) := by
  induction rest generalizing before with
  | nil =>
      have hend : ¬ byteLength before < (bytes l).length := by
        rw [hl, length_bytes, List.append_nil]
        exact lt_irrefl _
      rw [wordEnd, dif_neg hend, List.takeWhile_nil, List.append_nil]
  | cons u r ih =>
      obtain ⟨d, hd, -, htests⟩ := exists_byteAt before u r
      rw [← hl] at hd
      rw [wordEnd, dif_pos (lt_length_bytes hd), hd, Option.bind_eq_bind, Option.bind_some,
        htests _ readsBytes_isSymbolChar]
      by_cases hu : isSymbolChar u = true
      · have hnext : byteLength (before ++ [u]) = byteLength before + 1 := by
          rw [byteLength_append, byteLength_cons, byteLength_nil,
            utf8Size_of_isNarrow (isNarrow_of_isSymbolChar hu)]
        have hlsucc : l = before ++ [u] ++ r := by rw [hl, List.append_assoc]; rfl
        have h := ih hlsucc
        rw [if_pos hu, ← hnext, h, List.takeWhile_cons_of_pos hu, List.append_assoc]
        rfl
      · rw [if_neg hu, List.takeWhile_cons_of_neg hu, List.append_nil]
        rfl

/-! ### Terms -/

/-- The byte before another, if that is not the first. -/
def byteBefore (l : List Char) (i : ℕ) : Option (Option Char) :=
  if i = 0 then some none else do return some (← byteAt l (← sub i 1))

/-- The terms of a text from a byte on, after some text that is part of none yet, backwards. -/
def termsFrom (l pending : List Char) (i : ℕ) : Option (List Term) :=
  if _h : i < (bytes l).length then do
    let c ← (byteAt l i).attach
    if c.1 = '"' then
      let close ← (stringEnd l (i + 1)).attach
      let stop := min (close.1 + 1) (bytes l).length
      let text ← slice l i stop
      termsFrom l (text.reverse ++ pending) stop
    else if _hc : c.1.isDigit then
      let stop ← (wordEnd l i).attach
      let text ← slice l i stop.1
      termsFrom l (text.reverse ++ pending) stop.1
    else if isSymbolStart c.1 then
      let stop ← (wordEnd l (i + 1)).attach
      let word ← slice l i stop.1
      let previous ← byteBefore l i
      if word = ['.'] ∨ previous = some '@' ∨ previous = some '%' then
        termsFrom l (word.reverse ++ pending) stop.1
      else
        return Expr.flush pending (.symbol (String.ofList word) :: (← termsFrom l [] stop.1))
    else
      let c := (← tailFrom l i).head?.getD '\uFFFD'
      termsFrom l (c :: pending) (i + max c.utf8Size 1)
  else some (Expr.flush pending [])
termination_by (bytes l).length - i
decreasing_by
  · have := le_of_stringEnd close.2
    omega
  · have := lt_of_wordEnd c.2 (isSymbolChar_of_isDigit _hc) stop.2
    omega
  · have := le_of_wordEnd stop.2
    omega
  · have := le_of_wordEnd stop.2
    omega
  · omega

/-- Whether a text ends in a character after which no symbol follows. -/
def EndsTagged (l : List Char) : Prop :=
  l.getLast? = some '@' ∨ l.getLast? = some '%'

lemma endsTagged_append_singleton (l : List Char) (c : Char) :
    EndsTagged (l ++ [c]) ↔ c = '@' ∨ c = '%' := by
  simp [EndsTagged]

lemma not_endsTagged_append {m : List Char} (hne : m ≠ [])
    (hm : ∀ c ∈ m, isSymbolChar c = true) (l : List Char) : ¬ EndsTagged (l ++ m) := by
  obtain ⟨m, c, rfl⟩ : ∃ m' c, m = m' ++ [c] := ⟨_, _, (List.dropLast_concat_getLast hne).symm⟩
  have hc := hm c (by simp)
  rw [← List.append_assoc, endsTagged_append_singleton]
  rintro (rfl | rfl)
  · exact absurd hc (by decide)
  · exact absurd hc (by decide)

/-- What follows a string follows its closing quote. -/
lemma exists_take_stringLength (h : rest.drop (Expr.stringLength rest) ≠ []) :
    ∃ m, rest.take (Expr.stringLength rest) = m ++ ['"'] := by
  fun_induction Expr.stringLength rest with
  | case1 => exact (h rfl).elim
  | case2 => exact ⟨[], rfl⟩
  | case3 d l ih =>
      obtain ⟨m, hm⟩ := ih (by rwa [Nat.add_comm] at h)
      refine ⟨'\\' :: d :: m, ?_⟩
      rw [Nat.add_comm, List.take_succ_cons, List.take_succ_cons, hm]
      rfl
  | case4 c l hq hs ih =>
      obtain ⟨m, hm⟩ := ih (by rwa [Nat.add_comm] at h)
      exact ⟨c :: m, by rw [Nat.add_comm, List.take_succ_cons, hm]; rfl⟩

/-- The byte before a word tells whether the word is tagged. -/
lemma exists_byteBefore {text : List Char} (hl : text = before ++ rest) :
    ∃ previous, byteBefore text (byteLength before) = some previous ∧
      (previous = some '@' ∨ previous = some '%' ↔ EndsTagged before) := by
  rcases List.eq_nil_or_concat before with rfl | ⟨m, c, hm⟩
  · exact ⟨none, rfl, by simp [EndsTagged]⟩
  · rw [List.concat_eq_append] at hm
    subst hm
    obtain ⟨d, hd, hchars⟩ := exists_byteAt_last m c rest
    have hpos := Char.utf8Size_pos c
    have hlength : byteLength (m ++ [c]) = byteLength m + c.utf8Size := by
      rw [byteLength_append, byteLength_cons, byteLength_nil, Nat.add_zero]
    rw [List.append_assoc, List.singleton_append] at hl
    rw [← hl, ← hlength] at hd
    refine ⟨some d, ?_, ?_⟩
    · rw [byteBefore, if_neg (by omega), sub_eq (by omega), Option.bind_eq_bind, Option.bind_some,
        hd]
      rfl
    · rw [endsTagged_append_singleton, Option.some.injEq, Option.some.injEq,
        hchars _ (show IsNarrow '@' by decide), hchars _ (show IsNarrow '%' by decide)]

/-- A word that starts at a character, in its bytes. -/
lemma word_of_isSymbolChar {text : List Char} (hl : text = before ++ u :: rest)
    (hu : isSymbolChar u = true) :
    byteAt text (byteLength before) = some u ∧
      wordEnd text (byteLength before) =
        some (byteLength (before ++ u :: rest.takeWhile isSymbolChar)) ∧
      text = before ++ u :: rest.takeWhile isSymbolChar ++ rest.dropWhile isSymbolChar ∧
      slice text (byteLength before) (byteLength (before ++ u :: rest.takeWhile isSymbolChar)) =
        some (u :: rest.takeWhile isSymbolChar) := by
  have happend : text =
      before ++ u :: rest.takeWhile isSymbolChar ++ rest.dropWhile isSymbolChar := by
    rw [hl, List.append_assoc, List.cons_append, List.takeWhile_append_dropWhile]
  have hword := wordEnd_eq hl
  rw [List.takeWhile_cons_of_pos hu] at hword
  refine ⟨by rw [hl, byteAt_of_isNarrow (isNarrow_of_isSymbolChar hu)], hword, happend, ?_⟩
  rw [happend, byteLength_append before, slice_append]

lemma wordEnd_succ {text : List Char} (hl : text = before ++ u :: rest)
    (hu : isSymbolChar u = true) : wordEnd text (byteLength before + 1) =
      some (byteLength (before ++ u :: rest.takeWhile isSymbolChar)) := by
  obtain ⟨hbyte, hword, -⟩ := word_of_isSymbolChar hl hu
  rw [wordEnd, dif_pos (lt_length_bytes hbyte), hbyte, Option.bind_eq_bind, Option.bind_some,
    if_pos hu] at hword
  exact hword

lemma not_endsTagged_word (hu : isSymbolChar u = true) (l before : List Char) :
    ¬ EndsTagged (before ++ u :: l.takeWhile isSymbolChar) := by
  refine not_endsTagged_append (List.cons_ne_nil _ _) (fun c hc => ?_) before
  rcases List.mem_cons.mp hc with rfl | hc
  · exact hu
  · exact List.mem_takeWhile_imp hc

/-- A string is part of no term. -/
lemma termsFrom_of_quote {text pending : List Char} (hl : text = before ++ '"' :: rest) :
    termsFrom text pending (byteLength before) =
      termsFrom text (('"' :: rest.take (Expr.stringLength rest)).reverse ++ pending)
        (byteLength (before ++ '"' :: rest.take (Expr.stringLength rest))) := by
  have hbyte : byteAt text (byteLength before) = some '"' := by
    rw [hl, byteAt_of_isNarrow (by decide)]
  have hquote : byteLength (before ++ ['"']) = byteLength before + 1 := by
    rw [byteLength_append]
    rfl
  have hlquote : text = before ++ ['"'] ++ rest := by rw [hl, List.append_assoc]; rfl
  -- the end of the string is found in the bytes where it is in the characters
  obtain ⟨close, hclose, hmin⟩ := stringEnd_eq hlquote
  rw [hquote] at hclose
  have happend : text = before ++ '"' :: rest.take (Expr.stringLength rest) ++
      rest.drop (Expr.stringLength rest) := by
    rw [hl, List.append_assoc, List.cons_append, List.take_append_drop]
  have hstop : byteLength (before ++ ['"'] ++ rest.take (Expr.stringLength rest)) =
      byteLength (before ++ '"' :: rest.take (Expr.stringLength rest)) := by
    rw [List.append_assoc]
    rfl
  have hslice : slice text (byteLength before)
      (byteLength (before ++ '"' :: rest.take (Expr.stringLength rest))) =
      some ('"' :: rest.take (Expr.stringLength rest)) := by
    rw [happend, byteLength_append, slice_append]
  rw [termsFrom, dif_pos (lt_length_bytes hbyte), attach_bind_of_eq hbyte, if_pos rfl,
    attach_bind_of_eq hclose]
  dsimp only
  rw [hmin, hstop, hslice]
  rfl

/-- A name is part of no term if it is a point alone or stands behind a sign, and otherwise a
symbol. -/
lemma termsFrom_of_isSymbolStart {text pending : List Char} {tagged : Bool}
    (hl : text = before ++ u :: rest) (htagged : tagged = true ↔ EndsTagged before)
    (hu : isSymbolStart u = true) :
    termsFrom text pending (byteLength before) =
      if tagged || (u == '.' && (rest.takeWhile isSymbolChar).isEmpty) then
        termsFrom text ((u :: rest.takeWhile isSymbolChar).reverse ++ pending)
          (byteLength (before ++ u :: rest.takeWhile isSymbolChar))
      else do
        return Expr.flush pending (.symbol (String.ofList (u :: rest.takeWhile isSymbolChar)) ::
          (← termsFrom text [] (byteLength (before ++ u :: rest.takeWhile isSymbolChar)))) := by
  have hsymbol := isSymbolChar_of_isSymbolStart hu
  have hquote : u ≠ '"' := by
    rintro rfl
    exact absurd hu (by decide)
  obtain ⟨hbyte, -, -, hslice⟩ := word_of_isSymbolChar hl hsymbol
  obtain ⟨previous, hprevious, hends⟩ := exists_byteBefore hl
  have hcond : u :: rest.takeWhile isSymbolChar = ['.'] ∨ previous = some '@' ∨
      previous = some '%' ↔
        (tagged || (u == '.' && (rest.takeWhile isSymbolChar).isEmpty)) = true := by
    rw [hends, ← htagged]
    simp [or_comm]
  rw [termsFrom, dif_pos (lt_length_bytes hbyte), attach_bind_of_eq hbyte, if_neg hquote,
    dif_neg (not_isDigit_of_isSymbolStart hu), if_pos hu,
    attach_bind_of_eq (wordEnd_succ hl hsymbol)]
  dsimp only
  rw [hslice, Option.bind_eq_bind, Option.bind_some, hprevious, Option.bind_eq_bind,
    Option.bind_some]
  exact if_congr hcond rfl rfl

/-- The terms of a text are read by its bytes. -/
lemma termsFrom_eq {text pending : List Char} {tagged : Bool} (hl : text = before ++ rest)
    (htagged : rest ≠ [] → (tagged = true ↔ EndsTagged before)) :
    termsFrom text pending (byteLength before) = some (Expr.termsFrom pending tagged rest) := by
  -- along the reading of characters; each step leads to where a character starts, and a term is
  -- tagged if the byte before it says so
  fun_induction Expr.termsFrom pending tagged rest generalizing before with
  | case1 pending tagged =>
      have hend : ¬ byteLength before < (bytes text).length := by
        rw [hl, length_bytes, List.append_nil]
        exact lt_irrefl _
      rw [termsFrom, dif_neg hend]
  | case2 pending tagged r n =>
      rename_i ih
      have happend : text = before ++ '"' :: r.take (Expr.stringLength r) ++
          r.drop (Expr.stringLength r) := by
        rw [hl, List.append_assoc, List.cons_append, List.take_append_drop]
      rw [termsFrom_of_quote hl, List.reverse_cons, List.append_assoc]
      refine ih happend fun hne => iff_of_false Bool.false_ne_true ?_
      obtain ⟨m, hm⟩ := exists_take_stringLength hne
      rw [hm, ← List.cons_append, ← List.append_assoc, endsTagged_append_singleton]
      decide
  | case3 pending tagged c r hq hd =>
      rename_i ih
      obtain ⟨hbyte, hword, happend, hslice⟩ :=
        word_of_isSymbolChar hl (isSymbolChar_of_isDigit hd)
      rw [termsFrom, dif_pos (lt_length_bytes hbyte), attach_bind_of_eq hbyte, if_neg hq,
        dif_pos hd, attach_bind_of_eq hword]
      dsimp only
      rw [hslice, Option.bind_eq_bind, Option.bind_some, List.reverse_cons, List.append_assoc]
      refine ih happend fun hne => iff_of_false Bool.false_ne_true ?_
      exact not_endsTagged_word (isSymbolChar_of_isDigit hd) r before
  | case4 pending tagged c r hq hd hs tail ht =>
      rename_i ih
      have hsymbol := isSymbolChar_of_isSymbolStart hs
      obtain ⟨-, -, happend, -⟩ := word_of_isSymbolChar hl hsymbol
      rw [termsFrom_of_isSymbolStart hl (htagged (List.cons_ne_nil _ _)) hs, if_pos ht,
        List.reverse_cons, List.append_assoc]
      exact ih happend fun hne =>
        iff_of_false Bool.false_ne_true (not_endsTagged_word hsymbol r before)
  | case5 pending tagged c r hq hd hs tail ht =>
      rename_i ih
      have hsymbol := isSymbolChar_of_isSymbolStart hs
      obtain ⟨-, -, happend, -⟩ := word_of_isSymbolChar hl hsymbol
      rw [termsFrom_of_isSymbolStart hl (htagged (List.cons_ne_nil _ _)) hs, if_neg ht,
        ih happend fun hne =>
          iff_of_false Bool.false_ne_true (not_endsTagged_word hsymbol r before)]
      rfl
  | case6 pending tagged c r hq hd hs ih =>
      obtain ⟨d, hbyte, hchars, htests⟩ := exists_byteAt before c r
      rw [← hl] at hbyte
      have htail : tailFrom text (byteLength before) = some (c :: r) := by
        rw [hl, tailFrom_append]
      have hnext : byteLength before + max c.utf8Size 1 = byteLength (before ++ [c]) := by
        rw [byteLength_append, byteLength_cons, byteLength_nil, Nat.add_zero,
          Nat.max_eq_left (Char.utf8Size_pos c)]
      rw [termsFrom, dif_pos (lt_length_bytes hbyte), attach_bind_of_eq hbyte]
      dsimp only
      rw [if_neg (by rwa [hchars _ (by decide)]), htests _ readsBytes_isDigit, dif_neg hd,
        htests _ readsBytes_isSymbolStart, if_neg hs, htail, Option.bind_eq_bind, Option.bind_some]
      change termsFrom text (c :: pending) (byteLength before + max c.utf8Size 1) = _
      rw [hnext]
      refine ih (by rw [hl, List.append_assoc]; rfl) fun _ => ?_
      rw [endsTagged_append_singleton]
      simp

/-- The expression that a text is. -/
def parseExpr (text : List Char) : Option Expr := do
  return ⟨← termsFrom text [] 0⟩

lemma parseExpr_eq (text : List Char) : parseExpr text = some (Expr.parse text) := by
  have h : termsFrom text [] (byteLength []) = some (Expr.termsFrom [] false text) :=
    termsFrom_eq rfl fun _ => by simp [EndsTagged]
  rw [byteLength_nil] at h
  rw [parseExpr, h]
  rfl

end Checked

end Hermetic

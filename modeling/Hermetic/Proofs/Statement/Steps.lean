/-
How reading goes on, one step at a time.

The loops of the parser look at the outcome of a move before they go on.  Here they are equations in
which a step that fails is a computation that fails.

* `Statement.argumentsFrom_eq`, `Statement.modifiersFrom_eq`: arguments, and words before a
  mnemonic;
* `Statement.GoesOn`, `Statement.Part`: the characters that arguments go on with, and what starts
  there, with `Statement.GoesOn.argumentsFrom_comment` and others: one step for each;
* `Statement.allFrom_eq`: the statements of a text.
-/
import Hermetic.Statement.Parser
import Hermetic.Proofs.Source.Spacing

namespace Hermetic

namespace Cursor

variable {β : Type} (c : Cursor Char)

@[simp] lemma settle_ok (b : β) : settle (.ok b, c) = .ok (b, c) := rfl

@[simp] lemma settle_error (e : Error) : settle ((.error e : Except Error β), c) = .error e := rfl

end Cursor

namespace Statement

open Cursor

variable {arch : Arch}

/-- How the arguments go on, by the next character. -/
lemma argumentsFrom_eq (kept : List Char) (opened : List (Char × Span)) (c : Cursor Char) :
    argumentsFrom arch kept opened c =
      match c.peek with
      | none =>
        match opened with
        | [] => .ok ((kept.dropWhile Text.isBlank).reverse, c)
        | (bracket, span) :: _ => .error (.fault (.openAtEnd bracket) span)
      | some ch =>
        if ch = '\n' then
          match opened with
          | [] => .ok ((kept.dropWhile Text.isBlank).reverse, c)
          | (bracket, span) :: _ =>
            match kept.dropWhile Text.isBlank with
            | '\\' :: joined => argumentsFrom arch (' ' :: joined) opened c.bump
            | _ => .error (.fault (.openAtLineEnd bracket) span)
        else if opened.isEmpty && endsArguments arch c then
          .ok ((kept.dropWhile Text.isBlank).reverse, c)
        else if ch = '/' ∧ c.second? = some '*' then
          settle c.skipBlockComment >>= fun read => argumentsFrom arch (' ' :: kept) opened read.2
        else if ch = '"' then
          settle c.takeQuoted >>= fun read =>
            argumentsFrom arch (read.1.toList.reverse ++ kept) opened read.2
        else if ch = '(' ∨ ch = '[' ∨ ch = '{' then
          argumentsFrom arch (ch :: kept) ((ch, { c.here with len := 1 }) :: opened) c.bump
        else if ch = ')' ∨ ch = ']' ∨ ch = '}' then
          match opened with
          | (bracket, _) :: others =>
            if bracket = opening ch then argumentsFrom arch (ch :: kept) others c.bump
            else .error (.fault (.unmatched ch) { c.here with len := 1 })
          | [] => .error (.fault (.unmatched ch) { c.here with len := 1 })
        else argumentsFrom arch (ch :: kept) opened c.bump := by
  fun_cases argumentsFrom arch kept opened c with
  | case14 => simp_all
  | _ => simp [*, bind, Except.bind]

/-! ### Arguments, character by character -/

section Branches

variable {kept : List Char} {opened : List (Char × Span)} {c : Cursor Char} {ch : Char}
variable {r : List Char}

/-- Arguments at the end of the text. -/
lemma argumentsFrom_nil (hc : c.rest = []) :
    argumentsFrom arch kept opened c =
      match opened with
      | [] => .ok ((kept.dropWhile Text.isBlank).reverse, c)
      | (bracket, span) :: _ => .error (.fault (.openAtEnd bracket) span) := by
  rw [argumentsFrom_eq, peek, hc]
  rfl

/-- Arguments at the end of a line. -/
lemma argumentsFrom_newline (hc : c.rest = '\n' :: r) :
    argumentsFrom arch kept opened c =
      match opened with
      | [] => .ok ((kept.dropWhile Text.isBlank).reverse, c)
      | (bracket, span) :: _ =>
        match kept.dropWhile Text.isBlank with
        | '\\' :: joined => argumentsFrom arch (' ' :: joined) opened c.bump
        | _ => .error (.fault (.openAtLineEnd bracket) span) := by
  rw [argumentsFrom_eq, peek_of_rest hc]
  exact if_pos rfl

/-- Open arguments at the end of a line that a backslash joins with the next one. -/
lemma argumentsFrom_joined {joined : List Char} (opener : Char × Span)
    (others : List (Char × Span)) (hc : c.rest = '\n' :: r)
    (hkept : kept.dropWhile Text.isBlank = '\\' :: joined) :
    argumentsFrom arch kept (opener :: others) c =
      argumentsFrom arch (' ' :: joined) (opener :: others) c.bump := by
  rw [argumentsFrom_newline hc]
  simp only [hkept]

/-- Open arguments at the end of a line that nothing joins with the next one. -/
lemma argumentsFrom_openAtLineEnd (opener : Char × Span) (others : List (Char × Span))
    (hc : c.rest = '\n' :: r)
    (hkept : ¬ ∃ joined, kept.dropWhile Text.isBlank = '\\' :: joined) :
    argumentsFrom arch kept (opener :: others) c =
      .error (.fault (.openAtLineEnd opener.1) opener.2) := by
  rw [argumentsFrom_newline hc]
  dsimp only
  split
  · next joined hjoined => exact (hkept ⟨joined, hjoined⟩).elim
  · rfl

/-- Arguments that end within a line. -/
lemma argumentsFrom_ended (hc : c.rest = ch :: r) (hline : ch ≠ '\n')
    (hend : (opened.isEmpty && endsArguments arch c) = true) :
    argumentsFrom arch kept opened c = .ok ((kept.dropWhile Text.isBlank).reverse, c) := by
  rw [argumentsFrom_eq, peek_of_rest hc]
  dsimp only
  rw [if_neg hline, if_pos hend]

/-- A character that arguments go on with: neither the line nor the arguments end there. -/
structure GoesOn (arch : Arch) (opened : List (Char × Span)) (c : Cursor Char) (ch : Char)
    (r : List Char) : Prop where
  rest : c.rest = ch :: r
  line : ch ≠ '\n'
  going : ¬ (opened.isEmpty && endsArguments arch c) = true

/-- What starts with a character in front of others, within arguments. -/
inductive Part : Char → List Char → Prop
  | comment (r : List Char) : Part '/' ('*' :: r)
  | quote (r : List Char) : Part '"' r
  | opening {ch : Char} (r : List Char) : ch = '(' ∨ ch = '[' ∨ ch = '{' → Part ch r
  | closing {ch : Char} (r : List Char) : ch = ')' ∨ ch = ']' ∨ ch = '}' → Part ch r
  | other {ch : Char} {r : List Char} : ¬ (ch = '/' ∧ r.head? = some '*') → ch ≠ '"' →
      ¬ (ch = '(' ∨ ch = '[' ∨ ch = '{') → ¬ (ch = ')' ∨ ch = ']' ∨ ch = '}') → Part ch r

lemma Part.of (ch : Char) (r : List Char) : Part ch r := by
  by_cases hcomment : ch = '/' ∧ r.head? = some '*'
  · obtain ⟨rfl, hstar⟩ := hcomment
    obtain ⟨r, rfl⟩ := List.head?_eq_some_iff.mp hstar
    exact .comment r
  by_cases hquote : ch = '"'
  · exact hquote ▸ .quote r
  by_cases hopening : ch = '(' ∨ ch = '[' ∨ ch = '{'
  · exact .opening r hopening
  by_cases hclosing : ch = ')' ∨ ch = ']' ∨ ch = '}'
  · exact .closing r hclosing
  · exact .other hcomment hquote hopening hclosing

namespace GoesOn

lemma rest_ne_nil (h : GoesOn arch opened c ch r) : c.rest ≠ [] := by
  rw [h.rest]
  exact List.cons_ne_nil ch r

/-- The tests that are left of a character that arguments go on with. -/
lemma argumentsFrom_eq : GoesOn arch opened c ch r →
    argumentsFrom arch kept opened c =
      if ch = '/' ∧ r.head? = some '*' then
        settle c.skipBlockComment >>= fun read => argumentsFrom arch (' ' :: kept) opened read.2
      else if ch = '"' then
        settle c.takeQuoted >>= fun read =>
          argumentsFrom arch (read.1.toList.reverse ++ kept) opened read.2
      else if ch = '(' ∨ ch = '[' ∨ ch = '{' then
        argumentsFrom arch (ch :: kept) ((ch, { c.here with len := 1 }) :: opened) c.bump
      else if ch = ')' ∨ ch = ']' ∨ ch = '}' then
        match opened with
        | (bracket, _) :: others =>
          if bracket = Statement.opening ch then argumentsFrom arch (ch :: kept) others c.bump
          else .error (.fault (.unmatched ch) { c.here with len := 1 })
        | [] => .error (.fault (.unmatched ch) { c.here with len := 1 })
      else argumentsFrom arch (ch :: kept) opened c.bump := by
  intro h
  rw [Statement.argumentsFrom_eq, peek_of_rest h.rest]
  dsimp only
  rw [if_neg h.line, if_neg h.going, second?_of_rest h.rest]

lemma argumentsFrom_comment (h : GoesOn arch opened c '/' ('*' :: r)) :
    argumentsFrom arch kept opened c =
      settle c.skipBlockComment >>= fun read => argumentsFrom arch (' ' :: kept) opened read.2 := by
  rw [h.argumentsFrom_eq]
  exact if_pos ⟨rfl, rfl⟩

lemma argumentsFrom_quote (h : GoesOn arch opened c '"' r) :
    argumentsFrom arch kept opened c =
      settle c.takeQuoted >>= fun read =>
        argumentsFrom arch (read.1.toList.reverse ++ kept) opened read.2 := by
  rw [h.argumentsFrom_eq, if_neg fun hcomment => absurd hcomment.1 (by decide)]
  exact if_pos rfl

lemma argumentsFrom_opening (h : GoesOn arch opened c ch r)
    (hch : ch = '(' ∨ ch = '[' ∨ ch = '{') :
    argumentsFrom arch kept opened c =
      argumentsFrom arch (ch :: kept) ((ch, { c.here with len := 1 }) :: opened) c.bump := by
  obtain ⟨hslash, hquote⟩ : ch ≠ '/' ∧ ch ≠ '"' := by
    rcases hch with rfl | rfl | rfl <;> decide
  rw [h.argumentsFrom_eq, if_neg fun hcomment => hslash hcomment.1, if_neg hquote, if_pos hch]

lemma argumentsFrom_closing : GoesOn arch opened c ch r → ch = ')' ∨ ch = ']' ∨ ch = '}' →
    argumentsFrom arch kept opened c =
      match opened with
      | (bracket, _) :: others =>
        if bracket = Statement.opening ch then argumentsFrom arch (ch :: kept) others c.bump
        else .error (.fault (.unmatched ch) { c.here with len := 1 })
      | [] => .error (.fault (.unmatched ch) { c.here with len := 1 }) := by
  intro h hch
  obtain ⟨hslash, hquote, hopening⟩ :
      ch ≠ '/' ∧ ch ≠ '"' ∧ ¬ (ch = '(' ∨ ch = '[' ∨ ch = '{') := by
    rcases hch with rfl | rfl | rfl <;> decide
  rw [h.argumentsFrom_eq, if_neg fun hcomment => hslash hcomment.1, if_neg hquote,
    if_neg hopening, if_pos hch]

lemma argumentsFrom_other (h : GoesOn arch opened c ch r)
    (hcomment : ¬ (ch = '/' ∧ r.head? = some '*')) (hquote : ch ≠ '"')
    (hopening : ¬ (ch = '(' ∨ ch = '[' ∨ ch = '{'))
    (hclosing : ¬ (ch = ')' ∨ ch = ']' ∨ ch = '}')) :
    argumentsFrom arch kept opened c = argumentsFrom arch (ch :: kept) opened c.bump := by
  rw [h.argumentsFrom_eq, if_neg hcomment, if_neg hquote, if_neg hopening, if_neg hclosing]

end GoesOn

end Branches

/-! ### Words and statements -/

/-- How the words before a mnemonic go on, by the next of them. -/
lemma modifiersFrom_eq (word : String) (c : Cursor Char) :
    modifiersFrom word c =
      if word.toLower ∈ modifierWords then
        settle c.skipSpace >>= fun read =>
          if mnemonicLength read.2 = 0 then .ok ([], word, c)
          else
            modifiersFrom (read.2.take (mnemonicLength read.2)).1
                (read.2.skip (mnemonicLength read.2)) >>= fun more =>
              .ok (word :: more.1, more.2.1, more.2.2)
      else .ok ([], word, c) := by
  fun_cases modifiersFrom word c with
  | _ => simp [*, pure, Except.pure, bind, Except.bind]

lemma reaches_of_mnemonic {c d : Cursor Char} {words : List String} {name : String}
    (h : mnemonic arch c = .ok (words, name, d)) : c.Reaches d := by
  cases arch with
  | x86_64 => exact (reaches_skip _ c).trans (reaches_of_modifiersFrom h)
  | aarch64 =>
      cases h
      exact reaches_skip _ c

/-- How the statements of a text go on, by the next of them. -/
lemma allFrom_eq (read : List Statement) (c : Cursor Char) :
    allFrom arch read c =
      if c.rest = [] then .ok read.reverse
      else ofCursor arch c >>= fun next => allFrom arch (next.1 :: read) next.2 := by
  fun_cases allFrom arch read c with
  | _ => simp [*, bind, Except.bind]

end Statement

end Hermetic

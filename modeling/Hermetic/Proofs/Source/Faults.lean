/-
Where reading fails.

The span of a fault is counted on from a cursor, and a cursor that has only moved forwards knows its
line and column.

* `Span.Agrees`: the line and the column of a span are those of its first byte, with
  `Span.agrees_of_after`: they are if they are counted on from a place along one line;
* `Span.Marks`: the spans that start at a cursor in a text and end within the text;
* `Outcome.FailsWith`: what is known of the error of a computation that fails;
* `Cursor.failsWith_skipSpace`, `Cursor.failsWith_skipBlockComment`,
  `Cursor.failsWith_takeQuoted`: comments and strings that do not end are marked.
-/
import Hermetic.Proofs.Source.Position

namespace Hermetic

/-! ### Bytes of a text -/

namespace Text

lemma takeBytes_append (l r : List Char) (k : ℕ) :
    takeBytes (byteLength l + k) (l ++ r) = l ++ takeBytes k r := by
  induction l with
  | nil => rw [byteLength_nil, Nat.zero_add, List.nil_append, List.nil_append]
  | cons c l ih =>
      obtain ⟨j, hj⟩ := Nat.exists_eq_succ_of_ne_zero
        (Nat.pos_iff_ne_zero.mp (Char.utf8Size_pos c))
      have hn : byteLength (c :: l) + k = (j + byteLength l + k) + 1 := by
        rw [byteLength_cons, hj]
        omega
      have hsub : j + byteLength l + k + 1 - c.utf8Size = byteLength l + k := by
        omega
      rw [hn, List.cons_append, takeBytes, hsub, ih, List.cons_append]

lemma takeBytes_prefix (n : ℕ) (l : List Char) : takeBytes n l <+: l :=
  ⟨_, takeBytes_append_dropBytes n l⟩

/-- A line goes on where no line feed is added. -/
lemma lastLine_append (l : List Char) {r : List Char} (h : '\n' ∉ r) :
    lastLine (l ++ r) = lastLine l ++ r := by
  have hr : ∀ c ∈ r.reverse, (c != '\n') = true := by
    intro c hc
    rw [bne_iff_ne]
    rintro rfl
    exact h (List.mem_reverse.mp hc)
  rw [lastLine, List.reverse_append, List.takeWhile_append_of_pos hr, List.reverse_append,
    List.reverse_reverse]
  rfl

lemma byteLength_lastLine_le (l : List Char) : byteLength (lastLine l) ≤ byteLength l := by
  have h := Position.lineStart_after l
  rw [Position.offset_after] at h
  change _ = 0 + byteLength l at h
  omega

/-- The number of bytes before the line on which a byte stands. -/
def lineStart (text : List Char) (n : ℕ) : ℕ :=
  byteLength (takeBytes n text) - byteLength (lastLine (takeBytes n text))

/-- The text of some bytes of a text, after others. -/
def slice (text : List Char) (offset len : ℕ) : List Char :=
  takeBytes len (dropBytes offset text)

end Text

open Text

/-! ### Spans -/

namespace Span

/-- The line and the column of a span are those of its first byte. -/
structure Agrees (text : List Char) (s : Span) : Prop where
  line : s.line = (takeBytes s.offset text).count '\n' + 1
  col : s.col = s.offset - lineStart text s.offset + 1

/-- A span that lies some bytes after a place, in the same line. -/
lemma agrees_of_after {before rest : List Char} {k : ℕ} (h : '\n' ∉ takeBytes k rest) (len : ℕ) :
    Agrees (before ++ rest) ⟨(Position.after {} before).span.line,
      (Position.after {} before).span.col + k, (Position.after {} before).span.offset + k,
      len⟩ := by
  have hoffset : (Position.after {} before).span.offset = byteLength before := by
    change (Position.after {} before).offset = _
    rw [Position.offset_after]
    exact Nat.zero_add _
  have hcol : (Position.after {} before).span.col = byteLength (lastLine before) + 1 :=
    congrArg (· + 1) (Position.offset_after_sub_lineStart before)
  have hline : (Position.after {} before).span.line = before.count '\n' + 1 := by
    change (Position.after {} before).line = _
    rw [Position.line_after, Nat.add_comm]
  have htake := takeBytes_append before rest k
  rw [hoffset, hcol, hline]
  constructor
  · dsimp only
    rw [htake, List.count_append, List.count_eq_zero_of_not_mem h, Nat.add_zero]
  · have hle := byteLength_lastLine_le before
    dsimp only
    rw [lineStart, htake, lastLine_append before h, byteLength_append, byteLength_append]
    omega

end Span

/-! ### Spans at cursors -/

/-- A span starts where a cursor stands in a text, and ends within the text. -/
def Span.Marks (text : List Char) (s : Span) : Prop :=
  ∃ c : Cursor Char, c.StandsIn text ∧ s = { c.here with len := s.len } ∧
    s.len ≤ byteLength c.rest

namespace Cursor

variable {text : List Char} {c : Cursor Char}

lemma StandsIn.marks (h : c.StandsIn text) {len : ℕ} (hlen : len ≤ byteLength c.rest) :
    Span.Marks text { c.here with len } :=
  ⟨c, h, rfl, hlen⟩

/-- The span of one byte at a cursor that is not at the end. -/
lemma StandsIn.marks_one (h : c.StandsIn text) (hne : c.rest ≠ []) :
    Span.Marks text { c.here with len := 1 } := by
  obtain ⟨u, r, hr⟩ := List.exists_cons_of_ne_nil hne
  have hpos := Char.utf8Size_pos u
  refine h.marks ?_
  rw [hr, byteLength_cons]
  omega

end Cursor

namespace Span.Marks

variable {text : List Char} {s : Span}

lemma offset_add_len_le (h : s.Marks text) : s.offset + s.len ≤ byteLength text := by
  obtain ⟨c, hc, hs, hlen⟩ := h
  have hoffset : s.offset = c.position.offset := by
    rw [hs]
    rfl
  have htotal := hc.offset_add
  omega

lemma agrees (h : s.Marks text) : s.Agrees text := by
  obtain ⟨c, ⟨before, hbefore⟩, hs, -⟩ := h
  have hrest : text = before ++ c.rest := hbefore.rest
  rw [hs, hrest, Cursor.here, hbefore.position]
  exact agrees_of_after (k := 0) (by cases c.rest <;> exact List.not_mem_nil) s.len

end Span.Marks

/-! ### Computations that fail -/

namespace Outcome

variable {α β ε : Type} {P : ε → Prop}

/-- A computation that fails does so with an error of some kind. -/
def FailsWith (P : ε → Prop) (x : Except ε α) : Prop :=
  ∀ e, x = .error e → P e

lemma FailsWith.ok (a : α) : FailsWith P (.ok a) :=
  fun _ h => nomatch h

lemma FailsWith.error {e : ε} (h : P e) : FailsWith P (.error e : Except ε α) := by
  rintro _ ⟨⟩
  exact h

lemma FailsWith.bind {x : Except ε α} {f : α → Except ε β} (hx : FailsWith P x)
    (hf : ∀ a, x = .ok a → FailsWith P (f a)) : FailsWith P (x >>= f) := by
  cases x with
  | error e => exact .error (hx e rfl)
  | ok a => exact hf a rfl

lemma FailsWith.map {x : Except ε α} (hx : FailsWith P x) (f : α → β) : FailsWith P (x.map f) := by
  cases x with
  | error e => exact .error (hx e rfl)
  | ok a => exact .ok _

lemma FailsWith.mapError {ε' : Type} {Q : ε' → Prop} {x : Except ε' α} (hx : FailsWith Q x)
    {f : ε' → ε} (h : ∀ e, Q e → P (f e)) : FailsWith P (x.mapError f) := by
  cases x with
  | error e => exact .error (h e (hx e rfl))
  | ok a => exact .ok _

lemma FailsWith.mono {Q : ε → Prop} {x : Except ε α} (hx : FailsWith P x)
    (h : ∀ e, P e → Q e) : FailsWith Q x :=
  fun e he => h e (hx e he)

lemma FailsWith.mapM {f : α → Except ε β} {l : List α} (h : ∀ a ∈ l, FailsWith P (f a)) :
    FailsWith P (l.mapM f) := by
  induction l with
  | nil => exact .ok _
  | cons a l ih =>
      obtain ⟨ha, hl⟩ := List.forall_mem_cons.mp h
      rw [List.mapM_cons]
      exact ha.bind fun _ _ => (ih hl).bind fun _ _ => .ok _

end Outcome

/-! ### Faults of comments and strings -/

/-- Whether a fault is one of an operand. -/
def SyntaxFault.isOfOperand : SyntaxFault → Bool
  | emptyOperand _ | malformed .. | strayInOperand .. => true
  | _ => false

/-- A fault that is not one of an operand is marked in a text. -/
def Error.MarkedIn (text : List Char) : Error → Prop
  | .malformed fault site => fault.isOfOperand = false ∧ site.span.Marks text
  | _ => True

namespace Cursor

open Outcome

variable {text : List Char} {c : Cursor Char}

lemma openComment_markedIn (h : c.StandsIn text) {r : List Char} (hc : c.rest = '/' :: '*' :: r) :
    c.openComment.MarkedIn text := by
  refine ⟨rfl, h.marks ?_⟩
  rw [hc, byteLength_cons, byteLength_cons, ← Nat.add_assoc]
  exact Nat.le_add_right 2 _

/-- A comment that does not end was open before, or starts in the text. -/
lemma opened_of_blankRun {n k : ℕ} {opened : Option ℕ} {l : List Char}
    (h : blankRun n opened l = .error k) :
    opened = some k ∨ ∃ m r, k = n + m ∧ l.drop m = '/' :: '*' :: r := by
  have hlater {n i : ℕ} {l : List Char}
      (h : ∃ m r, k = n + i + m ∧ (l.drop i).drop m = '/' :: '*' :: r) :
      ∃ m r, k = n + m ∧ l.drop m = '/' :: '*' :: r := by
    obtain ⟨m, r, hk, hr⟩ := h
    refine ⟨i + m, r, by omega, ?_⟩
    rwa [List.drop_drop] at hr
  fun_induction blankRun n opened l with
  | case1 n j | case3 n u j =>
      cases h
      exact .inl rfl
  | case2 | case4 | case9 => cases h
  | case5 n u v r j hend ih =>
      exact .inr (hlater (i := 2) ((ih h).resolve_left (nomatch ·)))
  | case6 n u v r j hend ih => exact (ih h).imp_right (hlater (i := 1))
  | case7 n u v r hopen ih =>
      obtain ⟨rfl, rfl⟩ : u = '/' ∧ v = '*' := hopen
      rcases ih h with hk | hk
      · cases hk
        exact .inr ⟨0, r, rfl, rfl⟩
      · exact .inr (hlater (i := 2) hk)
  | case8 n u v r hopen hspace ih =>
      exact .inr (hlater (i := 1) ((ih h).resolve_left (nomatch ·)))

lemma failsWith_skipSpace (h : c.StandsIn text) :
    FailsWith (Error.MarkedIn text) (settle c.skipSpace) := by
  unfold skipSpace
  split
  · exact .ok _
  · next n hn =>
      obtain ⟨m, r, rfl, hr⟩ := (opened_of_blankRun hn).resolve_left (nomatch ·)
      rw [Nat.zero_add]
      exact .error (openComment_markedIn (h.skip m) (by rw [rest_skip, hr]))

lemma failsWith_skipBlockComment (h : c.StandsIn text) {r : List Char}
    (hc : c.rest = '/' :: '*' :: r) :
    FailsWith (Error.MarkedIn text) (settle c.skipBlockComment) := by
  unfold skipBlockComment
  split
  · exact .ok _
  · exact .error (openComment_markedIn h hc)

lemma failsWith_takeQuoted (h : c.StandsIn text) (hc : c.rest ≠ []) :
    FailsWith (Error.MarkedIn text) (settle c.takeQuoted) := by
  unfold takeQuoted
  split
  · exact .ok _
  · next n hn =>
      obtain ⟨l, hl⟩ := (reaches_skip n c).between
      obtain ⟨u, r, hr⟩ := List.exists_cons_of_ne_nil hc
      have hpos := Char.utf8Size_pos u
      have htotal : byteLength c.rest = byteLength l + byteLength (c.skip n).rest := by
        rw [hl.rest, byteLength_append]
      have hone : 1 ≤ byteLength c.rest := by
        rw [hr, byteLength_cons]
        omega
      refine .error ⟨rfl, h.marks ?_⟩
      rw [hl.len_spanTo]
      omega

end Cursor

end Hermetic

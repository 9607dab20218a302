/-
What a cursor knows of its place.

A cursor in the bytes of a text counts bytes and lines as it goes on, and takes its place back from
a mark.  Whatever is asked of it, and also where that fails, its place is the one that the bytes
before it tell.

* `Text.LastLineStart`: where the last line of some bytes starts;
* `Position.Tracks`: the places whose line and line start are told by the bytes before them, with
  `Position.Tracks.step`: the place one byte further on is one of them again;
* `Cursor.reaches_skipSpace`, `Cursor.Reaches.offset_le` and others: moves lead on, and never back;
* `Cursor.StandsInBytes`: the cursors in the bytes of a text, with
  `Cursor.StandsInBytes.of_reaches`: those that they lead to;
* `Session.Operation`, `Session.afterAll`: the requests of a session, and bytes taken by any test;
* `Session.Advances`, `Session.advances_after`: what operations do that go back to no mark;
* `Session.afterAll_tracks`: after all operations the cursor knows its place;
* `Session.afterAll_within`: it does so with a line counter of 32 bits, unless too many lines end.
-/
import Hermetic.Source.Session
import Hermetic.Proofs.Checked.Cursor

namespace Hermetic

open SourceUnit

/-! ### Lines of bytes -/

namespace Text

/-- The byte that ends a line. -/
def lineFeed : UInt8 := 10

lemma char_eq_newline_iff {b : UInt8} : char b = '\n' ↔ b = lineFeed := by
  rw [← Char.toNat_inj, Checked.toNat_char, ← UInt8.toNat_inj]
  rfl

/-- Where the last line of some bytes starts: with the first of them if none ends a line, and
otherwise one past the last that does. -/
inductive LastLineStart : List UInt8 → ℕ → Prop
  | first {l : List UInt8} : lineFeed ∉ l → LastLineStart l 0
  | past (l : List UInt8) {r : List UInt8} : lineFeed ∉ r →
      LastLineStart (l ++ lineFeed :: r) (l.length + 1)

lemma lastLineStart_append_lineFeed (l : List UInt8) :
    LastLineStart (l ++ [lineFeed]) (l.length + 1) :=
  .past l List.not_mem_nil

/-- A line goes on with a byte that does not end it. -/
lemma LastLineStart.append {l : List UInt8} {n : ℕ} (h : LastLineStart l n) {b : UInt8}
    (hb : b ≠ lineFeed) : LastLineStart (l ++ [b]) n := by
  have hnot {r : List UInt8} (hr : lineFeed ∉ r) : lineFeed ∉ r ++ [b] := by
    rw [List.mem_append, List.mem_singleton, not_or]
    exact ⟨hr, hb.symm⟩
  cases h with
  | first hl => exact .first (hnot hl)
  | past l hr =>
      rw [List.append_assoc]
      exact .past l (hnot hr)

end Text

open Text

/-! ### Places -/

namespace Position

/-- A place in a text of bytes with the line, and the start of that line, which the bytes before it
tell. -/
structure Tracks (bytes : List UInt8) (p : Position) : Prop where
  offset_le : p.offset ≤ bytes.length
  line_eq : p.line = 1 + (bytes.take p.offset).count lineFeed
  lineStart : LastLineStart (bytes.take p.offset) p.lineStart

variable {bytes : List UInt8} {p : Position}

lemma tracks_start (bytes : List UInt8) : Tracks bytes {} :=
  ⟨Nat.zero_le _, rfl, .first List.not_mem_nil⟩

/-- The number of a line has 32 bits if the text has too few lines for more. -/
lemma Tracks.line_lt (h : p.Tracks bytes) (hlines : bytes.count lineFeed < 2 ^ 32 - 1) :
    p.line < 2 ^ 32 := by
  have hcount := (List.take_sublist p.offset bytes).count_le lineFeed
  rw [h.line_eq]
  omega

lemma offset_step_unit {α : Type} [SourceUnit α] (p : Position) (u : α) :
    (p.step u).offset = p.offset + width u := by
  unfold step
  dsimp only
  split <;> rfl

/-- The place after the next byte. -/
lemma Tracks.step (h : p.Tracks bytes) {b : UInt8} {r : List UInt8}
    (hrest : bytes.drop p.offset = b :: r) : (p.step b).Tracks bytes := by
  have hget : bytes[p.offset]? = some b := by rw [← List.head?_drop, hrest, List.head?_cons]
  have hle : p.offset + 1 ≤ bytes.length := (List.getElem?_eq_some_iff.mp hget).1
  have htake : bytes.take (p.offset + 1) = bytes.take p.offset ++ [b] := by
    rw [List.take_add_one, hget, Option.toList_some]
  by_cases hb : b = lineFeed
  · have hstep : p.step b = ⟨p.offset + 1, p.line + 1, p.offset + 1⟩ :=
      if_pos (char_eq_newline_iff.mpr hb)
    have hstart := lastLineStart_append_lineFeed (bytes.take p.offset)
    rw [List.length_take_of_le h.offset_le, ← hb, ← htake] at hstart
    rw [hstep]
    refine ⟨hle, ?_, hstart⟩
    dsimp only
    rw [htake, hb, List.count_append, List.count_singleton_self, h.line_eq, Nat.add_assoc]
  · have hstep : p.step b = ⟨p.offset + 1, p.line, p.lineStart⟩ :=
      if_neg fun hnewline => hb (char_eq_newline_iff.mp hnewline)
    have hstart := h.lineStart.append hb
    rw [← htake] at hstart
    rw [hstep]
    refine ⟨hle, ?_, hstart⟩
    dsimp only
    rw [htake, List.count_append, List.count_singleton, beq_false_of_ne hb, h.line_eq]
    rfl

end Position

/-! ### Moves, also those that fail -/

namespace Cursor

section Moves

variable {α : Type} [SourceUnit α] (c : Cursor α)

lemma reaches_takeWhile (p : Char → Bool) : c.Reaches (c.takeWhile p).2 :=
  reaches_skip _ c

lemma reaches_eat [BEq α] (text : String) : c.Reaches (c.eat text).2 := by
  unfold eat
  dsimp only
  split
  · exact reaches_skip _ c
  · exact .refl c

lemma reaches_skipSpace : c.Reaches c.skipSpace.2 := by
  unfold skipSpace
  split <;> exact reaches_skip _ c

lemma reaches_skipBlockComment : c.Reaches c.skipBlockComment.2 := by
  unfold skipBlockComment
  split <;> exact reaches_skip _ c

lemma reaches_takeQuoted : c.Reaches c.takeQuoted.2 := by
  unfold takeQuoted
  split <;> exact reaches_skip _ c

lemma offset_le_bump : c.position.offset ≤ c.bump.position.offset := by
  unfold bump
  split
  · exact Nat.le_refl _
  · dsimp only
    rw [Position.offset_step_unit]
    exact Nat.le_add_right _ _

variable {c} {d : Cursor α}

/-- Going on never leads back. -/
lemma Reaches.offset_le (hcd : c.Reaches d) : c.position.offset ≤ d.position.offset := by
  obtain ⟨n, rfl⟩ := hcd
  induction n generalizing c with
  | zero => exact Nat.le_refl _
  | succ n ih => exact Nat.le_trans (offset_le_bump c) ih

end Moves

/-- The number of leading bytes that pass a test, which is told what it was asked before. -/
def countTested (test : List UInt8 → UInt8 → Bool) (before : List UInt8) : List UInt8 → ℕ
  | [] => 0
  | b :: l => if test before b then countTested test (before ++ [b]) l + 1 else 0

/-- A test that is not told what came before counts as it does in the text. -/
lemma countTested_eq_countWhile (p : Char → Bool) (before l : List UInt8) :
    countTested (fun _ b => p (char b)) before l = countWhile p l := by
  induction l generalizing before with
  | nil => rfl
  | cons b l ih =>
      rw [countTested, ih, countWhile, countWhile, List.takeWhile_cons]
      cases p (char b) <;> rfl

/-! ### Cursors in bytes -/

/-- A cursor in a text of bytes: its place is in the text, and what is left of the text comes
next. -/
structure StandsInBytes (bytes : List UInt8) (c : Cursor UInt8) : Prop where
  position : c.position.Tracks bytes
  rest : c.rest = bytes.drop c.position.offset

variable {bytes : List UInt8} {c d : Cursor UInt8}

lemma standsInBytes_ofString (text : String) :
    (ofString text : Cursor UInt8).StandsInBytes (Utf8.encode text) :=
  ⟨Position.tracks_start _, rfl⟩

lemma StandsInBytes.bump (h : c.StandsInBytes bytes) : c.bump.StandsInBytes bytes := by
  unfold Cursor.bump
  split
  · exact h
  · next b r hc =>
      have hdrop : bytes.drop c.position.offset = b :: r := h.rest.symm.trans hc
      refine ⟨h.position.step hdrop, ?_⟩
      have hoffset : (c.position.step b).offset = c.position.offset + 1 :=
        Position.offset_step_unit c.position b
      dsimp only
      rw [hoffset, ← List.tail_drop, hdrop, List.tail_cons]

lemma StandsInBytes.of_reaches (h : c.StandsInBytes bytes) (hcd : c.Reaches d) :
    d.StandsInBytes bytes := by
  obtain ⟨n, rfl⟩ := hcd
  induction n generalizing c with
  | zero => exact h
  | succ n ih => exact ih h.bump

end Cursor

/-! ### Lines in 32 bits -/

namespace Checked

variable {bytes : List UInt8} {c : Cursor UInt8}

lemma bump_eq_of_standsInBytes (h : c.StandsInBytes bytes)
    (hlines : bytes.count lineFeed < 2 ^ 32 - 1) : bump c = some c.bump := by
  have hline := h.bump.position.line_lt hlines
  obtain ⟨rest, position⟩ := c
  cases rest with
  | nil => rfl
  | cons b r =>
      have hbump : (⟨b :: r, position⟩ : Cursor UInt8).bump = ⟨r, position.step b⟩ := rfl
      rw [hbump] at hline ⊢
      rw [bump]
      dsimp only
      by_cases hb : char b = '\n'
      · have hstep : position.step b = ⟨position.offset + 1, position.line + 1,
            position.offset + 1⟩ := if_pos hb
        have hadd : position.line + 1 < 2 ^ 32 := by simpa only [hstep] using hline
        rw [if_pos hb, add_eq hadd, hstep]
        rfl
      · have hstep : position.step b = ⟨position.offset + 1, position.line,
            position.lineStart⟩ := if_neg hb
        rw [if_neg hb, hstep]

/-- A cursor in a text of not too many lines goes on with a counter of 32 bits. -/
lemma skip_eq_of_standsInBytes (h : c.StandsInBytes bytes)
    (hlines : bytes.count lineFeed < 2 ^ 32 - 1) (n : ℕ) : skip n c = some (c.skip n) := by
  induction n generalizing c with
  | zero => rfl
  | succ n ih =>
      rw [skip, bump_eq_of_standsInBytes h hlines]
      exact ih h.bump

end Checked

/-! ### Sessions -/

namespace Session

/-- What may be done in a session: a request, or going past the bytes that pass a test. -/
inductive Operation
  | request (request : Request)
  | takeWhile (test : List UInt8 → UInt8 → Bool)

/-- The session after an operation, whether or not that succeeds. -/
def after (s : Session) : Operation → Session
  | .request request => (s.step request).2
  | .takeWhile test =>
    { s with cursor := s.cursor.skip (Cursor.countTested test [] s.cursor.rest) }

/-- The session after the operations of a list. -/
def afterAll (s : Session) (operations : List Operation) : Session :=
  operations.foldl after s

/-- Taking bytes is what the requests do that take symbols, digits and the like. -/
lemma after_takeWhile (s : Session) (p : Char → Bool) :
    s.after (.takeWhile fun _ b => p (char b)) = { s with cursor := (s.cursor.takeWhile p).2 } := by
  rw [after, Cursor.countTested_eq_countWhile]
  rfl

/-- A session goes on: its cursor goes on, and no mark is made but at the cursor. -/
structure Advances (s t : Session) : Prop where
  cursor : s.cursor.Reaches t.cursor
  marks : ∀ c ∈ t.marks, c = s.cursor ∨ c ∈ s.marks

variable {s t : Session}

lemma Advances.of_reaches {c : Cursor UInt8} (h : s.cursor.Reaches c) :
    s.Advances { s with cursor := c } :=
  ⟨h, fun _ => .inr⟩

lemma Advances.refl (s : Session) : s.Advances s :=
  .of_reaches (.refl _)

/-- A session goes on unless it is reset. -/
lemma advances_step {request : Request} (h : ∀ mark, request ≠ .reset mark) :
    s.Advances (s.step request).2 := by
  cases request with
  | bump => exact .of_reaches (Cursor.reaches_bump _)
  | eat text => exact .of_reaches (Cursor.reaches_eat _ text)
  | mark =>
      refine ⟨.refl _, fun c hc => ?_⟩
      have hc : c ∈ s.marks ++ [s.cursor] := hc
      rw [List.mem_append, List.mem_singleton] at hc
      exact hc.symm
  | reset mark => exact absurd rfl (h mark)
  | takeSymbol | takeDigits | takeUntil | takeLine =>
      exact .of_reaches (Cursor.reaches_takeWhile _ _)
  | skipSpace => exact .of_reaches (Cursor.reaches_skipSpace _)
  | skipBlockComment => exact .of_reaches (Cursor.reaches_skipBlockComment _)
  | takeQuoted => exact .of_reaches (Cursor.reaches_takeQuoted _)
  | _ => exact .refl s

lemma advances_after {operation : Operation}
    (h : ∀ mark, operation ≠ .request (.reset mark)) : s.Advances (s.after operation) := by
  cases operation with
  | request request => exact advances_step fun mark hreset => h mark (congrArg _ hreset)
  | takeWhile test => exact .of_reaches (Cursor.reaches_skip _ _)

/-- The cursor of a session and all that were marked stand in a text. -/
def StandsIn (bytes : List UInt8) (s : Session) : Prop :=
  ∀ c, c = s.cursor ∨ c ∈ s.marks → c.StandsInBytes bytes

variable {bytes : List UInt8}

lemma standsIn_ofString (text : String) : (ofString text).StandsIn (Utf8.encode text) := by
  rintro c (rfl | hc)
  · exact Cursor.standsInBytes_ofString text
  · cases hc

lemma StandsIn.of_advances (h : s.StandsIn bytes) (hst : s.Advances t) : t.StandsIn bytes := by
  rintro c (rfl | hc)
  · exact (h _ (.inl rfl)).of_reaches hst.cursor
  · exact h c (hst.marks c hc)

/-- A session that is reset has its cursor where it was marked, or where it was. -/
lemma StandsIn.reset (h : s.StandsIn bytes) (mark : ℕ) :
    (s.step (.reset mark)).2.StandsIn bytes := by
  have hmark : (s.marks[mark]?).getD s.cursor = s.cursor ∨
      (s.marks[mark]?).getD s.cursor ∈ s.marks := by
    cases hget : s.marks[mark]? with
    | none => exact .inl rfl
    | some c => exact .inr (List.mem_of_getElem? hget)
  rintro c (rfl | hc)
  · exact h _ hmark
  · exact h c (.inr hc)

lemma StandsIn.after (h : s.StandsIn bytes) (operation : Operation) :
    (s.after operation).StandsIn bytes := by
  by_cases hreset : ∃ mark, operation = .request (.reset mark)
  · obtain ⟨mark, rfl⟩ := hreset
    exact h.reset mark
  · exact h.of_advances (advances_after (not_exists.mp hreset))

lemma StandsIn.afterAll (h : s.StandsIn bytes) (operations : List Operation) :
    (s.afterAll operations).StandsIn bytes := by
  induction operations generalizing s with
  | nil => exact h
  | cons operation operations ih => exact ih (h.after operation)

/-- The cursor of a session knows its place after all that may be done, also where that failed, and
goes back only if it is reset to a mark. -/
theorem afterAll_tracks (text : String) (operations : List Operation) :
    let s := (ofString text).afterAll operations
    s.cursor.StandsInBytes (Utf8.encode text) ∧
      ∀ operation, (∀ mark, operation ≠ .request (.reset mark)) →
        s.cursor.position.offset ≤ (s.after operation).cursor.position.offset := by
  intro s
  have hs : s.StandsIn (Utf8.encode text) := (standsIn_ofString text).afterAll operations
  exact ⟨hs _ (.inl rfl), fun operation h => (advances_after h).cursor.offset_le⟩

/-- A comment that does not end is gone into, after a mark and the end of a line. -/
theorem afterAll_tracks_openComment :
    let text := "a\n/* b\nc"
    let operations : List Operation :=
      [.request .bump, .request .mark, .takeWhile fun before _ => before.isEmpty,
        .request .skipSpace]
    let s := (ofString text).afterAll operations
    s.cursor.position = ⟨8, 3, 7⟩ ∧ s.cursor.StandsInBytes (Utf8.encode text) ∧
      (∀ mark, Operation.request .takeQuoted ≠ .request (.reset mark)) ∧
      s.cursor.position.offset ≤ (s.after (.request .takeQuoted)).cursor.position.offset ∧
      (s.after (.request (.reset 0))).cursor.position = ⟨1, 1, 0⟩ := by
  intro text operations s
  have hquoted : ∀ mark, Operation.request .takeQuoted ≠ .request (.reset mark) := nofun
  obtain ⟨hcursor, hadvances⟩ := afterAll_tracks text operations
  exact ⟨by decide +kernel, hcursor, hquoted, hadvances _ hquoted, by decide +kernel⟩

/-- In a text in which fewer than 2^32 - 1 lines end, the number of a line has 32 bits after all
that may be done, and whatever is done next but going back is a move with a counter of 32 bits. -/
theorem afterAll_within {text : String}
    (hlines : (Utf8.encode text).count lineFeed < 2 ^ 32 - 1) (operations : List Operation) :
    let s := (ofString text).afterAll operations
    s.cursor.position.line < 2 ^ 32 ∧
      ∀ operation, (∀ mark, operation ≠ .request (.reset mark)) →
        ∃ n, Checked.skip n s.cursor = some (s.after operation).cursor := by
  intro s
  have hs : s.cursor.StandsInBytes (Utf8.encode text) :=
    (standsIn_ofString text).afterAll operations _ (.inl rfl)
  refine ⟨hs.position.line_lt hlines, fun operation h => ?_⟩
  obtain ⟨n, hn⟩ := (advances_after h).cursor
  exact ⟨n, (Checked.skip_eq_of_standsInBytes hs hlines n).trans (congrArg some hn.symm)⟩

end Session

end Hermetic

/-
Pieces cut out of a text by the indices of its bytes.

An index goes on by single bytes, and by two after a backslash, so that it may lie within a
character.  Wherever the text is cut, it lies between characters.

* `Checked.trimPiece`, `Checked.split`: the pieces between the commas of a text;
* `Checked.splitFrom_eq`, `Checked.split_eq`: they are those that are cut out of its characters;
* `Checked.exists_append_of_mem_split`, `Checked.tailFrom_of_mem_split`: a piece stands between two
  texts, and the text may be cut where it starts.
-/
import Hermetic.Proofs.Checked.Bounds
import Hermetic.Proofs.Operand.Indexed

namespace Hermetic

open Text (byteLength byteLength_nil byteLength_cons byteLength_append)
open SourceUnit (char)

namespace Checked

variable {l before cur rest : List Char} {u : Char} {i : ℕ}

/-! ### Pieces -/

/-- The part of a text between two bytes, without the blanks around it. -/
def trimPiece (l : List Char) (start stop : ℕ) : Option Piece := do
  let piece ← slice l start stop
  let lead ← sub (byteLength piece) (byteLength (Text.trimStart piece))
  return ⟨start + lead, Text.trim piece⟩

/-- The pieces of a text of which the first starts at one byte, from another byte on.  `depth`
counts the brackets that are open, and `quoted` tells whether a string is. -/
def splitFrom (l : List Char) (depth : Int) (quoted : Bool) (start i : ℕ) :
    Option (List Piece) :=
  if _h : i < (bytes l).length then do
    let b ← byteAt l i
    if quoted then
      if b = '\\' then splitFrom l depth true start (i + 2)
      else splitFrom l depth (b ≠ '"') start (i + 1)
    else if b = ',' ∧ depth = 0 then
      let piece ← trimPiece l start i
      return piece :: (← splitFrom l depth false (i + 1) (i + 1))
    else if b = '(' ∨ b = '[' ∨ b = '{' then
      splitFrom l (← shift depth 1) false start (i + 1)
    else if b = ')' ∨ b = ']' ∨ b = '}' then
      splitFrom l (← shift depth (-1)) false start (i + 1)
    else splitFrom l depth (b = '"') start (i + 1)
  else do return [← trimPiece l start (bytes l).length]
termination_by (bytes l).length - i
decreasing_by all_goals omega

/-- The pieces between the commas of a text. -/
def split (l : List Char) : Option (List Piece) :=
  if l.all Text.isBlank then some [] else splitFrom l 0 false 0 0

lemma trimPiece_append (before cut after : List Char) :
    trimPiece (before ++ cut ++ after) (byteLength before) (byteLength before + byteLength cut) =
      some (Piece.ofCut (byteLength before) cut) := by
  have hlength : byteLength cut =
      byteLength (Text.trimStart cut) + byteLength (cut.takeWhile Text.isBlank) := by
    nth_rewrite 1 [← List.takeWhile_append_dropWhile (p := Text.isBlank) (l := cut)]
    rw [byteLength_append, Nat.add_comm]
    rfl
  simp only [trimPiece, slice_append, Option.bind_eq_bind, Option.bind_some]
  rw [hlength, sub_add_left]
  rfl

lemma trimPiece_length (before cut : List Char) :
    trimPiece (before ++ cut) (byteLength before) (bytes (before ++ cut)).length =
      some (Piece.ofCut (byteLength before) cut) := by
  have h := trimPiece_append before cut []
  rwa [List.append_nil, ← byteLength_append, ← length_bytes (before ++ cut)] at h

lemma splitFrom_of_isWide {b : UInt8} (hb : IsWide b) (h : byteAt l i = some (char b))
    (depth : Int) (quoted : Bool) (start : ℕ) :
    splitFrom l depth quoted start i = splitFrom l depth quoted start (i + 1) := by
  have hne {c : Char} (hc : IsNarrow c) : ¬ char b = c := hb.char_ne hc
  have hquote : ¬ char b = '"' := hne (by decide)
  have hslash : ¬ char b = '\\' := hne (by decide)
  have hcomma : ¬ char b = ',' := hne (by decide)
  have hopen : ¬ (char b = '(' ∨ char b = '[' ∨ char b = '\x7b') := by
    rintro (h | h | h) <;> exact hne (by decide) h
  have hclose : ¬ (char b = ')' ∨ char b = ']' ∨ char b = '\x7d') := by
    rintro (h | h | h) <;> exact hne (by decide) h
  rw [splitFrom, dif_pos (lt_length_bytes h), h, Option.bind_eq_bind, Option.bind_some]
  cases quoted with
  | true => simp [hslash, hquote]
  | false => simp [hcomma, hopen, hclose, hquote]

open Piece (CutState cutsFrom push ofCuts)

variable {s : CutState} {start : ℕ}

/-- Whether a string is open. -/
def quoted (s : CutState) : Bool :=
  decide (s.reading ≠ .plain)

/-- The byte that is looked at next after some characters: after a backslash in a string, a byte
more is gone past. -/
def next (s : CutState) (before : List Char) : ℕ :=
  byteLength before + if s.reading = .escaped then 1 else 0

/-- One more character of several bytes is gone past. -/
lemma splitFrom_next_of_not_isNarrow (hl : l = before ++ u :: rest) (hu : ¬ IsNarrow u) :
    splitFrom l s.depth (quoted s) start (next s before) =
      splitFrom l (s.step u).depth (quoted (s.step u)) start (next (s.step u) (before ++ [u])) := by
  have hne {c : Char} (hc : IsNarrow c) : u ≠ c := by
    rintro rfl
    exact hu hc
  have hstep : (s.step u).depth = s.depth ∧ quoted (s.step u) = quoted s ∧
      (s.step u).reading ≠ .escaped := by
    obtain ⟨depth, reading⟩ := s
    cases reading <;> simp [CutState.step, quoted, hne (show IsNarrow '\\' by decide),
      hne (show IsNarrow '"' by decide), hne (show IsNarrow '(' by decide),
      hne (show IsNarrow ')' by decide), hne (show IsNarrow '[' by decide),
      hne (show IsNarrow ']' by decide), hne (show IsNarrow '\x7b' by decide),
      hne (show IsNarrow '\x7d' by decide)]
  have hpos := Char.utf8Size_pos u
  rw [hstep.1, hstep.2.1, next, next, if_neg hstep.2.2, byteLength_append, byteLength_cons,
    byteLength_nil]
  exact scan_of_not_isNarrow hl hu
    (fun i b hb hbyte => splitFrom_of_isWide hb hbyte s.depth (quoted s) start)
    (by split <;> omega)

/-- One more character of one byte is gone past, or ends a piece. -/
lemma splitFrom_next_of_isNarrow (hl : l = before ++ u :: rest) (hu : IsNarrow u)
    (hdepth : s.depth.natAbs + 1 < 2 ^ 31) :
    splitFrom l s.depth (quoted s) start (next s before) =
      if s = {} ∧ u = ',' then do
        let piece ← trimPiece l start (byteLength before)
        return piece :: (← splitFrom l 0 false (byteLength before + 1) (byteLength before + 1))
      else splitFrom l (s.step u).depth (quoted (s.step u)) start
        (next (s.step u) (before ++ [u])) := by
  have hbyte : byteAt l (byteLength before) = some u := by rw [hl, byteAt_of_isNarrow hu]
  have hnext (s : CutState) : next s (before ++ [u]) =
      byteLength before + 1 + if s.reading = .escaped then 1 else 0 := by
    rw [next, byteLength_append, byteLength_cons, byteLength_nil, utf8Size_of_isNarrow hu]
  obtain ⟨depth, reading⟩ := s
  rw [hnext]
  cases reading with
  -- what a backslash escapes was gone past together with it
  | escaped =>
      rw [if_neg (by simp)]
      rfl
  | quoted =>
      rw [if_neg (by simp), next, if_neg (by simp), Nat.add_zero, splitFrom,
        dif_pos (lt_length_bytes hbyte), hbyte, Option.bind_eq_bind, Option.bind_some]
      by_cases hslash : u = '\\'
      · simp [CutState.step, quoted, hslash]
      · by_cases hquote : u = '"' <;> simp [CutState.step, quoted, hslash, hquote]
  -- outside strings, brackets count and a comma at depth zero cuts
  | plain =>
      rw [next, if_neg (by simp), Nat.add_zero, splitFrom, dif_pos (lt_length_bytes hbyte), hbyte,
        Option.bind_eq_bind, Option.bind_some]
      by_cases hcomma : u = ',' ∧ depth = 0
      · obtain ⟨rfl, rfl⟩ := hcomma
        rfl
      · have hnot : ¬ ((⟨depth, .plain⟩ : CutState) = {} ∧ u = ',') := by
          rintro ⟨hs, rfl⟩
          cases hs
          exact hcomma ⟨rfl, rfl⟩
        rw [if_neg (by simp [quoted]), if_neg hcomma, if_neg hnot]
        dsimp only at hdepth
        by_cases hopen : u = '(' ∨ u = '[' ∨ u = '{'
        · simp [CutState.step, quoted, hopen, shift_eq (a := depth) (b := 1) (by omega) (by omega)]
        · by_cases hclose : u = ')' ∨ u = ']' ∨ u = '}'
          · simp [CutState.step, quoted, hopen, hclose,
              shift_eq (a := depth) (b := -1) (by omega) (by omega), Int.sub_eq_add_neg]
          · by_cases hquote : u = '"' <;> simp [CutState.step, quoted, hopen, hclose, hquote]

lemma foldr_push (cur p : List Char) (ps : List (List Char)) :
    cur.foldr push (p :: ps) = (cur ++ p) :: ps := by
  induction cur with
  | nil => rfl
  | cons c cur ih =>
      rw [List.foldr_cons, ih]
      rfl

lemma natAbs_depth_step (s : CutState) (u : Char) :
    (s.step u).depth.natAbs ≤ s.depth.natAbs + 1 := by
  unfold CutState.step
  split
  · exact Nat.le_succ _
  · exact Nat.le_succ _
  · split
    · dsimp only
      omega
    · split
      · dsimp only
        omega
      · exact Nat.le_succ _

/-- From anywhere in a text, the pieces are those that are cut one character at a time.  Every
bracket that is open has taken a byte, so that they can be counted. -/
lemma splitFrom_eq (hl : l = before ++ cur ++ rest) (hsize : byteLength l < 2 ^ 31)
    (hdepth : s.depth.natAbs ≤ byteLength (before ++ cur)) :
    splitFrom l s.depth (quoted s) (byteLength before) (next s (before ++ cur)) =
      some (ofCuts (byteLength before) (cur.foldr push (cutsFrom s rest))) := by
  -- on what is left; `cur` is the piece that is read, and `before` what was cut off before it
  induction rest generalizing s before cur with
  | nil =>
      rw [List.append_nil] at hl
      have hend : ¬ next s (before ++ cur) < (bytes l).length := by
        rw [hl, length_bytes, next]
        exact Nat.not_lt.mpr (Nat.le_add_right _ _)
      rw [splitFrom, dif_neg hend, hl, trimPiece_length, cutsFrom, foldr_push, List.append_nil]
      rfl
  | cons u r ih =>
      have hsucc : before ++ (cur ++ [u]) = before ++ cur ++ [u] := (List.append_assoc ..).symm
      have hlsucc : l = before ++ (cur ++ [u]) ++ r := by simp [hl]
      have hlength : byteLength (before ++ cur) + 1 ≤ byteLength (before ++ cur ++ [u]) := by
        rw [byteLength_append (before ++ cur), byteLength_cons]
        have hpos := Char.utf8Size_pos u
        omega
      have hbound : byteLength (before ++ cur ++ [u]) ≤ byteLength l := by
        rw [hlsucc, hsucc, byteLength_append _ r]
        exact Nat.le_add_right _ _
      -- a character that does not end the piece is added to it
      have hgoes (hcut : ¬ (s = {} ∧ u = ',')) :
          splitFrom l (s.step u).depth (quoted (s.step u)) (byteLength before)
            (next (s.step u) (before ++ cur ++ [u])) =
          some (ofCuts (byteLength before) (cur.foldr push (cutsFrom s (u :: r)))) := by
        have hstep := natAbs_depth_step s u
        have h := ih (s := s.step u) hlsucc (by rw [hsucc]; omega)
        rwa [hsucc, List.foldr_append, List.foldr_cons, List.foldr_nil,
          ← show cutsFrom s (u :: r) = push u (cutsFrom (s.step u) r) from if_neg hcut] at h
      by_cases hu : IsNarrow u
      · rw [splitFrom_next_of_isNarrow hl hu (by omega)]
        split
        · next hcut =>
            -- a comma outside of everything ends the piece, and the next starts behind it
            obtain ⟨rfl, rfl⟩ := hcut
            have hlnext : l = before ++ cur ++ [','] ++ [] ++ r := by simp [hl]
            have h := ih (s := {}) hlnext (Nat.zero_le _)
            rw [List.append_nil] at h
            have hpiece := trimPiece_append before cur (',' :: r)
            rw [← hl, ← byteLength_append] at hpiece
            have hcomma : byteLength (before ++ cur ++ [',']) = byteLength (before ++ cur) + 1 := by
              rw [byteLength_append _ [',']]
              rfl
            change splitFrom l 0 false (byteLength (before ++ cur ++ [',']))
              (byteLength (before ++ cur ++ [','])) = _ at h
            rw [hcomma] at h
            rw [hpiece, Option.bind_eq_bind, Option.bind_some, h]
            change some _ = some (ofCuts _ (cur.foldr push ([] :: cutsFrom {} r)))
            rw [foldr_push, List.append_nil, ofCuts, byteLength_append]
            rfl
        · next hcut => exact hgoes hcut
      · rw [splitFrom_next_of_not_isNarrow hl hu]
        refine hgoes ?_
        rintro ⟨-, rfl⟩
        exact hu (by decide)

/-- A text is cut at its commas. -/
lemma split_eq (hsize : byteLength l < 2 ^ 31) : split l = some (Piece.split l) := by
  rw [split, Piece.split, Piece.cutCommas_eq]
  split
  · rfl
  · have hl : l = [] ++ [] ++ l := rfl
    exact splitFrom_eq (s := {}) hl hsize (Nat.zero_le _)

/-! ### Places of pieces -/

lemma exists_append_of_mem_ofCuts {cuts : List (List Char)} {p : Piece}
    (hp : p ∈ ofCuts (byteLength before) cuts) :
    ∃ front after, before ++ [','].intercalate cuts = front ++ (p.text ++ after) ∧
      p.offset = byteLength front := by
  -- by the cuts; behind each stands one comma
  induction cuts generalizing before with
  | nil => cases hp
  | cons cut cuts ih =>
      rcases List.mem_cons.mp hp with rfl | hp
      · obtain ⟨tail, htail⟩ := Text.exists_intercalate_cons ',' cut cuts
        obtain ⟨blanks, hblanks, -⟩ := Piece.exists_append_trim cut
        refine ⟨before ++ cut.takeWhile Text.isBlank, blanks ++ tail, ?_,
          (byteLength_append _ _).symm⟩
        change _ = before ++ cut.takeWhile Text.isBlank ++ (Text.trim cut ++ (blanks ++ tail))
        rw [htail, List.append_assoc before, ← List.append_assoc (Text.trim cut),
          ← List.append_assoc (cut.takeWhile _), ← hblanks]
      · cases cuts with
        | nil => cases hp
        | cons cut' cuts =>
            have hnext : byteLength before + byteLength cut + 1 =
                byteLength (before ++ cut ++ [',']) := by
              rw [byteLength_append, byteLength_append]
              rfl
            rw [hnext] at hp
            obtain ⟨front, after, happend, hoffset⟩ := ih hp
            refine ⟨front, after, ?_, hoffset⟩
            rw [← happend]
            simp [List.intercalate]

/-- A piece stands between two texts. -/
lemma exists_append_of_mem_split {p : Piece} (hp : p ∈ Piece.split l) :
    ∃ front after, l = front ++ (p.text ++ after) ∧ p.offset = byteLength front := by
  rw [Piece.split] at hp
  split at hp
  · cases hp
  · obtain ⟨front, after, happend, hoffset⟩ : ∃ front after,
        [] ++ [','].intercalate (Piece.cutCommas 0 false l) = front ++ (p.text ++ after) ∧
          p.offset = byteLength front := exists_append_of_mem_ofCuts hp
    rw [List.nil_append, Piece.intercalate_cutCommas] at happend
    exact ⟨front, after, happend, hoffset⟩

/-- A text may be cut where a piece starts. -/
lemma tailFrom_of_mem_split {p : Piece} (hp : p ∈ Piece.split l) :
    tailFrom l p.offset = some (Text.dropBytes p.offset l) := by
  obtain ⟨front, after, rfl, hoffset⟩ := exists_append_of_mem_split hp
  rw [hoffset, tailFrom_append, Piece.dropBytes_byteLength]

/-- A piece ends within the text that it is cut out of. -/
lemma offset_add_byteLength_le_of_mem_split {p : Piece} (hp : p ∈ Piece.split l) :
    p.offset + byteLength p.text ≤ byteLength l := by
  obtain ⟨front, after, rfl, hoffset⟩ := exists_append_of_mem_split hp
  rw [hoffset, byteLength_append, byteLength_append]
  omega

end Checked

end Hermetic

/-
Runs at the front of a text, cut off by the number of their bytes.

* `Checked.count`, `Checked.find`: the number of leading bytes that pass a test, and the index of a
  character, with `Checked.headTo_takeWhile` and the like: a text may be cut there;
* `Checked.isNumericReference_eq`: references to numeric labels, told by their bytes;
* `Checked.takeOffsets_eq`: runs of numbers, taken by their bytes.
-/
import Hermetic.Proofs.Checked.Bounds
import Hermetic.Proofs.Operand.Offset

namespace Hermetic

open Text (byteLength byteLength_nil byteLength_cons byteLength_append)
open SourceUnit (char)

namespace Checked

variable {p : Char → Bool} {l r : List Char} {c : Char}

/-! ### Cuts -/

/-- The number of bytes at the front of a text that pass a test. -/
def count (p : Char → Bool) (l : List Char) : ℕ :=
  ((bytes l).takeWhile fun b => p (char b)).length

lemma count_eq (h : ReadsBytes p) (l : List Char) : count p l = byteLength (l.takeWhile p) := by
  rw [count, takeWhile_bytes h, length_bytes]

lemma headTo_takeWhile (p : Char → Bool) (l : List Char) :
    headTo l (byteLength (l.takeWhile p)) = some (l.takeWhile p) := by
  have h := headTo_append (l.takeWhile p) (l.dropWhile p)
  rwa [List.takeWhile_append_dropWhile] at h

lemma tailFrom_takeWhile (p : Char → Bool) (l : List Char) :
    tailFrom l (byteLength (l.takeWhile p)) = some (l.dropWhile p) := by
  have h := tailFrom_append (l.takeWhile p) (l.dropWhile p)
  rwa [List.takeWhile_append_dropWhile] at h

lemma headTo_take {n : ℕ} (hn : n ≤ l.length) (h : ∀ c ∈ l.take n, IsNarrow c) :
    headTo l n = some (l.take n) := by
  have hhead := headTo_append (l.take n) (l.drop n)
  rwa [List.take_append_drop, byteLength_eq_length h, List.length_take_of_le hn] at hhead

lemma tailFrom_drop {n : ℕ} (hn : n ≤ l.length) (h : ∀ c ∈ l.take n, IsNarrow c) :
    tailFrom l n = some (l.drop n) := by
  have htail := tailFrom_append (l.take n) (l.drop n)
  rwa [List.take_append_drop, byteLength_eq_length h, List.length_take_of_le hn] at htail

/-- A text is cut in two parts that make it up. -/
lemma append_of_cut {n : ℕ} {before after : List Char} (h : cut n l = some (before, after)) :
    before ++ after = l ∧ byteLength before = n := by
  induction l generalizing n before with
  | nil =>
      cases n with
      | zero =>
          cases h
          exact ⟨rfl, rfl⟩
      | succ n => cases h
  | cons c l ih =>
      cases n with
      | zero =>
          cases h
          exact ⟨rfl, rfl⟩
      | succ n =>
          rw [cut] at h
          split at h
          · next hle =>
              obtain ⟨⟨before', after'⟩, hcut, h⟩ := Option.map_eq_some_iff.mp h
              cases h
              obtain ⟨happend, hlength⟩ := ih hcut
              refine ⟨congrArg (c :: ·) happend, ?_⟩
              rw [byteLength_cons, hlength]
              omega
          · cases h

/-- What is left after some bytes is shorter. -/
lemma length_lt_of_tailFrom {n : ℕ} (hn : n ≠ 0) (h : tailFrom l n = some r) :
    r.length < l.length := by
  obtain ⟨⟨before, after⟩, hcut, rfl⟩ := Option.map_eq_some_iff.mp h
  obtain ⟨rfl, hlength⟩ := append_of_cut hcut
  have hne : before ≠ [] := by
    rintro rfl
    exact hn hlength.symm
  have hpos := List.length_pos_iff.mpr hne
  rw [List.length_append]
  dsimp only
  omega

/-! ### Characters found in a text -/

/-- The index of the first occurrence of a character. -/
def find (c : Char) (l : List Char) : Option ℕ :=
  if c ∈ l then some (byteLength (l.takeWhile (· != c))) else none

lemma dropWhile_of_mem (h : c ∈ l) : ∃ rest, l.dropWhile (· != c) = c :: rest := by
  have hne : l.dropWhile (· != c) ≠ [] := fun hnil =>
    absurd (List.dropWhile_eq_nil_iff.mp hnil c h) (by simp)
  obtain ⟨d, rest, hd⟩ := List.exists_cons_of_ne_nil hne
  have hhead := List.head?_dropWhile_not (· != c) l
  rw [hd] at hhead
  obtain rfl : d = c := by simpa using hhead
  exact ⟨rest, hd⟩

lemma dropWhile_of_notMem (h : c ∉ l) : l.dropWhile (· != c) = [] :=
  List.dropWhile_eq_nil_iff.mpr fun _ hd => bne_iff_ne.mpr (fun hdc => h (hdc ▸ hd))

/-- A text may be cut after a character of one byte that is found in it. -/
lemma headTo_find (hc : IsNarrow c) {rest : List Char} (h : l.dropWhile (· != c) = c :: rest) :
    headTo l (byteLength (l.takeWhile (· != c)) + 1) = some (l.takeWhile (· != c) ++ [c]) := by
  have hhead := headTo_append (l.takeWhile (· != c) ++ [c]) rest
  rwa [List.append_assoc, List.singleton_append, ← h, List.takeWhile_append_dropWhile,
    byteLength_append, byteLength_cons, byteLength_nil, utf8Size_of_isNarrow hc] at hhead

lemma tailFrom_find (hc : IsNarrow c) {rest : List Char} (h : l.dropWhile (· != c) = c :: rest) :
    tailFrom l (byteLength (l.takeWhile (· != c)) + 1) = some rest := by
  have htail := tailFrom_append (l.takeWhile (· != c) ++ [c]) rest
  rwa [List.append_assoc, List.singleton_append, ← h, List.takeWhile_append_dropWhile,
    byteLength_append, byteLength_cons, byteLength_nil, utf8Size_of_isNarrow hc] at htail

/-- The index of the last occurrence of a character. -/
def rfind (c : Char) (l : List Char) : Option ℕ :=
  if c ∈ l then some (byteLength (l.reverse.dropWhile (· != c)).tail.reverse) else none

lemma append_of_rfind {n : ℕ} (h : rfind c l = some n) :
    ∃ before after, l = before ++ c :: after ∧ byteLength before = n := by
  unfold rfind at h
  split at h
  · next hmem =>
      obtain ⟨rest, hrest⟩ := dropWhile_of_mem (List.mem_reverse.mpr hmem)
      have happend := List.takeWhile_append_dropWhile (p := (· != c)) (l := l.reverse)
      rw [hrest] at h happend
      generalize l.reverse.takeWhile (· != c) = front at happend
      refine ⟨rest.reverse, front.reverse, ?_, Option.some.inj h⟩
      rw [← List.reverse_reverse l, ← happend]
      simp
  · cases h

/-- The text before the last occurrence of a character is shorter. -/
lemma length_lt_of_rfind {n : ℕ} (h : rfind c l = some n) (hr : headTo l n = some r) :
    r.length < l.length := by
  obtain ⟨before, after, rfl, rfl⟩ := append_of_rfind h
  rw [headTo_append] at hr
  cases hr
  rw [List.length_append, List.length_cons]
  omega

/-! ### Tests -/

lemma isNarrow_of_isAlphanum (h : c.isAlphanum = true) : IsNarrow c := by
  delta Char.isAlphanum Char.isAlpha Char.isUpper Char.isLower Char.isDigit at h
  simp only [Bool.or_eq_true, Bool.and_eq_true, decide_eq_true_eq, UInt32.le_iff_toNat_le,
    ge_iff_le] at h
  change c.val.toNat < 128
  rcases h with (h | h) | h <;> exact Nat.lt_of_le_of_lt h.2 (by decide)

lemma isNarrow_of_isDigit (h : c.isDigit = true) : IsNarrow c :=
  isNarrow_of_isAlphanum (Offset.isAlphanum_of_isDigit h)

lemma isNarrow_of_isSymbolChar (h : isSymbolChar c = true) : IsNarrow c := by
  simp only [isSymbolChar, Bool.or_eq_true, beq_iff_eq] at h
  rcases h with ((h | rfl) | rfl) | rfl
  · exact isNarrow_of_isAlphanum h
  all_goals decide

lemma readsBytes_isDigit : ReadsBytes Char.isDigit :=
  readsBytes_of_isNarrow fun _ h => isNarrow_of_isDigit h

lemma readsBytes_isAlpha : ReadsBytes Char.isAlpha :=
  readsBytes_of_isNarrow fun _ h => isNarrow_of_isAlphanum (by simp [Char.isAlphanum, h])

lemma readsBytes_isSymbolChar : ReadsBytes isSymbolChar :=
  readsBytes_of_isNarrow fun _ h => isNarrow_of_isSymbolChar h

lemma readsBytes_isSymbolStart : ReadsBytes isSymbolStart :=
  readsBytes_of_isNarrow fun _ h => isNarrow_of_isSymbolChar (isSymbolChar_of_isSymbolStart h)

lemma readsBytes_isNumericChar : ReadsBytes isNumericChar := by
  refine readsBytes_of_isNarrow fun c h => ?_
  simp only [isNumericChar, Bool.or_eq_true, beq_iff_eq] at h
  rcases h with h | rfl
  · exact isNarrow_of_isDigit h
  · decide

lemma readsBytes_isHexDigit : ReadsBytes Offset.isHexDigit :=
  readsBytes_of_isNarrow fun _ h => isNarrow_of_isAlphanum (Offset.isAlphanum_of_isHexDigit h)

lemma readsBytes_isBit : ReadsBytes Offset.isBit :=
  readsBytes_of_isNarrow fun _ h => isNarrow_of_isAlphanum (Offset.isAlphanum_of_isBit h)

/-! ### References to numeric labels -/

/-- The bytes from one index to another. -/
def sliceBytes (b : List UInt8) (start stop : ℕ) : Option (List UInt8) :=
  if start ≤ stop ∧ stop ≤ b.length then some ((b.take stop).drop start) else none

/-- Whether a text refers to a numeric label. -/
def isNumericReference (l : List Char) : Option Bool := do
  let b := bytes l
  if b.length < 2 then return false
  else if !(← byteAt l 0).isDigit then return false
  else
    let last ← byteAt l (← sub b.length 1)
    if last = 'b' ∨ last = 'f' then
      let middle ← sliceBytes b 1 (← sub b.length 1)
      return middle.all fun u => isNumericChar (char u)
    else return false

lemma sliceBytes_eq {b : List UInt8} {start stop : ℕ} (h₁ : start ≤ stop) (h₂ : stop ≤ b.length) :
    sliceBytes b start stop = some ((b.take stop).drop start) :=
  if_pos ⟨h₁, h₂⟩

/-- References to numeric labels are told by their bytes. -/
lemma isNumericReference_eq (l : List Char) :
    isNumericReference l = some (Hermetic.isNumericReference l) := by
  cases l with
  | nil => rfl
  | cons c l =>
      obtain ⟨first, hfirst, -, htests⟩ := exists_byteAt [] c l
      have hdigit := htests _ readsBytes_isDigit
      rw [List.nil_append, byteLength_nil] at hfirst
      simp only [isNumericReference, Hermetic.isNumericReference, hfirst, hdigit, length_bytes,
        Option.bind_eq_bind, Option.bind_some]
      have hpos := Char.utf8Size_pos c
      by_cases hc : c.isDigit = true
      · have hsize := utf8Size_of_isNarrow (isNarrow_of_isDigit hc)
        obtain ⟨b, hb, -⟩ := utf8EncodeChar_of_isNarrow (isNarrow_of_isDigit hc)
        -- the first character counts as a digit, the last as a direction
        rcases List.eq_nil_or_concat l with rfl | ⟨m, d, hm⟩
        · simp [hc, hsize]
        · rw [List.concat_eq_append] at hm
          subst hm
          have hpos' := Char.utf8Size_pos d
          have hlength : byteLength (c :: (m ++ [d])) = byteLength (c :: m) + d.utf8Size := by
            rw [← List.cons_append, byteLength_append (c :: m)]
            rfl
          have hfront : byteLength (c :: m) = byteLength m + 1 := by
            rw [byteLength_cons, hsize, Nat.add_comm]
          obtain ⟨x, hx, hlast⟩ := exists_byteAt_last (c :: m) d []
          rw [← hlength, List.cons_append] at hx
          rw [if_neg (by omega), hc, sub_eq (by omega)]
          simp only [Option.bind_some, hx, hlast _ (show IsNarrow 'b' by decide),
            hlast _ (show IsNarrow 'f' by decide), List.reverse_append,
            List.reverse_singleton, List.singleton_append, Bool.not_true, Bool.false_eq_true,
            if_false, Bool.true_and]
          by_cases hd : d = 'b' ∨ d = 'f'
          · -- the digits between the two are told by their bytes
            have hend : byteLength (c :: (m ++ [d])) - 1 = byteLength m + 1 := by
              rw [hlength, hfront, show d.utf8Size = 1 by rcases hd with rfl | rfl <;> decide]
              rfl
            have hslice : sliceBytes (bytes (c :: (m ++ [d]))) 1 (byteLength m + 1) =
                some (bytes m) := by
              rw [sliceBytes_eq (by omega) (by rw [length_bytes]; omega), bytes_cons, hb,
                List.singleton_append, List.take_succ_cons, List.drop_succ_cons, List.drop_zero,
                bytes_append, ← length_bytes, List.take_left]
            rw [if_pos hd, hend, hslice, Option.bind_some, all_bytes readsBytes_isNumericChar,
              List.all_reverse, show (d == 'b' || d == 'f') = true by simpa using hd,
              Bool.true_and]
            rfl
          · rw [if_neg hd, show (d == 'b' || d == 'f') = false by simpa using hd, Bool.false_and]
            rfl
      · simp [hc]

/-! ### Runs of numbers -/

/-- Whether the bytes of a text start with a zero, one of two letters, and a digit. -/
def isMarked (lower upper : Char) (p : Char → Bool) (b : List UInt8) : Option Bool := do
  if 2 < b.length then
    let mark := (← sliceBytes b 0 2).map char
    if mark = ['0', lower] ∨ mark = ['0', upper] then return p (char (← b[2]?)) else return false
  else return false

/-- The number of digits at the front of a text, with the mark of their base. -/
def digitsLength (l : List Char) : Option ℕ := do
  let b := bytes l
  if ← isMarked 'x' 'X' Offset.isHexDigit b then
    return 2 + ((← sliceBytes b 2 b.length).takeWhile fun u => Offset.isHexDigit (char u)).length
  else if ← isMarked 'b' 'B' Offset.isBit b then
    return 2 + ((← sliceBytes b 2 b.length).takeWhile fun u => Offset.isBit (char u)).length
  else return count Char.isDigit l

/-- A text without a sign at its front. -/
def unsigned (sign : Char) (l : List Char) : List Char :=
  (Text.after? [sign] l).getD l

lemma exists_of_mark {d : Char} (hd : IsNarrow d)
    (h : ((bytes l).take 2).map char = ['0', d]) : ∃ r, l = '0' :: d :: r := by
  have hfirst : (bytes l).head?.map char = some '0' := by
    cases hb : bytes l with
    | nil =>
        rw [hb] at h
        cases h
    | cons b bs =>
        rw [hb, List.take_succ_cons, List.map_cons, List.cons.injEq] at h
        exact congrArg some h.1
  obtain ⟨r, rfl⟩ := List.head?_eq_some_iff.mp ((head?_bytes_eq_iff (by decide) l).mp hfirst)
  obtain ⟨b, hb, -⟩ := utf8EncodeChar_of_isNarrow (show IsNarrow '0' by decide)
  rw [bytes_cons, hb, List.singleton_append, List.take_succ_cons, List.map_cons,
    List.cons.injEq] at h
  have hsecond : (bytes r).head?.map char = some d := by
    cases hb : bytes r with
    | nil =>
        rw [hb] at h
        cases h.2
    | cons b bs =>
        rw [hb, List.take_succ_cons, List.map_cons, List.cons.injEq] at h
        exact congrArg some h.2.1
  obtain ⟨r', rfl⟩ := List.head?_eq_some_iff.mp ((head?_bytes_eq_iff hd r).mp hsecond)
  exact ⟨r', rfl⟩

lemma bytes_of_mark {d : Char} (hd : IsNarrow d) (r : List Char) :
    ∃ b b', bytes ('0' :: d :: r) = b :: b' :: bytes r ∧ char b = '0' ∧ char b' = d := by
  obtain ⟨b, hb, hchar⟩ := utf8EncodeChar_of_isNarrow (show IsNarrow '0' by decide)
  obtain ⟨b', hb', hchar'⟩ := utf8EncodeChar_of_isNarrow hd
  refine ⟨b, b', ?_, hchar, hchar'⟩
  rw [bytes_cons, bytes_cons, hb, hb']
  rfl

/-- Whether a text starts with a zero, one of two letters, and a digit. -/
def startsMarked (lower upper : Char) (p : Char → Bool) : List Char → Bool
  | '0' :: d :: e :: _ => (d == lower || d == upper) && p e
  | _ => false

lemma exists_of_startsMarked {lower upper : Char} (h : startsMarked lower upper p l = true) :
    ∃ d e r, l = '0' :: d :: e :: r ∧ (d = lower ∨ d = upper) ∧ p e = true := by
  unfold startsMarked at h
  split at h
  · simp only [Bool.and_eq_true, Bool.or_eq_true, beq_iff_eq] at h
    exact ⟨_, _, _, rfl, h.1, h.2⟩
  · cases h

/-- The mark of a base is told by the first bytes of a text. -/
lemma isMarked_eq {lower upper : Char} (hlower : IsNarrow lower) (hupper : IsNarrow upper)
    (hp : ReadsBytes p) (l : List Char) :
    isMarked lower upper p (bytes l) = some (startsMarked lower upper p l) := by
  by_cases hmark : ∃ d r, l = '0' :: d :: r ∧ (d = lower ∨ d = upper)
  · obtain ⟨d, r, rfl, hd⟩ := hmark
    have hnarrow : IsNarrow d := by rcases hd with rfl | rfl <;> assumption
    obtain ⟨b, b', hb, hchar, hchar'⟩ := bytes_of_mark hnarrow r
    cases r with
    | nil => simp [isMarked, startsMarked, hb]
    | cons e r =>
        obtain ⟨u, us, hu⟩ := exists_utf8EncodeChar e
        -- the byte after the mark may be the first of several
        have hpu : p (char u) = p e := hp e u (by rw [hu]; exact List.mem_cons_self)
        have hthird : bytes ('0' :: d :: e :: r) = b :: b' :: u :: (us ++ bytes r) := by
          rw [hb, bytes_cons, hu]
          rfl
        have hmark : (d == lower || d == upper) = true := by simpa using hd
        simp [isMarked, startsMarked, hthird, sliceBytes, hchar, hchar', hd, hpu, hmark]
  · -- a mark in the bytes is one in the characters, since neither character is wide
    have hnot (d : Char) (hd : d = lower ∨ d = upper) (hnarrow : IsNarrow d) :
        ¬ ((bytes l).take 2).map char = ['0', d] := fun h => by
      obtain ⟨r, rfl⟩ := exists_of_mark hnarrow h
      exact hmark ⟨d, r, rfl, hd⟩
    have hfalse : startsMarked lower upper p l = false := by
      by_contra htrue
      obtain ⟨d, e, r, rfl, hd, -⟩ := exists_of_startsMarked (by simpa using htrue)
      exact hmark ⟨d, e :: r, rfl, hd⟩
    rw [hfalse, isMarked]
    split
    · next hlength =>
        rw [sliceBytes_eq (by omega) hlength.le, List.drop_zero, Option.bind_eq_bind,
          Option.bind_some,
          if_neg (not_or.mpr ⟨hnot _ (.inl rfl) hlower, hnot _ (.inr rfl) hupper⟩)]
        rfl
    · rfl

/-- The digits after the mark of a base. -/
lemma digits_of_mark {d e : Char} (hd : IsNarrow d) (hp : ReadsBytes p)
    (hnarrow : ∀ c, p c = true → IsNarrow c) (he : p e = true) (r : List Char) :
    (do return 2 + ((← sliceBytes (bytes ('0' :: d :: e :: r)) 2
      (bytes ('0' :: d :: e :: r)).length).takeWhile fun u => p (char u)).length : Option ℕ) =
      some (3 + (r.takeWhile p).length) := by
  obtain ⟨b, b', hb, -⟩ := bytes_of_mark hd (e :: r)
  have hbytes : byteLength ((e :: r).takeWhile p) = ((e :: r).takeWhile p).length :=
    byteLength_eq_length fun c hc => hnarrow c (List.mem_takeWhile_imp hc)
  rw [hb, sliceBytes_eq (by simp) le_rfl, List.take_length, List.drop_succ_cons,
    List.drop_succ_cons, List.drop_zero, Option.pure_def, Option.bind_eq_bind, Option.bind_some,
    takeWhile_bytes hp, length_bytes, hbytes, List.takeWhile_cons_of_pos he, List.length_cons]
  congr 1
  omega

/-- Digits are counted by their bytes. -/
lemma digitsLength_eq (l : List Char) : digitsLength l = some (Offset.digitsLength l) := by
  have hx : IsNarrow 'x' := by decide
  have hb : IsNarrow 'b' := by decide
  have hX : IsNarrow 'X' := by decide
  have hB : IsNarrow 'B' := by decide
  rw [digitsLength, isMarked_eq hx hX readsBytes_isHexDigit, isMarked_eq hb hB readsBytes_isBit]
  simp only [Option.bind_eq_bind, Option.bind_some]
  split
  · next h =>
      obtain ⟨d, e, r, rfl, hd, he⟩ := exists_of_startsMarked h
      have hnarrow : IsNarrow d := by rcases hd with rfl | rfl <;> assumption
      refine (digits_of_mark hnarrow readsBytes_isHexDigit (fun c hc =>
        isNarrow_of_isAlphanum (Offset.isAlphanum_of_isHexDigit hc)) he r).trans ?_
      rcases hd with rfl | rfl <;> exact congrArg some (if_pos he).symm
  · next hhex =>
      split
      · next h =>
          obtain ⟨d, e, r, rfl, hd, he⟩ := exists_of_startsMarked h
          have hnarrow : IsNarrow d := by rcases hd with rfl | rfl <;> assumption
          refine (digits_of_mark hnarrow readsBytes_isBit (fun c hc =>
            isNarrow_of_isAlphanum (Offset.isAlphanum_of_isBit hc)) he r).trans ?_
          rcases hd with rfl | rfl <;> exact congrArg some (if_pos he).symm
      · next hbit =>
          have hbytes : byteLength (l.takeWhile Char.isDigit) =
              (l.takeWhile Char.isDigit).length :=
            byteLength_eq_length fun c hc => isNarrow_of_isDigit (List.mem_takeWhile_imp hc)
          rw [count_eq readsBytes_isDigit, hbytes, Option.pure_def]
          congr 1
          unfold Offset.digitsLength
          -- A mark that no digit of its base follows is not one: the zero before it stands alone.
          split
          case h_5 => rfl
          all_goals
            simp only [startsMarked, beq_self_eq_true, Bool.true_or, Bool.or_true,
              Bool.true_and] at hhex hbit
            simp [*]

/-- The run of numbers at the front of a text, and what follows it. -/
def takeOffsets (l : List Char) : Option (List Char × List Char) := do
  let probe := unsigned '-' (unsigned '+' l)
  let digits ← digitsLength probe
  if _h : digits = 0 then return ([], l)
  else
    let consumed := (← sub (byteLength l) (byteLength probe)) + digits
    let run ← headTo l consumed
    let rest ← (tailFrom l consumed).attach
    let more ← takeOffsets rest.1
    return (run ++ more.1, more.2)
termination_by l.length
decreasing_by exact length_lt_of_tailFrom (by omega) rest.2

lemma unsigned_cons (sign c : Char) (l : List Char) :
    unsigned sign (c :: l) = if sign = c then l else c :: l := by
  by_cases h : sign = c <;> simp [unsigned, Text.after?, h]

lemma unsigned_eq_drop (l : List Char) :
    unsigned '-' (unsigned '+' l) = l.drop (Offset.signLength l) := by
  unfold Offset.signLength
  split
  · rfl
  · next l hminus =>
      cases l with
      | nil => rfl
      | cons d l =>
          have hd : '-' ≠ d := by
            rintro rfl
            exact hminus l rfl
          rw [unsigned_cons, if_pos rfl, unsigned_cons, if_neg hd]
          rfl
  · rfl
  · next hplusminus hplus hminus =>
      cases l with
      | nil => rfl
      | cons d l =>
          rw [unsigned_cons, if_neg (by rintro rfl; exact hplus l rfl), unsigned_cons,
            if_neg (by rintro rfl; exact hminus l rfl)]
          rfl

lemma isNarrow_of_isOffsetChar (h : Offset.IsOffsetChar c) : IsNarrow c := by
  rcases h with h | rfl | rfl
  · exact isNarrow_of_isAlphanum h
  · decide
  · decide

/-- Runs of numbers are taken by their bytes. -/
lemma takeOffsets_eq (l : List Char) : takeOffsets l = some (Offset.take l) := by
  -- by the number of characters, term by term
  induction hl : l.length using Nat.strongRecOn generalizing l with
  | ind n ih =>
      have hsign : ∀ c ∈ l.take (Offset.signLength l), IsNarrow c := by
        unfold Offset.signLength
        split <;> simp [show IsNarrow '+' by decide, show IsNarrow '-' by decide]
      -- the length of the sign is told by what is left of the text
      have hsigns : sub (byteLength l) (byteLength (l.drop (Offset.signLength l))) =
          some (Offset.signLength l) := by
        have happend := byteLength_append (l.take (Offset.signLength l))
          (l.drop (Offset.signLength l))
        rw [List.take_append_drop, byteLength_eq_length hsign,
          List.length_take_of_le (Offset.signLength_le l)] at happend
        rw [sub_eq (by omega)]
        congr 1
        omega
      rw [takeOffsets, unsigned_eq_drop, digitsLength_eq, Option.bind_eq_bind, Option.bind_some]
      by_cases hzero : Offset.digitsLength (l.drop (Offset.signLength l)) = 0
      · rw [dif_pos hzero, Offset.take_of_zero (by rw [Offset.termLength, if_pos hzero])]
        rfl
      · have hterm : Offset.termLength l =
            Offset.signLength l + Offset.digitsLength (l.drop (Offset.signLength l)) := if_neg hzero
        have hle := Offset.termLength_le l
        -- a term has single bytes only, so that its length counts both
        have hnarrow : ∀ c ∈ l.take (Offset.termLength l), IsNarrow c := fun c hc =>
          isNarrow_of_isOffsetChar (Offset.forall_mem_take_termLength l c hc)
        have hrest := ih (l.drop (Offset.termLength l)).length (by rw [List.length_drop]; omega)
          (l.drop (Offset.termLength l)) rfl
        rw [dif_neg hzero, hsigns, Option.bind_some, ← hterm]
        dsimp only
        rw [headTo_take hle hnarrow, Option.bind_eq_bind, Option.bind_some,
          attach_bind_option (tailFrom l (Offset.termLength l)) fun rest => do
            let more ← takeOffsets rest
            return (l.take (Offset.termLength l) ++ more.1, more.2),
          tailFrom_drop hle hnarrow, Option.bind_eq_bind, Option.bind_some, hrest,
          Offset.take_of_ne_zero (l := l) (by omega)]
        rfl

end Checked

end Hermetic

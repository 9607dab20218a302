/-
White space and the ends of texts.

A blank is a character with Unicode's `White_Space` property.  Texts are lists of characters
here, so that every operation is one of the list operations on them.

* `isBlank`: the table of the property, and `isBlank_of_isWhitespace`: it extends the four
  characters that core counts as white space;
* `trimStart`, `trimEnd`, `trim`: a text without the blanks at its ends;
* `words`: the maximal runs of characters that are not blank;
* `lines`: the pieces between line feeds;
* `after?`, `before?`: what is left of a text when a given head or tail is taken away;
* `replaceFirst`: one occurrence of a text exchanged for another.
-/

namespace Hermetic.Text

/-! ### Blanks -/

/-- The characters with Unicode's `White_Space` property. -/
def isBlank (c : Char) : Bool :=
  let n := c.toNat
  (9 ≤ n && n ≤ 13) || n == 0x20 || n == 0x85 || n == 0xA0 || n == 0x1680 ||
    (0x2000 ≤ n && n ≤ 0x200A) || n == 0x2028 || n == 0x2029 || n == 0x202F ||
    n == 0x205F || n == 0x3000

/-- Core's white space is blank. -/
theorem isBlank_of_isWhitespace {c : Char} (h : c.isWhitespace = true) :
    isBlank c = true := by
  simp only [Char.isWhitespace, Bool.or_eq_true, decide_eq_true_eq] at h
  rcases h with ((h | h) | h) | h <;> subst h <;> decide

/-- A text without the blanks before its first other character. -/
def trimStart (l : List Char) : List Char :=
  l.dropWhile isBlank

/-- A text without the blanks after its last other character. -/
def trimEnd (l : List Char) : List Char :=
  (l.reverse.dropWhile isBlank).reverse

/-- A text without the blanks at both ends. -/
def trim (l : List Char) : List Char :=
  trimEnd (trimStart l)

/-- The maximal runs of characters that are not blank, in order. -/
def words (l : List Char) : List (List Char) :=
  (l.splitOnP isBlank).filter (!·.isEmpty)

/-- The pieces of a text between its line feeds. -/
def lines (l : List Char) : List (List Char) :=
  l.splitOn '\n'

/-! ### Heads and tails -/

/-- What follows `head` at the front of a text, or nothing if the text starts otherwise. -/
def after? (head : List Char) (l : List Char) : Option (List Char) :=
  if head.isPrefixOf l then some (l.drop head.length) else none

/-- What precedes `tail` at the back of a text, or nothing if the text ends otherwise. -/
def before? (tail : List Char) (l : List Char) : Option (List Char) :=
  if tail.isSuffixOf l then some (l.take (l.length - tail.length)) else none

theorem after?_eq_some_iff {head l r : List Char} :
    after? head l = some r ↔ l = head ++ r := by
  unfold after?
  constructor
  · intro h
    split at h
    · next hp =>
        obtain ⟨t, rfl⟩ := List.isPrefixOf_iff_prefix.mp hp
        simp only [List.drop_left, Option.some.injEq] at h
        rw [h]
    · simp at h
  · rintro rfl
    simp [List.isPrefixOf_iff_prefix]

theorem before?_eq_some_iff {tail l r : List Char} :
    before? tail l = some r ↔ l = r ++ tail := by
  unfold before?
  constructor
  · intro h
    split at h
    · next hp =>
        obtain ⟨t, rfl⟩ := List.isSuffixOf_iff_suffix.mp hp
        simp at h
        rw [h]
    · simp at h
  · rintro rfl
    simp [List.isSuffixOf_iff_suffix]

/-- Whether a text starts with `head`. -/
def startsWith (head text : String) : Bool :=
  head.toList.isPrefixOf text.toList

/-- Whether a text ends with `tail`. -/
def endsWith (tail text : String) : Bool :=
  tail.toList.isSuffixOf text.toList

/-- The first place where `found` begins, split there, or nothing if it does not occur. -/
def cut? (found : List Char) : List Char → Option (List Char × List Char)
  | [] => if found.isEmpty then some ([], []) else none
  | c :: l =>
    match after? found (c :: l) with
    | some r => some ([], r)
    | none => (cut? found l).map fun (a, b) => (c :: a, b)

/-- A text with the first occurrence of `found` exchanged for `put`. -/
def replaceFirst (found put text : String) : String :=
  match cut? found.toList text.toList with
  | some (a, b) => String.ofList a ++ put ++ String.ofList b
  | none => text

/-- Whether `found` occurs in a text. -/
def occursIn (found text : String) : Bool :=
  (cut? found.toList text.toList).isSome

/-! ### Bytes of a text -/

/-- The number of bytes that a text takes. -/
def byteLength : List Char → Nat
  | [] => 0
  | c :: l => c.utf8Size + byteLength l

/-- The characters of a text that begin at or after byte `n`. -/
def dropBytes : Nat → List Char → List Char
  | 0, l => l
  | _, [] => []
  | n + 1, c :: l => dropBytes (n + 1 - c.utf8Size) l
termination_by structural _ l => l

/-- The characters of a text that begin before byte `n`. -/
def takeBytes : Nat → List Char → List Char
  | 0, _ => []
  | _, [] => []
  | n + 1, c :: l => c :: takeBytes (n + 1 - c.utf8Size) l
termination_by structural _ l => l

theorem takeBytes_append_dropBytes (n : Nat) (l : List Char) :
    takeBytes n l ++ dropBytes n l = l := by
  induction l generalizing n with
  | nil => cases n <;> simp [takeBytes, dropBytes]
  | cons c l ih =>
      cases n with
      | zero => simp [takeBytes, dropBytes]
      | succ n => simp [takeBytes, dropBytes, ih]

theorem takeBytes_byteLength (l r : List Char) :
    takeBytes (byteLength l) (l ++ r) = l := by
  induction l with
  | nil => simp [byteLength, takeBytes]
  | cons c l ih =>
      obtain ⟨k, hk⟩ := Nat.exists_eq_succ_of_ne_zero
        (Nat.pos_iff_ne_zero.mp (Char.utf8Size_pos c))
      have hn : byteLength (c :: l) = (k + byteLength l) + 1 := by
        simp only [byteLength, hk]
        omega
      rw [hn, List.cons_append, takeBytes, hk]
      rw [show k + byteLength l + 1 - k.succ = byteLength l from by omega, ih]

end Hermetic.Text

/-
Texts as UTF-8 bytes.

* `encode`: the bytes of a text;
* `decode?`: the text that bytes encode, if they encode one; by `decode?_eq_some_iff` bytes are
  read as a text exactly if they are its encoding;
* `decodeLossy`: every byte string read as a text, a maximal sequence of bytes that cannot be
  completed to a character standing as one U+FFFD.
-/

namespace Hermetic.Text.Utf8

/-- The bytes that encode a text. -/
def encode (text : String) : List UInt8 :=
  text.toUTF8.data.toList

/-- The text that bytes encode, if they are well-formed. -/
def decode? (bytes : List UInt8) : Option String :=
  String.fromUTF8? (ByteArray.mk bytes.toArray)

/-! ### Reading what is not well-formed -/

/-- A character of which some bytes are read: the value so far, the number of bytes that are
missing, and the least and greatest byte that may come next. -/
structure Pending where
  value : Nat
  missing : Nat
  least : UInt8
  greatest : UInt8

/-- The character that stands for bytes that are none. -/
def replacement : Char := '\uFFFD'

/-- The characters finished by a byte that begins a character, and what it leaves open. -/
def lead (b : UInt8) : List Char × Option Pending :=
  let n := b.toNat
  if n < 0x80 then ([Char.ofNat n], none)
  else if n < 0xC2 then ([replacement], none)
  else if n < 0xE0 then ([], some ⟨n - 0xC0, 1, 0x80, 0xBF⟩)
  else if n = 0xE0 then ([], some ⟨0, 2, 0xA0, 0xBF⟩)
  else if n = 0xED then ([], some ⟨0xD, 2, 0x80, 0x9F⟩)
  else if n < 0xF0 then ([], some ⟨n - 0xE0, 2, 0x80, 0xBF⟩)
  else if n = 0xF0 then ([], some ⟨0, 3, 0x90, 0xBF⟩)
  else if n < 0xF4 then ([], some ⟨n - 0xF0, 3, 0x80, 0xBF⟩)
  else if n = 0xF4 then ([], some ⟨4, 3, 0x80, 0x8F⟩)
  else ([replacement], none)

/-- The characters finished by the next byte, and what it leaves open.  A byte that cannot
continue what is open ends it as one replacement character and begins anew. -/
def step : Option Pending → UInt8 → List Char × Option Pending
  | none, b => lead b
  | some p, b =>
    if p.least ≤ b ∧ b ≤ p.greatest then
      let value := p.value * 64 + (b.toNat - 0x80)
      if p.missing = 1 then ([Char.ofNat value], none)
      else ([], some ⟨value, p.missing - 1, 0x80, 0xBF⟩)
    else
      let (finished, next) := lead b
      (replacement :: finished, next)

/-- The characters of a byte string from the given open character on. -/
def decodeFrom : Option Pending → List UInt8 → List Char
  | none, [] => []
  | some _, [] => [replacement]
  | p, b :: l => (step p b).1 ++ decodeFrom (step p b).2 l

/-- A byte string as a text, each maximal sequence that is no character read as U+FFFD. -/
def decodeLossy (bytes : List UInt8) : String :=
  String.ofList (decodeFrom none bytes)

/-! ### Reading back -/

/-- Bytes are read as a text exactly if they are the text's encoding. -/
theorem decode?_eq_some_iff {bytes : List UInt8} {text : String} :
    decode? bytes = some text ↔ encode text = bytes := by
  unfold decode? String.fromUTF8? encode
  rw [String.toUTF8_eq_toByteArray]
  split
  · next h =>
      rw [Option.some.injEq, ← String.toByteArray_inj]
      constructor
      · rintro he
        rw [← he]
        rfl
      · rintro rfl
        rfl
  · next h =>
      simp only [reduceCtorEq, false_iff]
      rintro rfl
      exact h (by simpa using text.isValidUTF8)

/-- What was encoded is read back. -/
theorem decode?_encode (text : String) : decode? (encode text) = some text :=
  decode?_eq_some_iff.mpr rfl

end Hermetic.Text.Utf8

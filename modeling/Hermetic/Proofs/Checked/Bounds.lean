/-
Operations that are only defined within their bounds.

A computation here has three ends: a result, an error, or none at all, where it leaves the bounds
of a text or of a number, or does not stop.

* `Checked`: such computations, and `Checked.within`: those that stay within their bounds;
* `Checked.sub`, `Checked.add`, `Checked.shift`: numbers that are not negative, or have 32 bits;
* `Checked.cut`, `Checked.headTo`, `Checked.tailFrom`, `Checked.slice`: parts of a text, whose
  ends are counted in bytes and must not lie within a character;
* `Checked.bytes`: the bytes of a text, with `Checked.ReadsBytes`: the tests that the bytes of a
  character pass exactly if it does;
* `Checked.byteAt`: the byte at an index, with `Checked.scan_of_not_isNarrow`: a scan that goes on
  by single bytes goes past whole characters.
-/
import Mathlib.Algebra.Group.Nat.Defs
import Mathlib.Algebra.Group.Int.Defs
import Hermetic.Proofs.Source.Position

namespace Hermetic

open Text (byteLength byteLength_nil byteLength_cons byteLength_append)
open SourceUnit (char)

/-- Computations that give a result, fail with an error, or leave their bounds. -/
abbrev Checked (ε α : Type) : Type :=
  ExceptT ε Option α

namespace Checked

variable {ε α β : Type}

/-! ### Computations -/

/-- A computation that stays within its bounds. -/
def within (x : Except ε α) : Checked ε α :=
  ExceptT.mk (some x)

@[simp] lemma within_ok (a : α) : (within (.ok a) : Checked ε α) = pure a := rfl

@[simp] lemma within_error (e : ε) : (within (.error e) : Checked ε α) = throw e := rfl

@[simp] lemma within_pure (a : α) : (within (pure a) : Checked ε α) = pure a := rfl

lemma within_bind (x : Except ε α) (f : α → Except ε β) :
    within (x >>= f) = within x >>= fun a => within (f a) := by
  cases x <;> rfl

lemma map_bind {γ : Type} (x : Except ε α) (g : α → Except ε β) (k : β → γ) :
    (x >>= g).map k = x >>= fun a => (g a).map k := by
  cases x <;> rfl

lemma within_map_bind {γ : Type} {x : Except ε α} {k : α → β} {f : β → Checked ε γ}
    {g : α → Except ε γ} (h : ∀ a, x = .ok a → f (k a) = within (g a)) :
    within (x.map k) >>= f = within (x >>= g) := by
  cases x with
  | error e => rfl
  | ok a => exact h a rfl

/-- Computations that stay within their bounds do so one after another. -/
lemma mapM_within {l : List α} {f : α → Checked ε β} {g : α → Except ε β}
    (h : ∀ a ∈ l, f a = within (g a)) : l.mapM f = within (l.mapM g) := by
  induction l with
  | nil => rfl
  | cons a l ih =>
      rw [List.mapM_cons, List.mapM_cons, h a List.mem_cons_self,
        ih fun b hb => h b (List.mem_cons_of_mem _ hb)]
      cases g a with
      | error e => rfl
      | ok b => cases l.mapM g <;> rfl

lemma within_map (x : Except ε α) (f : α → β) :
    (do return f (← within x) : Checked ε β) = within (x.map f) := by
  cases x <;> rfl

lemma adapt_within {ε' : Type} (f : ε → ε') (x : Except ε α) :
    (within x).adapt f = within (x.mapError f) := by
  cases x <;> rfl

@[simp] lemma liftM_some (a : α) : (liftM (some a) : Checked ε α) = pure a := rfl

@[simp] lemma throw_bind (e : ε) (f : α → Checked ε β) : (throw e >>= f) = throw e := rfl

lemma bind_eq_pure_iff {x : Checked ε α} {f : α → Checked ε β} {b : β} :
    x >>= f = pure b ↔ ∃ a, x = pure a ∧ f a = pure b := by
  constructor
  · intro h
    cases x with
    | none => cases h
    | some r =>
        cases r with
        | error e => cases h
        | ok a => exact ⟨a, rfl, h⟩
  · rintro ⟨a, rfl, h⟩
    exact h

lemma liftM_eq_pure_iff {x : Option α} {a : α} : (liftM x : Checked ε α) = pure a ↔ x = some a := by
  cases x with
  | none => exact iff_of_false (fun h => by cases h) (fun h => by cases h)
  | some b =>
      constructor
      · intro h
        cases h
        rfl
      · rintro ⟨⟩
        rfl

/-- A computation whose result comes with the fact that it is the result. -/
def attach (x : Checked ε α) : Checked ε {a // x = pure a} :=
  match h : x.run with
  | some (.ok a) => pure ⟨a, h⟩
  | some (.error e) => throw e
  | none => ExceptT.mk none

lemma attach_bind (x : Checked ε α) (f : α → Checked ε β) :
    (do f (← attach x).1) = x >>= f := by
  cases x with
  | none => rfl
  | some r => cases r <;> rfl

lemma attach_bind_option (x : Option α) (f : α → Option β) :
    (do f (← x.attach).1) = x >>= f := by
  cases x <;> rfl

lemma attach_bind_of_eq {x : Option α} {a : α} (h : x = some a)
    (f : {a // x = some a} → Option β) : x.attach >>= f = f ⟨a, h⟩ := by
  subst h
  rfl

lemma attach_bind_liftM (x : Option α) (f : α → Checked ε β) :
    (do f (← x.attach).1) = liftM x >>= f := by
  cases x <;> rfl

/-! ### Numbers -/

/-- The difference of two numbers, which is not negative. -/
def sub (a b : ℕ) : Option ℕ :=
  if b ≤ a then some (a - b) else none

/-- The sum of two numbers of 32 bits. -/
def add (a b : ℕ) : Option ℕ :=
  if a + b < 2 ^ 32 then some (a + b) else none

/-- The sum of two signed numbers of 32 bits. -/
def shift (a b : Int) : Option Int :=
  if -2 ^ 31 ≤ a + b ∧ a + b < 2 ^ 31 then some (a + b) else none

lemma sub_eq {a b : ℕ} (h : b ≤ a) : sub a b = some (a - b) :=
  if_pos h

lemma sub_add_left (a b : ℕ) : sub (a + b) a = some b := by
  rw [sub_eq (Nat.le_add_right a b), Nat.add_sub_cancel_left]

lemma add_eq {a b : ℕ} (h : a + b < 2 ^ 32) : add a b = some (a + b) :=
  if_pos h

lemma shift_eq {a b : Int} (h₁ : -2 ^ 31 ≤ a + b) (h₂ : a + b < 2 ^ 31) :
    shift a b = some (a + b) :=
  if_pos ⟨h₁, h₂⟩

/-! ### Parts of a text -/

/-- The two parts of a text of which the first has `n` bytes, if they have no character in
common. -/
def cut : ℕ → List Char → Option (List Char × List Char)
  | 0, l => some ([], l)
  | _ + 1, [] => none
  | n + 1, c :: l =>
    if c.utf8Size ≤ n + 1 then
      (cut (n + 1 - c.utf8Size) l).map fun (before, after) => (c :: before, after)
    else none
termination_by structural _ l => l

/-- The text before byte `n`. -/
def headTo (l : List Char) (n : ℕ) : Option (List Char) :=
  (cut n l).map Prod.fst

/-- The text from byte `n` on. -/
def tailFrom (l : List Char) (n : ℕ) : Option (List Char) :=
  (cut n l).map Prod.snd

/-- The text from one byte to another. -/
def slice (l : List Char) (start stop : ℕ) : Option (List Char) := do
  let before ← headTo l stop
  tailFrom before start

/-- A text is cut where a character starts. -/
lemma cut_append (l r : List Char) : cut (byteLength l) (l ++ r) = some (l, r) := by
  induction l with
  | nil =>
      rw [byteLength_nil]
      cases r <;> rfl
  | cons c l ih =>
      obtain ⟨k, hk⟩ := Nat.exists_eq_succ_of_ne_zero
        (Nat.pos_iff_ne_zero.mp (Char.utf8Size_pos c))
      have hlength : byteLength (c :: l) = k + byteLength l + 1 := by
        rw [byteLength_cons, hk]
        omega
      have hsub : k + byteLength l + 1 - c.utf8Size = byteLength l := by omega
      rw [hlength, List.cons_append, cut, if_pos (by omega), hsub, ih]
      rfl

@[simp] lemma headTo_append (l r : List Char) : headTo (l ++ r) (byteLength l) = some l := by
  rw [headTo, cut_append]
  rfl

@[simp] lemma tailFrom_append (l r : List Char) : tailFrom (l ++ r) (byteLength l) = some r := by
  rw [tailFrom, cut_append]
  rfl

lemma slice_append (l m r : List Char) :
    slice (l ++ m ++ r) (byteLength l) (byteLength l + byteLength m) = some m := by
  rw [slice, ← byteLength_append, headTo_append]
  exact tailFrom_append l m

lemma tailFrom_cons {c : Char} (hc : c.utf8Size = 1) (l : List Char) :
    tailFrom (c :: l) 1 = some l := by
  have h := tailFrom_append [c] l
  rwa [byteLength_cons, byteLength_nil, hc] at h

lemma byteLength_le_of_sublist {l r : List Char} (h : l.Sublist r) :
    byteLength l ≤ byteLength r := by
  induction h with
  | slnil => exact Nat.le_refl 0
  | cons u h ih =>
      rw [byteLength_cons]
      omega
  | cons_cons u h ih =>
      rw [byteLength_cons, byteLength_cons]
      omega

/-! ### Bytes -/

/-- The bytes of a text. -/
def bytes (l : List Char) : List UInt8 :=
  l.flatMap String.utf8EncodeChar

@[simp] lemma bytes_nil : bytes [] = [] := rfl

lemma bytes_cons (c : Char) (l : List Char) :
    bytes (c :: l) = String.utf8EncodeChar c ++ bytes l := rfl

@[simp] lemma bytes_append (l r : List Char) : bytes (l ++ r) = bytes l ++ bytes r :=
  List.flatMap_append

@[simp] lemma length_bytes (l : List Char) : (bytes l).length = byteLength l := by
  induction l with
  | nil => rfl
  | cons c l ih =>
      rw [bytes_cons, List.length_append, ih, String.length_utf8EncodeChar, byteLength_cons]

/-- The characters that take one byte. -/
def IsNarrow (c : Char) : Prop :=
  c.toNat < 128

instance (c : Char) : Decidable (IsNarrow c) :=
  inferInstanceAs (Decidable (c.toNat < 128))

/-- The bytes that belong to characters of several bytes. -/
def IsWide (b : UInt8) : Prop :=
  128 ≤ b.toNat

lemma toNat_char (b : UInt8) : (char b).toNat = b.toNat := by
  have hvalid : b.toNat.isValidChar := .inl (by have := b.toNat_lt; omega)
  change (Char.ofNat b.toNat).toNat = b.toNat
  rw [Char.ofNat, dif_pos hvalid]
  rfl

lemma exists_utf8EncodeChar (c : Char) : ∃ b bs, String.utf8EncodeChar c = b :: bs := by
  refine List.exists_cons_of_ne_nil ?_
  rw [← List.length_pos_iff, String.length_utf8EncodeChar]
  exact Char.utf8Size_pos c

lemma utf8EncodeChar_of_isNarrow {c : Char} (h : IsNarrow c) :
    ∃ b : UInt8, String.utf8EncodeChar c = [b] ∧ char b = c := by
  have hle : c.val.toNat ≤ 127 := Nat.le_of_lt_succ h
  refine ⟨UInt8.ofNat c.val.toNat, ?_, ?_⟩
  · rw [String.utf8EncodeChar, if_pos hle]
  · change Char.ofNat (c.val.toNat % 256) = c
    rw [Nat.mod_eq_of_lt (by omega)]
    exact Char.ofNat_toNat c

lemma isWide_of_mem {c : Char} (h : ¬ IsNarrow c) {b : UInt8}
    (hb : b ∈ String.utf8EncodeChar c) : IsWide b := by
  have hnot : ¬ c.val.toNat ≤ 127 := fun hle => h (Nat.lt_succ_of_le hle)
  unfold String.utf8EncodeChar at hb
  dsimp only at hb
  rw [if_neg hnot] at hb
  unfold IsWide
  split at hb
  · simp only [List.mem_cons, List.not_mem_nil, or_false] at hb
    rcases hb with rfl | rfl <;> simp only [UInt8.toNat_ofNat'] <;> omega
  · split at hb
    · simp only [List.mem_cons, List.not_mem_nil, or_false] at hb
      rcases hb with rfl | rfl | rfl <;> simp only [UInt8.toNat_ofNat'] <;> omega
    · simp only [List.mem_cons, List.not_mem_nil, or_false] at hb
      rcases hb with rfl | rfl | rfl | rfl <;> simp only [UInt8.toNat_ofNat'] <;> omega

/-- A character of several bytes is no character of one. -/
lemma IsWide.char_ne {b : UInt8} (h : IsWide b) {c : Char} (hc : IsNarrow c) : char b ≠ c := by
  rintro rfl
  rw [IsNarrow, toNat_char] at hc
  exact absurd hc (Nat.not_lt.mpr h)

/-! ### Tests of bytes -/

/-- Tests that the bytes of a character pass exactly if it does. -/
def ReadsBytes (p : Char → Bool) : Prop :=
  ∀ c, ∀ b ∈ String.utf8EncodeChar c, p (char b) = p c

lemma readsBytes_of_isNarrow {p : Char → Bool} (h : ∀ c, p c = true → IsNarrow c) :
    ReadsBytes p := by
  intro c b hb
  by_cases hc : IsNarrow c
  · obtain ⟨b', hbytes, rfl⟩ := utf8EncodeChar_of_isNarrow hc
    rw [hbytes, List.mem_singleton] at hb
    rw [hb]
  · have hb := isWide_of_mem hc hb
    have hchar : p (char b) = false := by
      by_contra hp
      exact hb.char_ne (h _ (by simpa using hp)) rfl
    have hnot : p c = false := by
      by_contra hp
      exact hc (h c (by simpa using hp))
    rw [hchar, hnot]

lemma ReadsBytes.not {p : Char → Bool} (h : ReadsBytes p) : ReadsBytes (fun c => !p c) :=
  fun c b hb => congrArg (!·) (h c b hb)

section Tests

variable {p : Char → Bool}

lemma takeWhile_bytes (h : ReadsBytes p) (l : List Char) :
    (bytes l).takeWhile (fun b => p (char b)) = bytes (l.takeWhile p) := by
  induction l with
  | nil => rfl
  | cons c l ih =>
      rw [bytes_cons, List.takeWhile_cons]
      cases hc : p c with
      | true =>
          rw [List.takeWhile_append_of_pos fun b hb => by rw [h c b hb, hc], ih]
          rfl
      | false =>
          obtain ⟨b, bs, hbs⟩ := exists_utf8EncodeChar c
          rw [hbs, List.cons_append, List.takeWhile_cons, h c b (by rw [hbs]; simp), hc]
          rfl

lemma all_bytes (h : ReadsBytes p) (l : List Char) :
    (bytes l).all (fun b => p (char b)) = l.all p := by
  rw [Bool.eq_iff_iff, List.all_eq_true, List.all_eq_true]
  constructor
  · intro hall c hc
    obtain ⟨b, bs, hbs⟩ := exists_utf8EncodeChar c
    have hb : b ∈ String.utf8EncodeChar c := by
      rw [hbs]
      exact List.mem_cons_self
    rw [← h c b hb]
    exact hall b (List.mem_flatMap.mpr ⟨c, hc, hb⟩)
  · intro hall b hb
    obtain ⟨c, hc, hb⟩ := List.mem_flatMap.mp hb
    rw [h c b hb]
    exact hall c hc

/-- The first byte of a text is a character of one byte exactly if its first character is. -/
lemma head?_bytes_eq_iff {c : Char} (hc : IsNarrow c) (l : List Char) :
    (bytes l).head?.map char = some c ↔ l.head? = some c := by
  cases l with
  | nil => simp
  | cons d l =>
      rw [bytes_cons, List.head?_cons]
      by_cases hd : IsNarrow d
      · obtain ⟨b, hb, rfl⟩ := utf8EncodeChar_of_isNarrow hd
        rw [hb]
        rfl
      · obtain ⟨b, bs, hb⟩ := exists_utf8EncodeChar d
        have hwide : IsWide b := isWide_of_mem hd (by rw [hb]; exact List.mem_cons_self)
        rw [hb]
        refine iff_of_false (fun h => ?_) (fun h => ?_)
        · exact hwide.char_ne hc (Option.some.inj h)
        · exact hd (Option.some.inj h ▸ hc)

lemma utf8Size_of_isNarrow {c : Char} (h : IsNarrow c) : c.utf8Size = 1 := by
  obtain ⟨b, hb, -⟩ := utf8EncodeChar_of_isNarrow h
  rw [← String.length_utf8EncodeChar, hb]
  rfl

lemma byteLength_eq_length {l : List Char} (h : ∀ c ∈ l, IsNarrow c) :
    byteLength l = l.length := by
  induction l with
  | nil => rfl
  | cons c l ih =>
      rw [byteLength_cons, utf8Size_of_isNarrow (h c List.mem_cons_self),
        ih fun d hd => h d (List.mem_cons_of_mem _ hd), List.length_cons, Nat.add_comm]

end Tests

/-! ### Indices -/

/-- Byte `i` of a text. -/
def byteAt (l : List Char) (i : ℕ) : Option Char :=
  (bytes l)[i]?.map char

variable {l before rest : List Char} {u : Char} {i : ℕ}

lemma lt_length_bytes (h : byteAt l i = some u) : i < (bytes l).length := by
  by_contra hge
  rw [byteAt, List.getElem?_eq_none (Nat.le_of_not_lt hge)] at h
  cases h

lemma byteAt_append (before : List Char) (u : Char) (r : List Char) {k : ℕ}
    (hk : k < u.utf8Size) : byteAt (before ++ u :: r) (byteLength before + k) =
      (String.utf8EncodeChar u)[k]?.map char := by
  rw [← String.length_utf8EncodeChar] at hk
  rw [byteAt, bytes_append, List.getElem?_append_right (by rw [length_bytes]; omega), length_bytes,
    Nat.add_sub_cancel_left, bytes_cons, List.getElem?_append_left hk]

/-- The byte of a character of one byte. -/
lemma byteAt_of_isNarrow (hu : IsNarrow u) (before r : List Char) :
    byteAt (before ++ u :: r) (byteLength before) = some u := by
  have h := byteAt_append before u r (k := 0) (Char.utf8Size_pos u)
  obtain ⟨b, hb, hchar⟩ := utf8EncodeChar_of_isNarrow hu
  rw [hb] at h
  rw [← Nat.add_zero (byteLength before), h]
  exact congrArg some hchar

/-- A byte of a character of several bytes. -/
lemma exists_byteAt_of_not_isNarrow (hu : ¬ IsNarrow u) (before r : List Char) {k : ℕ}
    (hk : k < u.utf8Size) :
    ∃ b, IsWide b ∧ byteAt (before ++ u :: r) (byteLength before + k) = some (char b) := by
  have hk' := hk
  rw [← String.length_utf8EncodeChar] at hk'
  refine ⟨(String.utf8EncodeChar u)[k], isWide_of_mem hu (List.getElem_mem hk'), ?_⟩
  rw [byteAt_append before u r hk, List.getElem?_eq_getElem hk']
  rfl

/-- The first byte of a character passes the tests of characters of one byte that it does. -/
lemma exists_byteAt (before : List Char) (u : Char) (r : List Char) :
    ∃ d, byteAt (before ++ u :: r) (byteLength before) = some d ∧
      (∀ c, IsNarrow c → (d = c ↔ u = c)) ∧ ∀ p, ReadsBytes p → p d = p u := by
  by_cases hu : IsNarrow u
  · exact ⟨u, byteAt_of_isNarrow hu before r, fun c _ => Iff.rfl, fun p _ => rfl⟩
  · obtain ⟨b, bs, hb⟩ := exists_utf8EncodeChar u
    have hmem : b ∈ String.utf8EncodeChar u := by
      rw [hb]
      exact List.mem_cons_self
    refine ⟨char b, ?_, fun c hc => iff_of_false ((isWide_of_mem hu hmem).char_ne hc) ?_,
      fun p hp => hp u b hmem⟩
    · have h := byteAt_append before u r (k := 0) (Char.utf8Size_pos u)
      rw [Nat.add_zero, hb] at h
      exact h
    · rintro rfl
      exact hu hc

/-- The last byte of a character is a character of one byte exactly if it is. -/
lemma exists_byteAt_last (before : List Char) (u : Char) (r : List Char) :
    ∃ d, byteAt (before ++ u :: r) (byteLength before + u.utf8Size - 1) = some d ∧
      ∀ c, IsNarrow c → (d = c ↔ u = c) := by
  have hpos := Char.utf8Size_pos u
  by_cases hu : IsNarrow u
  · refine ⟨u, ?_, fun c _ => Iff.rfl⟩
    rw [utf8Size_of_isNarrow hu]
    exact byteAt_of_isNarrow hu before r
  · obtain ⟨b, hb, hbyte⟩ :=
      exists_byteAt_of_not_isNarrow hu before r (k := u.utf8Size - 1) (by omega)
    refine ⟨char b, ?_, fun c hc => iff_of_false (hb.char_ne hc) ?_⟩
    · rwa [Nat.add_sub_assoc hpos]
    · rintro rfl
      exact hu hc

/-- A scan that goes past every byte of a character of several bytes goes past the character, from
any of its bytes on. -/
lemma scan_of_not_isNarrow {β : Type} {f : ℕ → β} (hl : l = before ++ u :: rest)
    (hu : ¬ IsNarrow u) (hf : ∀ i b, IsWide b → byteAt l i = some (char b) → f i = f (i + 1))
    {k : ℕ} (hk : k ≤ u.utf8Size) :
    f (byteLength before + k) = f (byteLength before + u.utf8Size) := by
  induction hrest : u.utf8Size - k generalizing k with
  | zero => rw [show k = u.utf8Size by omega]
  | succ n ih =>
      obtain ⟨b, hb, hbyte⟩ :=
        exists_byteAt_of_not_isNarrow hu before rest (k := k) (by omega)
      rw [← hl] at hbyte
      rw [hf _ b hb hbyte, Nat.add_assoc]
      exact ih (by omega) (by omega)

end Checked

end Hermetic

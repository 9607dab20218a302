/-
Memory of a 64-bit machine.

A memory holds a byte at every address, and words of eight bytes with the least byte first.
Addresses wrap around.

* `Memory.word`, `Memory.store`: a word is read and written, and `Memory.word_store`: what is
  written is read;
* `Below`: the addresses at some distances below an address, by which it is said what may be
  overwritten under the top of a stack;
* `Memory.SameOutside`: two memories differ at such addresses only; `Memory.sameOutside_store`:
  a word written there makes no other difference, and `Memory.SameOutside.word_eq`: a word above
  is read as before.
-/
import Mathlib.Algebra.GroupWithZero.Nat
import Mathlib.Tactic.Lemma

namespace Hermetic

/-- A word of the machine, which is also an address. -/
abbrev Word := BitVec 64

/-- A memory: the byte at every address. -/
abbrev Memory := Word → BitVec 8

/-- The address `k` bytes after another. -/
def Word.plus (a : Word) (k : ℕ) : Word :=
  a + BitVec.ofNat 64 k

namespace Memory

/-! ### Words in memory -/

/-- The word of the eight bytes from an address on, the least byte first. -/
def word (m : Memory) (a : Word) : Word :=
  m (a.plus 7) ++ m (a.plus 6) ++ m (a.plus 5) ++ m (a.plus 4) ++ m (a.plus 3) ++
    m (a.plus 2) ++ m (a.plus 1) ++ m (a.plus 0)

/-- The memory with a word written at an address. -/
def store (m : Memory) (a w : Word) : Memory := fun b =>
  if (b - a).toNat < 8 then w.extractLsb' (8 * (b - a).toNat) 8 else m b

lemma store_plus (m : Memory) (a w : Word) {k : ℕ} (hk : k < 8) :
    m.store a w (a.plus k) = w.extractLsb' (8 * k) 8 := by
  have h : (a.plus k - a).toNat = k := by
    unfold Word.plus
    bv_omega
  rw [store, if_pos (by omega), h]

lemma store_of_outside (m : Memory) {a b : Word} (w : Word) (h : 8 ≤ (b - a).toNat) :
    m.store a w b = m b := by
  rw [store, if_neg (by omega)]

/-- What is written is read. -/
@[simp] lemma word_store (m : Memory) (a w : Word) : (m.store a w).word a = w := by
  have h (k : ℕ) (hk : k < 8) := store_plus m a w hk
  rw [word, h 0 (by omega), h 1 (by omega), h 2 (by omega), h 3 (by omega), h 4 (by omega),
    h 5 (by omega), h 6 (by omega), h 7 (by omega)]
  refine BitVec.eq_of_getLsbD_eq fun i hi => ?_
  have hbit {j k : ℕ} (hj : j < 8) (hpart : 8 * k + j = i) :
      (decide (j < 8) && w.getLsbD (8 * k + j)) = w.getLsbD i := by
    rw [decide_eq_true hj, Bool.true_and, hpart]
  simp only [BitVec.getLsbD_append, BitVec.getLsbD_extractLsb']
  repeat' split
  all_goals exact hbit (by omega) (by omega)

/-- A word is read as before if none of its bytes was written. -/
lemma word_congr {m m' : Memory} {a : Word} (h : ∀ k < 8, m' (a.plus k) = m (a.plus k)) :
    m'.word a = m.word a := by
  rw [word, word, h 0 (by omega), h 1 (by omega), h 2 (by omega), h 3 (by omega),
    h 4 (by omega), h 5 (by omega), h 6 (by omega), h 7 (by omega)]

/-! ### What is overwritten below an address -/

end Memory

/-- The addresses more than `near` and at most `far` bytes below `top`. -/
def Below (top : Word) (near far : ℕ) (a : Word) : Prop :=
  near < (top - a).toNat ∧ (top - a).toNat ≤ far

namespace Memory

/-- Two memories differ only in bytes more than `near` and at most `far` bytes below `top`. -/
def SameOutside (top : Word) (near far : ℕ) (m m' : Memory) : Prop :=
  ∀ a, ¬ Below top near far a → m' a = m a

lemma SameOutside.refl (top : Word) (near far : ℕ) (m : Memory) : SameOutside top near far m m :=
  fun _ _ => rfl

lemma SameOutside.trans {top : Word} {near far : ℕ} {m₁ m₂ m₃ : Memory}
    (h₁ : SameOutside top near far m₁ m₂) (h₂ : SameOutside top near far m₂ m₃) :
    SameOutside top near far m₁ m₃ :=
  fun a ha => (h₂ a ha).trans (h₁ a ha)

lemma SameOutside.mono {top : Word} {near far near' far' : ℕ} {m m' : Memory}
    (h : SameOutside top near far m m') (hnear : near' ≤ near) (hfar : far ≤ far') :
    SameOutside top near' far' m m' :=
  fun a ha => h a fun hb => ha ⟨Nat.lt_of_le_of_lt hnear hb.1, Nat.le_trans hb.2 hfar⟩

/-- A word written below an address changes nothing but its eight bytes. -/
lemma sameOutside_store (m : Memory) (top w : Word) {near far k : ℕ} (hk : k < 2 ^ 64)
    (hnear : near + 8 ≤ k) (hfar : k ≤ far) :
    SameOutside top near far m (m.store (top - BitVec.ofNat 64 k) w) := by
  intro a ha
  unfold Below at ha
  exact store_of_outside m w (Nat.not_lt.mp fun hlt => ha (by bv_omega))

namespace SameOutside

variable {m m' : Memory} {top : Word} {near far k : ℕ}

/-- A word above the bytes that differ is the same. -/
lemma word_eq (h : SameOutside top near far m m') (hk : 8 ≤ k) (hnear : k ≤ near) :
    m'.word (top - BitVec.ofNat 64 k) = m.word (top - BitVec.ofNat 64 k) := by
  refine word_congr fun i hi => h _ fun hb => ?_
  unfold Below Word.plus at hb
  bv_omega

/-- What differs below an address is nearer to an address below it. -/
lemma nearer (h : SameOutside top near far m m') (hk : k ≤ near) :
    SameOutside (top - BitVec.ofNat 64 k) (near - k) (far - k) m m' := by
  intro a ha
  refine h a fun hb => ha ?_
  unfold Below at hb ⊢
  bv_omega

/-- Memories that differ little after a word was written do so after another was written in its
place. -/
lemma store_again {a v : Word} (h : SameOutside top near far (m.store a v) m') (w : Word) :
    SameOutside top near far (m.store a w) (m'.store a w) := by
  intro b hb
  by_cases hab : (b - a).toNat < 8
  · rw [store, store, if_pos hab, if_pos hab]
  · have hab := Nat.not_lt.mp hab
    rw [store_of_outside m' w hab, store_of_outside m w hab, h b hb, store_of_outside m v hab]

end SameOutside

end Memory

end Hermetic

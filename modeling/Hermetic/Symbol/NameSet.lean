/-
Sets of names, and names with one value each, in order.

Both are lists that strictly increase, so that two of them with the same members are equal, and
what is written from one does not depend on how it came about.

* `NameSet`, `NameSet.insert`, `NameSet.mem_insert`: sets;
* `NameMap`, `NameMap.insert`, `NameMap.get?_insert`: names with values, where a later value
  takes the place of an earlier one.
-/

namespace Hermetic

/-! ### Sets -/

/-- A set of names: its members in increasing order. -/
structure NameSet where
  toList : List String
  increasing : toList.Pairwise (· < ·)
deriving DecidableEq, Repr

namespace NameSet

/-- The empty set. -/
def empty : NameSet := ⟨[], .nil⟩

instance : Inhabited NameSet := ⟨empty⟩

instance : Membership String NameSet := ⟨fun s a => a ∈ s.toList⟩

theorem mem_toList {s : NameSet} {a : String} : a ∈ s.toList ↔ a ∈ s := Iff.rfl

instance (a : String) (s : NameSet) : Decidable (a ∈ s) :=
  decidable_of_iff (a ∈ s.toList) Iff.rfl

/-- A name put in its place among others. -/
def place (a : String) : List String → List String
  | [] => [a]
  | b :: l => if a < b then a :: b :: l else if a = b then b :: l else b :: place a l

theorem mem_place {a b : String} {l : List String} : b ∈ place a l ↔ b = a ∨ b ∈ l := by
  induction l with
  | nil => simp [place]
  | cons c l ih =>
      unfold place
      split
      · simp
      · split
        · next h => simp [h]
        · simp only [List.mem_cons, ih]
          grind

theorem place_increasing {a : String} {l : List String} (h : l.Pairwise (· < ·)) :
    (place a l).Pairwise (· < ·) := by
  induction l with
  | nil => simp [place]
  | cons b l ih =>
      rw [List.pairwise_cons] at h
      unfold place
      split
      · next hab =>
          refine List.pairwise_cons.mpr ⟨?_, List.pairwise_cons.mpr h⟩
          intro c hc
          rcases List.mem_cons.mp hc with rfl | hc
          · exact hab
          · exact String.lt_trans hab (h.1 c hc)
      · split
        · exact List.pairwise_cons.mpr h
        · next hab hne =>
            refine List.pairwise_cons.mpr ⟨?_, ih h.2⟩
            intro c hc
            rcases mem_place.mp hc with rfl | hc
            · exact Std.lt_of_le_of_ne (Std.not_lt.mp hab) (Ne.symm hne)
            · exact h.1 c hc

/-- A set with one more member. -/
def insert (a : String) (s : NameSet) : NameSet where
  toList := place a s.toList
  increasing := place_increasing s.increasing

@[simp] theorem mem_insert {a b : String} {s : NameSet} : b ∈ s.insert a ↔ b = a ∨ b ∈ s :=
  mem_place

/-- Whether a set has no members. -/
def isEmpty (s : NameSet) : Bool :=
  s.toList.isEmpty

/-- The set of the members of a list. -/
def ofList (l : List String) : NameSet :=
  l.foldl (fun s a => s.insert a) empty

end NameSet

/-! ### Names with values -/

/-- Names with one value each: the pairs in increasing order of names. -/
structure NameMap where
  toList : List (String × String)
  increasing : toList.Pairwise (fun p q => p.1 < q.1)
deriving DecidableEq, Repr

namespace NameMap

/-- No names. -/
def empty : NameMap := ⟨[], .nil⟩

instance : Inhabited NameMap := ⟨empty⟩

/-- A pair put in its place among others, or in the place of the one with its name. -/
def place (a v : String) : List (String × String) → List (String × String)
  | [] => [(a, v)]
  | p :: l =>
    if a < p.1 then (a, v) :: p :: l else if a = p.1 then (a, v) :: l else p :: place a v l

theorem fst_mem_place {a v : String} {p : String × String} {l : List (String × String)}
    (h : p ∈ place a v l) : p = (a, v) ∨ p ∈ l := by
  induction l with
  | nil => simpa [place] using h
  | cons q l ih =>
      unfold place at h
      split at h
      · simpa using h
      · split at h
        · rcases List.mem_cons.mp h with h | h
          · exact .inl h
          · exact .inr (List.mem_cons_of_mem _ h)
        · rcases List.mem_cons.mp h with h | h
          · exact .inr (h ▸ List.mem_cons_self)
          · exact (ih h).imp_right (List.mem_cons_of_mem _)

theorem place_increasing {a v : String} {l : List (String × String)}
    (h : l.Pairwise fun p q => p.1 < q.1) :
    (place a v l).Pairwise fun p q => p.1 < q.1 := by
  induction l with
  | nil => simp [place]
  | cons p l ih =>
      rw [List.pairwise_cons] at h
      unfold place
      split
      · next hap =>
          refine List.pairwise_cons.mpr ⟨?_, List.pairwise_cons.mpr h⟩
          intro q hq
          rcases List.mem_cons.mp hq with rfl | hq
          · exact hap
          · exact String.lt_trans hap (h.1 q hq)
      · split
        · next hap =>
            refine List.pairwise_cons.mpr ⟨?_, h.2⟩
            intro q hq
            exact hap ▸ h.1 q hq
        · next hap hne =>
            refine List.pairwise_cons.mpr ⟨?_, ih h.2⟩
            intro q hq
            rcases fst_mem_place hq with rfl | hq
            · exact Std.lt_of_le_of_ne (Std.not_lt.mp hap) (Ne.symm hne)
            · exact h.1 q hq

/-- The pairs with the value of one name set. -/
def insert (a v : String) (m : NameMap) : NameMap where
  toList := place a v m.toList
  increasing := place_increasing m.increasing

/-- The value of a name. -/
def get? (m : NameMap) (a : String) : Option String :=
  m.toList.lookup a

theorem lookup_place (a v b : String) (l : List (String × String)) :
    (place a v l).lookup b = if b = a then some v else l.lookup b := by
  induction l with
  | nil =>
      by_cases h : b = a
      · simp [place, h]
      · simp [place, List.lookup_cons, beq_false_of_ne h, h]
  | cons p l ih =>
      obtain ⟨c, w⟩ := p
      unfold place
      split
      · by_cases h : b = a
        · simp [h]
        · simp [List.lookup_cons, beq_false_of_ne h, h]
      · split
        · next h =>
            have h : a = c := h
            subst h
            by_cases hb : b = a
            · simp [hb]
            · simp [List.lookup_cons, beq_false_of_ne hb, hb]
        · next h =>
            by_cases hc : b = c
            · subst hc
              simp [Ne.symm h]
            · simp [List.lookup_cons, beq_false_of_ne hc, ih]

/-- A name has the value that was set last. -/
theorem get?_insert (m : NameMap) (a v b : String) :
    (m.insert a v).get? b = if b = a then some v else m.get? b :=
  lookup_place a v b m.toList

/-- Whether there are no names. -/
def isEmpty (m : NameMap) : Bool :=
  m.toList.isEmpty

end NameMap

end Hermetic

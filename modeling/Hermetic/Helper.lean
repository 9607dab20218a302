/-
The helpers that a sealed module needs outside its markers.

* `Helper`: one of them;
* `Helpers`: all of them, each kind in the order of symbols;
* `Helpers.request`, `Helpers.requestAll`: more of them, with `Helpers.mem_redirectors_requestAll`
  and `Helpers.mem_gotEntries_requestAll`: exactly those that were asked for are there.
-/
import Hermetic.Symbol.Name
import Hermetic.Symbol.NameSet

namespace Hermetic

/-- A helper. -/
inductive Helper
  /-- A jump to a symbol outside the module. -/
  | redirector (symbol : String)
  /-- A function that returns the address of a symbol in zero-initialised storage. -/
  | accessor (symbol target : String)
  /-- The way to the address of a symbol outside the module. -/
  | gotEntry (symbol : String)
  /-- The place of a symbol in the offset table, or its distance to the table. -/
  | gotOffset (symbol : String) (fromTable : Bool)
  /-- The distance to the offset table. -/
  | gotDelta
deriving DecidableEq, Repr

/-- The helpers that were asked for. -/
structure Helpers where
  redirectors : NameSet := .empty
  accessors : NameMap := .empty
  gotEntries : NameSet := .empty
  gotOffsets : NameSet := .empty
  tableOffsets : NameSet := .empty
  gotDelta : Bool := false
deriving DecidableEq, Repr, Inhabited

namespace Helpers

/-- The helpers with one more.  A later accessor of a symbol takes the place of an earlier
one. -/
def request (h : Helpers) : Helper → Helpers
  | .redirector s => { h with redirectors := h.redirectors.insert s }
  | .accessor s target => { h with accessors := h.accessors.insert s target }
  | .gotEntry s => { h with gotEntries := h.gotEntries.insert s }
  | .gotOffset s false => { h with gotOffsets := h.gotOffsets.insert s }
  | .gotOffset s true => { h with tableOffsets := h.tableOffsets.insert s }
  | .gotDelta => { h with gotDelta := true }

/-- The helpers with all of a list. -/
def requestAll (h : Helpers) (l : List Helper) : Helpers :=
  l.foldl request h

/-- Whether nothing was asked for. -/
def isEmpty (h : Helpers) : Bool :=
  h.redirectors.isEmpty && h.accessors.isEmpty && h.gotEntries.isEmpty &&
    h.gotOffsets.isEmpty && h.tableOffsets.isEmpty && !h.gotDelta

/-- Exactly the redirectors that were asked for are there. -/
theorem mem_redirectors_requestAll {h : Helpers} {l : List Helper} {s : String} :
    s ∈ (h.requestAll l).redirectors ↔ s ∈ h.redirectors ∨ .redirector s ∈ l := by
  unfold requestAll
  induction l generalizing h with
  | nil => simp
  | cons a l ih =>
      rw [List.foldl_cons, ih]
      rcases a with s' | ⟨s', t⟩ | s' | ⟨s', _ | _⟩ | _ <;> simp [request]
      grind

/-- Exactly the entries that were asked for are there. -/
theorem mem_gotEntries_requestAll {h : Helpers} {l : List Helper} {s : String} :
    s ∈ (h.requestAll l).gotEntries ↔ s ∈ h.gotEntries ∨ .gotEntry s ∈ l := by
  unfold requestAll
  induction l generalizing h with
  | nil => simp
  | cons a l ih =>
      rw [List.foldl_cons, ih]
      rcases a with s' | ⟨s', t⟩ | s' | ⟨s', _ | _⟩ | _ <;> simp [request]
      grind

end Helpers

end Hermetic

/-
Numeric labels and the references to them, in texts and in what is written.

* `Mark`: a numeric label, or a reference to the nearest one before or after;
* `Statement.Kind.marks`, `Statement.textMarks`: the marks of a statement and of a text, with
  `Statement.textMarks_eq_flatMap`: those of a text are those of its statements;
* `Line.Operand.mark?`, `Line.marks`, `Chunk.marks`, `Emission.marks`: the marks of what is written;
* `X86.mark?_of_direct`, `X86.mark?_memory`: operands that are no references to numeric labels.
-/
import Hermetic.Proofs.Sealing.Output

namespace Hermetic

open Statement (Kind)

/-! ### Marks -/

/-- A number without the zeros in front of it. -/
def significant (number : List Char) : List Char :=
  number.dropWhile (· == '0')

/-- A numeric label, or a reference to the nearest one before or after. -/
inductive Mark
  | label (number : List Char)
  | reference (number : List Char) (forward : Bool)
deriving DecidableEq, Repr

/-- The mark that a label is, if it is a number. -/
def Label.mark? : Label → Option Mark
  | numeric name => some (.label (significant name.toList))
  | _ => none

/-- The mark that an operand is, if it refers to a numeric label. -/
def Operand.mark? (o : Operand) : Option Mark :=
  match o.kind with
  | .localLabel text =>
      some (.reference (significant text.toList.dropLast) (text.toList.getLast? == some 'f'))
  | _ => none

namespace Statement

/-- The marks of a statement, by its kind. -/
def Kind.marks : Kind → List Mark
  | label l => l.mark?.toList
  | instruction insn => insn.operands.filterMap Operand.mark?
  | _ => []

/-- The marks of a text, read to the end of its last line. -/
def textMarks (arch : Arch) (text : String) : List Mark :=
  match parse arch (text ++ "\n") with
  | .ok statements => statements.flatMap (·.kind.marks)
  | .error _ => []

lemma Kind.marks_filter_isLive (kinds : List Kind) :
    (kinds.filter (·.isLive)).flatMap Kind.marks = kinds.flatMap Kind.marks := by
  induction kinds with
  | nil => rfl
  | cons kind kinds ih =>
      rw [List.filter_cons, List.flatMap_cons]
      split
      · rw [List.flatMap_cons, ih]
      · next hlive =>
          rw [ih]
          cases kind with
          | blank | comment => rfl
          | _ => exact (hlive rfl).elim

variable {arch : Arch} {text : String}

lemma textMarks_eq_flatMap {kinds : List Kind} (h : Says arch text.toList kinds) :
    textMarks arch text = kinds.flatMap Kind.marks := by
  obtain ⟨all, hreads, hall⟩ := h.append says_newline
  have hline : (text ++ "\n").toList = text.toList ++ ['\n'] := String.toList_append
  rw [← hline] at hreads
  obtain ⟨statements, hparse, hkinds⟩ := exists_parse_of_reads hreads
  rw [List.append_nil] at hall
  rw [textMarks, hparse, ← hall, Kind.marks_filter_isLive, ← hkinds, List.flatMap_map]

lemma textMarks_of_shape {kind : Kind} (h : Shape arch text.toList kind) :
    textMarks arch text = kind.marks := by
  rw [textMarks_eq_flatMap ⟨_, .single h, rfl⟩, Kind.marks_filter_isLive, List.flatMap_singleton]

/-- The line feed that ends the last line of a text adds nothing to its marks. -/
lemma textMarks_of_shape_line {kind : Kind} (h : Shape arch (text.toList ++ ['\n']) kind) :
    textMarks arch text = kind.marks := by
  have hline : (text ++ "\n").toList = text.toList ++ ['\n'] := String.toList_append
  rw [← hline] at h
  obtain ⟨t, hparse, rfl⟩ := exists_parse_of_shape h
  rw [textMarks, hparse]
  exact List.flatMap_singleton ..

end Statement

/-! ### What is written -/

/-- The mark that a written operand is, as it is read. -/
def Line.Operand.mark? (o : Line.Operand) : Option Mark :=
  match X86.operand o.text.toList with
  | .ok o => o.mark?
  | .error _ => none

/-- The marks of a written line. -/
def Line.marks : Line → List Mark
  | label name => (Statement.labelOf name.toList).mark?.toList
  | instruction _ _ _ operands => operands.filterMap Operand.mark?
  | directive .. | landingPad => []

/-- The marks of a piece. -/
def Chunk.marks : Chunk → List Mark
  | .copied text => Statement.textMarks .x86_64 text
  | .quoted _ => []
  | .line l => l.marks
  | .openLabel name => (Statement.labelOf name.toList).mark?.toList

/-- The marks of what is written for a statement. -/
def Emission.marks (e : Emission) : List Mark :=
  e.chunks.flatMap Chunk.marks

variable {s : Statement}

lemma Emission.marks_copy : (Emission.copy s).marks = Statement.textMarks .x86_64 s.text :=
  List.flatMap_singleton ..

lemma Emission.marks_replace {lines : List Line} {helpers : List Helper} :
    (Emission.replace s lines helpers).marks = lines.flatMap Line.marks := by
  rw [Emission.marks, Emission.replace, List.flatMap_cons, List.flatMap_map]
  rfl

/-! ### Operands that are no references to numeric labels -/

namespace X86

variable {l : List Char}

/-- The decorations are taken off the end of an operand. -/
lemma peel_suffix (ds l : List Char) : (peel ds l).1 <:+ l := by
  fun_induction peel ds l with
  | case1 | case3 => exact List.suffix_rfl
  | case2 ds l ch rest hrest ih =>
      have hbrace : rest <:+ l :=
        (List.suffix_cons ch rest).trans (hrest ▸ List.dropWhile_suffix _)
      exact ih.trans ((List.dropWhile_suffix _).trans (hbrace.trans (List.suffix_cons _ _)))

lemma undecorated_prefix (l : List Char) : (undecorated l).1 <+: l := by
  unfold undecorated
  split
  · exact List.prefix_rfl
  · have hprefix := List.reverse_prefix.mpr (peel_suffix [] l.reverse)
    rwa [List.reverse_reverse] at hprefix

/-- What a written operand is read as, if that is no reference to a numeric label. -/
lemma mark?_eq_none {o : Line.Operand}
    (h : isNumericReference (undecorated (direct o.text.toList)).1 = false) : o.mark? = none := by
  unfold Line.Operand.mark?
  split
  · next o' hread =>
      obtain ⟨k, hkind, rfl⟩ := operand_eq_ok_iff.mp hread
      unfold Operand.mark?
      split
      · next text hk =>
          obtain rfl : k = .localLabel text := hk
          rw [isNumericReference_of_kind hkind] at h
          cases h
      · rfl
  · rfl

/-- An operand whose first character is no digit is no reference to a numeric label. -/
lemma mark?_of_direct {o : Line.Operand} {ch : Char}
    (hhead : (direct o.text.toList).head? = some ch) (hdigit : ch.isDigit = false) :
    o.mark? = none := by
  refine mark?_eq_none ?_
  obtain ⟨r, hr⟩ := undecorated_prefix (direct o.text.toList)
  cases hbody : (undecorated (direct o.text.toList)).1 with
  | nil => rfl
  | cons d body =>
      rw [hbody] at hr
      rw [← hr] at hhead
      obtain rfl : d = ch := Option.some.inj hhead
      by_contra hreference
      rw [Bool.not_eq_false] at hreference
      rw [isDigit_of_isNumericReference hreference] at hdigit
      cases hdigit

variable {m : MemoryRef}

/-- A reference to memory that is put together is none to a numeric label, whatever stands around
it. -/
lemma mark?_memory {o : Line.Operand} (h : Spelled m)
    (hgiven : isNumericReference m.display.toList = false) {ds : List Char} (hds : Groups ds)
    {indirect : Bool} (htext : o.text.toList = star indirect ++ (m.display.toList ++ ds)) :
    o.mark? = none := by
  refine mark?_eq_none ?_
  obtain ⟨ch, hhead, hstar, hblank⟩ := exists_head?_display h
  rw [htext, direct_star_append indirect hhead hstar hblank, undecorated_display h hds]
  exact hgiven

lemma mark?_display {o : Line.Operand} (h : Spelled m)
    (hgiven : m.symbol.isSome = true ∨ m.base.isSome = true) (htext : o.text = m.display) :
    o.mark? = none := by
  have hstar : o.text.toList = star false ++ (m.display.toList ++ []) := by
    rw [htext, List.append_nil]
    rfl
  exact mark?_memory h (isNumericReference_display h hgiven) .nil hstar

end X86

end Hermetic

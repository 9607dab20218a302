/-
Operands of AArch64, taken apart by the indices of their bytes.

* `Checked.Arm.isRegister_eq`: registers are told by their bytes;
* `Checked.Arm.relocation`, `Checked.Arm.indexed`, `Checked.Arm.symbolRef?`: the operands that
  hold addresses;
* `Checked.Arm.operand_eq`: any operand is taken apart within its text.
-/
import Hermetic.Operand.Arm
import Hermetic.Proofs.Checked.Expr
import Hermetic.Proofs.Checked.Pieces

namespace Hermetic.Checked.Arm

open Text (byteLength byteLength_nil byteLength_cons byteLength_append)
open SourceUnit (char)
open Hermetic.Arm (namedRegisters registerLetters isModifier)

variable {l r before rest : List Char} {c : Char} {i : ℕ}

/-! ### Registers -/

/-- The number of bytes from an index on that pass a test. -/
def countFrom (p : Char → Bool) (l : List Char) (i : ℕ) : Option ℕ := do
  let b ← sliceBytes (bytes l) i (bytes l).length
  return (b.takeWhile fun u => p (char u)).length

/-- The index after an arrangement of vector elements, or nothing if there should be one and is
none. -/
def pastArrangement (l : List Char) (i : ℕ) : Option (Option ℕ) := do
  if byteAt l i = some '.' then
    let i := i + 1 + (← countFrom Char.isDigit l (i + 1))
    return if (byteAt l i).any (· ∈ ['b', 'h', 's', 'd', 'q']) then some (i + 1) else none
  else return some i

/-- The index after an element number in brackets, or nothing if there should be one and is
none. -/
def pastElement (l : List Char) (i : ℕ) : Option (Option ℕ) := do
  if byteAt l i = some '[' then
    let digits ← countFrom Char.isDigit l (i + 1)
    return if digits = 0 ∨ byteAt l (i + 1 + digits) ≠ some ']' then none
      else some (i + (digits + 2))
  else return some i

/-- The index after a mark for zeroing or merging. -/
def pastPredication (l : List Char) (i : ℕ) : ℕ :=
  if byteAt l i = some '/' ∧ (byteAt l (i + 1) = some 'z' ∨ byteAt l (i + 1) = some 'm') then i + 2
  else i

/-- Whether a text in lower case is a numbered register. -/
def isNumberedRegister (l : List Char) : Option Bool := do
  if (bytes l).length < 2 then return false
  else if !registerLetters.contains (← byteAt l 0) then return false
  else
    let digits ← countFrom Char.isDigit l 1
    if digits = 0 ∨ 2 < digits then return false
    else
      match ← pastArrangement l (1 + digits) with
      | none => return false
      | some i =>
        match ← pastElement l i with
        | none => return false
        | some i => return pastPredication l i == (bytes l).length

/-- Whether a text names a register, in any case. -/
def isRegister (l : List Char) : Option Bool :=
  let lower := l.map Char.toLower
  if namedRegisters.contains (String.ofList lower) then return true else isNumberedRegister lower

/-- What is left of a text from a byte on. -/
def LeftAt (l : List Char) (i : ℕ) (r : List Char) : Prop :=
  ∃ before, l = before ++ r ∧ byteLength before = i

lemma LeftAt.cons (h : LeftAt l i (c :: r)) (hc : IsNarrow c) : LeftAt l (i + 1) r := by
  obtain ⟨before, rfl, rfl⟩ := h
  refine ⟨before ++ [c], by simp, ?_⟩
  rw [byteLength_append, byteLength_cons, byteLength_nil, utf8Size_of_isNarrow hc]

lemma LeftAt.byteAt_eq_iff (h : LeftAt l i r) (hc : IsNarrow c) :
    byteAt l i = some c ↔ r.head? = some c := by
  obtain ⟨before, rfl, rfl⟩ := h
  rw [← head?_bytes_eq_iff hc, byteAt, bytes_append, ← length_bytes,
    List.getElem?_append_right le_rfl, Nat.sub_self, List.head?_eq_getElem?]

lemma LeftAt.countFrom_eq {p : Char → Bool} (h : LeftAt l i r) (hp : ∀ c, p c = true → IsNarrow c) :
    countFrom p l i = some (r.takeWhile p).length ∧
      LeftAt l (i + (r.takeWhile p).length) (r.dropWhile p) := by
  obtain ⟨before, rfl, rfl⟩ := h
  have hlength := byteLength_eq_length fun c hc => hp c (List.mem_takeWhile_imp (l := r) hc)
  constructor
  · have hle : byteLength before ≤ (bytes (before ++ r)).length := by
      rw [length_bytes, byteLength_append]
      exact Nat.le_add_right _ _
    rw [countFrom, sliceBytes_eq hle le_rfl, List.take_length, bytes_append, ← length_bytes before,
      List.drop_left, Option.bind_eq_bind, Option.bind_some,
      takeWhile_bytes (readsBytes_of_isNarrow hp), length_bytes, hlength]
    rfl
  · refine ⟨before ++ r.takeWhile p, ?_, ?_⟩
    · rw [List.append_assoc, List.takeWhile_append_dropWhile]
    · rw [byteLength_append, hlength]

lemma LeftAt.eq_length_iff (h : LeftAt l i r) : i = (bytes l).length ↔ r = [] := by
  obtain ⟨before, rfl, rfl⟩ := h
  cases r with
  | nil => simp
  | cons c r =>
      have hpos := Char.utf8Size_pos c
      rw [length_bytes, byteLength_append, byteLength_cons]
      simp only [reduceCtorEq, iff_false]
      omega

lemma LeftAt.any_byteAt {p : Char → Bool} (h : LeftAt l i r) (hp : ReadsBytes p) :
    (byteAt l i).any p = r.head?.any p := by
  obtain ⟨before, rfl, rfl⟩ := h
  cases r with
  | nil => simp [byteAt]
  | cons c r =>
      obtain ⟨d, hd, -, htests⟩ := exists_byteAt before c r
      rw [hd, List.head?_cons, Option.any_some, Option.any_some, htests p hp]

lemma pastArrangement_eq (h : LeftAt l i r) :
    ∃ past, pastArrangement l i = some past ∧
      Option.Rel (LeftAt l) past (Hermetic.Arm.pastArrangement r) := by
  have hnarrow : ∀ c ∈ ['b', 'h', 's', 'd', 'q'], IsNarrow c := by simp [IsNarrow]
  have hletters : ReadsBytes fun c => decide (c ∈ ['b', 'h', 's', 'd', 'q']) :=
    readsBytes_of_isNarrow fun c hc => hnarrow c (of_decide_eq_true hc)
  by_cases hdot : r.head? = some '.'
  · obtain ⟨r, rfl⟩ := List.head?_eq_some_iff.mp hdot
    have hnext := h.cons (show IsNarrow '.' by decide)
    -- digits are single bytes, so that as many bytes as characters are counted
    obtain ⟨hcount, hafter⟩ := hnext.countFrom_eq (p := Char.isDigit) fun _ => isNarrow_of_isDigit
    rw [pastArrangement, if_pos ((h.byteAt_eq_iff (by decide)).mpr hdot), hcount,
      Hermetic.Arm.pastArrangement, Option.bind_eq_bind, Option.bind_some]
    simp only [hafter.any_byteAt hletters]
    cases hd : r.dropWhile Char.isDigit with
    | nil => exact ⟨none, rfl, .none⟩
    | cons c rest =>
        rw [hd] at hafter
        by_cases hc : c ∈ ['b', 'h', 's', 'd', 'q']
        · refine ⟨_, rfl, ?_⟩
          rw [List.head?_cons, Option.any_some, if_pos (by simpa using hc)]
          simp only [if_pos hc]
          exact .some (hafter.cons (hnarrow c hc))
        · refine ⟨_, rfl, ?_⟩
          rw [List.head?_cons, Option.any_some, if_neg (by simpa using hc)]
          simp only [if_neg hc]
          exact .none
  · have hmodel : Hermetic.Arm.pastArrangement r = some r := by
      unfold Hermetic.Arm.pastArrangement
      split
      · exact absurd rfl hdot
      · rfl
    rw [pastArrangement, if_neg (by rwa [h.byteAt_eq_iff (by decide)]), hmodel]
    exact ⟨some i, rfl, .some h⟩

lemma pastElement_eq (h : LeftAt l i r) :
    ∃ past, pastElement l i = some past ∧
      Option.Rel (LeftAt l) past (Hermetic.Arm.pastElement r) := by
  by_cases hbracket : r.head? = some '['
  · obtain ⟨r, rfl⟩ := List.head?_eq_some_iff.mp hbracket
    have hnext := h.cons (show IsNarrow '[' by decide)
    obtain ⟨hcount, hafter⟩ := hnext.countFrom_eq (p := Char.isDigit) fun _ => isNarrow_of_isDigit
    rw [pastElement, if_pos ((h.byteAt_eq_iff (by decide)).mpr hbracket), hcount,
      Hermetic.Arm.pastElement, Option.bind_eq_bind, Option.bind_some]
    simp only [ne_eq, hafter.byteAt_eq_iff (show IsNarrow ']' by decide)]
    refine ⟨_, rfl, ?_⟩
    split
    · next hnot =>
        -- an index counts if it has digits and is closed
        split
        · next hdigits hrest => simp [hdigits, hrest] at hnot
        · exact .none
    · next hclosed =>
        obtain ⟨hlength, hhead⟩ := not_or.mp hclosed
        obtain ⟨d, digits, hdigits⟩ := List.exists_cons_of_ne_nil fun hnil =>
          hlength (List.length_eq_zero_iff.mpr hnil)
        obtain ⟨rest, hrest⟩ := List.head?_eq_some_iff.mp (not_not.mp hhead)
        rw [hrest] at hafter
        have hlast := hafter.cons (show IsNarrow ']' by decide)
        rw [Nat.add_assoc, Nat.add_assoc, Nat.add_comm 1, Nat.add_assoc] at hlast
        rw [hdigits, hrest] at *
        exact .some hlast
  · have hmodel : Hermetic.Arm.pastElement r = some r := by
      unfold Hermetic.Arm.pastElement
      split
      · exact absurd rfl hbracket
      · rfl
    rw [pastElement, if_neg (by rwa [h.byteAt_eq_iff (by decide)]), hmodel]
    exact ⟨some i, rfl, .some h⟩

lemma LeftAt.pastPredication (h : LeftAt l i r) :
    LeftAt l (pastPredication l i) (Hermetic.Arm.pastPredication r) := by
  unfold Arm.pastPredication
  simp only [h.byteAt_eq_iff (show IsNarrow '/' by decide)]
  by_cases hslash : r.head? = some '/'
  · obtain ⟨r, rfl⟩ := List.head?_eq_some_iff.mp hslash
    have hnext := h.cons (show IsNarrow '/' by decide)
    simp only [hnext.byteAt_eq_iff (show IsNarrow 'z' by decide),
      hnext.byteAt_eq_iff (show IsNarrow 'm' by decide)]
    split
    · next hmark =>
        obtain hz | hm := hmark.2
        · obtain ⟨r, rfl⟩ := List.head?_eq_some_iff.mp hz
          exact hnext.cons (by decide)
        · obtain ⟨r, rfl⟩ := List.head?_eq_some_iff.mp hm
          exact hnext.cons (by decide)
    · next hmark =>
        unfold Hermetic.Arm.pastPredication
        split
        · next hz => exact absurd ⟨rfl, .inl (by rw [(List.cons.inj hz).2]; rfl)⟩ hmark
        · next hm => exact absurd ⟨rfl, .inr (by rw [(List.cons.inj hm).2]; rfl)⟩ hmark
        · exact h
  · rw [if_neg fun hmark => hslash hmark.1]
    unfold Hermetic.Arm.pastPredication
    split
    · exact absurd rfl hslash
    · exact absurd rfl hslash
    · exact h

/-- Numbered registers are told by their bytes. -/
lemma isNumberedRegister_eq (l : List Char) :
    isNumberedRegister l = some (Hermetic.Arm.isNumberedRegister l) := by
  cases l with
  | nil => rfl
  | cons c l =>
      obtain ⟨d, hd, -, htests⟩ := exists_byteAt [] c l
      have hnarrow : ∀ c ∈ registerLetters, IsNarrow c := by simp [registerLetters, IsNarrow]
      have hletters : ReadsBytes registerLetters.contains :=
        readsBytes_of_isNarrow fun c hc => hnarrow c (by simpa using hc)
      have hcontains : registerLetters.contains d = registerLetters.contains c :=
        htests _ hletters
      rw [List.nil_append, byteLength_nil] at hd
      rw [isNumberedRegister, Hermetic.Arm.isNumberedRegister, hd]
      simp only [Option.bind_eq_bind, Option.bind_some, hcontains]
      by_cases hletter : registerLetters.contains c = true
      · have hleft : LeftAt (c :: l) 1 l :=
          ⟨[c], rfl, utf8Size_of_isNarrow (hnarrow c (by simpa using hletter))⟩
        obtain ⟨hcount, hafter⟩ :=
          hleft.countFrom_eq (p := Char.isDigit) fun _ => isNarrow_of_isDigit
        simp only [hletter, hcount, Bool.not_true, Bool.true_and, Bool.false_eq_true, if_false,
          Option.bind_some]
        -- a letter alone is no register, in characters because no digit follows it
        by_cases hshort : (bytes (c :: l)).length < 2
        · have hl : l = [] := by
            rw [length_bytes, byteLength_cons] at hshort
            have hpos := Char.utf8Size_pos c
            cases l with
            | nil => rfl
            | cons d l =>
                have hpos := Char.utf8Size_pos d
                rw [byteLength_cons] at hshort
                omega
          rw [if_pos hshort, hl]
          rfl
        · rw [if_neg hshort]
          by_cases hdigits : (l.takeWhile Char.isDigit).length = 0 ∨
              2 < (l.takeWhile Char.isDigit).length
          · have hnot : ((l.takeWhile Char.isDigit).length == 1 ||
                (l.takeWhile Char.isDigit).length == 2) = false := by
              simp only [Bool.or_eq_false_iff, beq_eq_false_iff_ne]
              omega
            rw [if_pos hdigits, hnot]
            rfl
          · have hone : ((l.takeWhile Char.isDigit).length == 1 ||
                (l.takeWhile Char.isDigit).length == 2) = true := by
              simp only [Bool.or_eq_true, beq_iff_eq]
              omega
            -- what may follow the number is gone past part by part, up to the end
            obtain ⟨past, hpast, hrel⟩ := pastArrangement_eq hafter
            rw [if_neg hdigits, hone, hpast, Option.bind_some]
            generalize Hermetic.Arm.pastArrangement _ = model at hrel
            cases hrel with
            | none => rfl
            | some hleft =>
                obtain ⟨past, hpast, hrel⟩ := pastElement_eq hleft
                dsimp only
                rw [hpast, Option.bind_some, Option.bind_some]
                generalize Hermetic.Arm.pastElement _ = model at hrel
                cases hrel with
                | none => rfl
                | some hleft =>
                    have hend := hleft.pastPredication.eq_length_iff
                    rw [← List.isEmpty_iff] at hend
                    refine congrArg some (Bool.eq_iff_iff.mpr ?_)
                    rw [beq_iff_eq]
                    exact hend
      · have hfalse : registerLetters.contains c = false := by simpa using hletter
        simp only [hfalse, Bool.not_false, if_true, Bool.false_and]
        split <;> rfl

/-- Registers are told by their bytes. -/
lemma isRegister_eq (l : List Char) : isRegister l = some (Hermetic.Arm.isRegister l) := by
  unfold isRegister Hermetic.Arm.isRegister
  dsimp only
  split
  · next hnamed => rw [hnamed, Bool.true_or]; rfl
  · next hnamed =>
      rw [isNumberedRegister_eq, show namedRegisters.contains _ = false by simpa using hnamed,
        Bool.false_or]

/-! ### Addresses -/

/-- The relocation that a text is, from its first colon on. -/
def relocation (l : List Char) (hash : Bool) : Checked SyntaxFault Relocation := do
  let text := String.ofList l
  let inner ← tailFrom l 1
  match find ':' inner with
  | none => throw (.malformed .relocationSpecifier text)
  | some colon =>
    let spec ← headTo inner colon
    let rest ← tailFrom inner (colon + 1)
    let symbol ← headTo rest (count isSymbolChar rest)
    if spec.isEmpty || !isSymbolName symbol then
      throw (.malformed .relocationSpecifier text)
    else
      let (offset, tail) ← takeOffsets (← tailFrom rest (count isSymbolChar rest))
      if tail.all Text.isBlank then
        return {
          hash
          spec := String.ofList spec
          symbol := String.ofList symbol
          offset := String.ofList offset }
      else throw (.malformed .relocationOffset text)

/-- The text between the brackets of an indexed reference, and whether its base register is
updated. -/
def unbracketed (l : List Char) : Option (Option (List Char × Bool)) :=
  match Text.before? [']', '!'] l with
  | some inner => do return some (← tailFrom inner 1, true)
  | none =>
    match Text.before? [']'] l with
    | some inner => do return some (← tailFrom inner 1, false)
    | none => return none

/-- What follows the base register of an indexed reference. -/
def indexedRest (l : List Char) : Checked SyntaxFault Indexed.Rest :=
  match l with
  | '#' :: ':' :: _ => do return .relocation (← relocation (l.drop 1) true)
  | ':' :: _ => do return .relocation (← relocation l false)
  | _ => return .text (String.ofList l)

/-- The indexed reference that a text is. -/
def indexed (l : List Char) : Checked SyntaxFault Indexed := do
  let fault := SyntaxFault.malformed .memoryOperand (String.ofList l)
  match ← unbracketed l with
  | none => throw fault
  | some (inner, writeback) =>
    match ← split inner with
    | [] => throw fault
    | base :: pieces =>
      if base.text.isEmpty then throw fault
      else
        match pieces with
        | [] => return { base := String.ofList base.text, writeback }
        | rest :: _ =>
          let rest ← indexedRest (Text.trim (← tailFrom inner rest.offset))
          return { base := String.ofList base.text, rest := some rest, writeback }

/-- The symbol with offsets that a text is. -/
def symbolRef? (l : List Char) : Option (Option MemoryRef) := do
  if l.head?.any isSymbolStart then
    let (offset, tail) ← takeOffsets (← tailFrom l (count isSymbolChar l))
    if tail.isEmpty then
      return some {
        symbol := some (String.ofList (← headTo l (count isSymbolChar l)))
        offset := String.ofList offset }
    else return none
  else return none

lemma relocation_eq (h : l.head? = some ':') (hash : Bool) :
    relocation l hash = within (Hermetic.Arm.relocation l hash) := by
  obtain ⟨inner, rfl⟩ := List.head?_eq_some_iff.mp h
  rw [relocation, Hermetic.Arm.relocation, tailFrom_cons (by decide), List.drop_succ_cons,
    List.drop_zero, liftM_some, pure_bind]
  by_cases hmem : ':' ∈ inner
  · obtain ⟨rest, hrest⟩ := dropWhile_of_mem hmem
    rw [find, if_pos hmem, hrest]
    simp only [headTo_takeWhile, tailFrom_takeWhile, tailFrom_find (by decide) hrest,
      count_eq readsBytes_isSymbolChar, takeOffsets_eq, liftM_some, pure_bind]
    split
    · rfl
    · split <;> rfl
  · rw [find, if_neg hmem, dropWhile_of_notMem hmem]
    rfl

lemma symbolRef?_eq (l : List Char) : symbolRef? l = some (Hermetic.Arm.symbolRef? l) := by
  unfold symbolRef? Hermetic.Arm.symbolRef?
  simp only [headTo_takeWhile, tailFrom_takeWhile, count_eq readsBytes_isSymbolChar,
    takeOffsets_eq, Option.bind_eq_bind, Option.bind_some]
  split
  · generalize Offset.take (l.dropWhile isSymbolChar) = taken
    obtain ⟨offset, tail⟩ := taken
    cases tail <;> rfl
  · rfl

/-- A reference in brackets has a text between them. -/
lemma unbracketed_eq (h : l.head? = some '[') :
    unbracketed l = some (Hermetic.Arm.unbracketed l) := by
  obtain ⟨r, rfl⟩ := List.head?_eq_some_iff.mp h
  have hdrop {ends inner : List Char} (hends : ends.head? ≠ some '[')
      (hinner : Text.before? ends ('[' :: r) = some inner) :
      tailFrom inner 1 = some (inner.drop 1) := by
    rw [Text.before?_eq_some_iff] at hinner
    cases inner with
    | nil => exact absurd (by rw [← List.nil_append ends, ← hinner]; rfl) hends
    | cons c inner =>
        obtain rfl : c = '[' := (List.cons.inj hinner).1.symm
        exact tailFrom_cons (by decide) inner
  unfold unbracketed Hermetic.Arm.unbracketed
  cases hboth : Text.before? [']', '!'] ('[' :: r) with
  | some inner =>
      simp only [hdrop (by decide) hboth]
      rfl
  | none =>
      cases hone : Text.before? [']'] ('[' :: r) with
      | some inner =>
          simp only [hdrop (by decide) hone]
          rfl
      | none => rfl

lemma byteLength_unbracketed {inner : List Char} {writeback : Bool}
    (h : Hermetic.Arm.unbracketed l = some (inner, writeback)) :
    byteLength inner ≤ byteLength l := by
  have hdrop {ends text : List Char} (h : Text.before? ends l = some text) :
      byteLength (text.drop 1) ≤ byteLength l := by
    have happend := byteLength_append (text.take 1) (text.drop 1)
    rw [List.take_append_drop] at happend
    rw [Text.before?_eq_some_iff.mp h, byteLength_append]
    omega
  unfold Hermetic.Arm.unbracketed at h
  split at h
  · next hboth =>
      cases h
      exact hdrop hboth
  · next hone =>
      cases h
      exact hdrop hone
  · cases h

lemma indexedRest_eq (l : List Char) :
    indexedRest l = within (Hermetic.Arm.indexedRest l) := by
  unfold indexedRest
  split
  · rw [relocation_eq rfl, Hermetic.Arm.indexedRest, within_map]
  · rw [relocation_eq rfl, Hermetic.Arm.indexedRest, within_map]
  · next hhash hcolon =>
      rw [Hermetic.Arm.indexedRest]
      · rfl
      · exact hhash
      · exact hcolon

lemma indexed_eq (h : l.head? = some '[') (hsize : byteLength l < 2 ^ 31) :
    indexed l = within (Hermetic.Arm.indexed l) := by
  unfold indexed Hermetic.Arm.indexed
  rw [unbracketed_eq h]
  cases hunbracketed : Hermetic.Arm.unbracketed l with
  | none => rfl
  | some taken =>
      obtain ⟨inner, writeback⟩ := taken
      have hle := byteLength_unbracketed hunbracketed
      simp only [liftM_some, pure_bind, split_eq (show byteLength inner < 2 ^ 31 by omega)]
      cases hpieces : Piece.split inner with
      | nil => rfl
      | cons base pieces =>
          dsimp only
          split
          · rfl
          · cases pieces with
            | nil => rfl
            | cons rest pieces =>
                dsimp only
                rw [tailFrom_of_mem_split (p := rest) (by rw [hpieces]; simp), liftM_some,
                  pure_bind, indexedRest_eq, within_bind]
                rfl

/-! ### Operands -/

/-- The kind of an operand. -/
def kind (l : List Char) : Checked SyntaxFault Operand.Kind := do
  let text := String.ofList l
  let first ← byteAt l 0
  if first = '[' then return .indexed (← indexed l)
  else if first = '{' then return .registerList text
  else
    match Text.after? ['#'] l with
    | some value =>
      if value.head? = some ':' then return .relocation (← relocation value true)
      else return .immediate (some '#') (← parseExpr value)
    | none =>
      if first = ':' then return .relocation (← relocation l false)
      else if isModifier l then return .modifier text
      else if ← isRegister l then return .register text
      else if ← isNumericReference l then return .localLabel text
      else if first.isDigit || first == '-' then return .immediate none (← parseExpr l)
      else
        match ← symbolRef? l with
        | some m => return .memory m
        | none => return .raw text

/-- The operand that a text is. -/
def operand (l : List Char) : Checked SyntaxFault Operand := do
  return { text := String.ofList l, kind := ← kind l }

lemma kind_eq (h : l ≠ []) (hsize : byteLength l < 2 ^ 31) :
    kind l = within (Hermetic.Arm.kind l) := by
  obtain ⟨c, r, rfl⟩ := List.exists_cons_of_ne_nil h
  obtain ⟨first, hfirst, hchars, htests⟩ := exists_byteAt [] c r
  rw [List.nil_append, byteLength_nil] at hfirst
  have hdigit : (first.isDigit || first == '-') = (c.isDigit || c == '-') := by
    have hminus := hchars '-' (by decide)
    rw [htests _ readsBytes_isDigit, show (first == '-') = (c == '-') from
      Bool.eq_iff_iff.mpr (by rwa [beq_iff_eq, beq_iff_eq])]
  -- the first character tells most kinds, and is told by its first byte
  unfold kind
  simp only [hfirst, liftM_some, pure_bind, hchars '[' (by decide), hchars ':' (by decide),
    hchars '\x7b' (by decide), hdigit]
  by_cases hbracket : c = '['
  · subst hbracket
    rw [if_pos rfl, indexed_eq rfl hsize, within_map, Hermetic.Arm.kind]
  rw [if_neg hbracket]
  by_cases hbrace : c = '\x7b'
  · subst hbrace
    rw [if_pos rfl, Hermetic.Arm.kind]
    rfl
  rw [if_neg hbrace]
  by_cases hhash : c = '#'
  · subst hhash
    have hafter : Text.after? ['#'] ('#' :: r) = some r := Text.after?_eq_some_iff.mpr rfl
    rw [hafter]
    dsimp only
    by_cases hcolon : r.head? = some ':'
    · obtain ⟨value, rfl⟩ := List.head?_eq_some_iff.mp hcolon
      rw [if_pos hcolon, relocation_eq hcolon, within_map, Hermetic.Arm.kind, List.drop_succ_cons,
        List.drop_zero]
    · rw [if_neg hcolon, parseExpr_eq, Hermetic.Arm.kind]
      · rfl
      · rintro value rfl
        exact hcolon rfl
  -- a part of an address may do without the hash
  have hafter : Text.after? ['#'] (c :: r) = none := by
    rw [Option.eq_none_iff_forall_ne_some]
    intro value hvalue
    exact hhash (List.cons.inj (Text.after?_eq_some_iff.mp hvalue)).1
  rw [hafter]
  dsimp only
  by_cases hcolon : c = ':'
  · subst hcolon
    rw [if_pos rfl, relocation_eq rfl, within_map, Hermetic.Arm.kind]
  rw [if_neg hcolon, Hermetic.Arm.kind]
  · -- registers, numbers and symbols are told by the whole text
    simp only [isRegister_eq, isNumericReference_eq, parseExpr_eq, symbolRef?_eq, liftM_some,
      pure_bind]
    split
    · rfl
    · split
      · rfl
      · split
        · rfl
        · rw [List.head?_cons, Option.any_some]
          split
          · rfl
          · cases Hermetic.Arm.symbolRef? (c :: r) <;> rfl
  · exact fun _ h => hbracket (List.cons.inj h).1
  · exact fun _ h => hbrace (List.cons.inj h).1
  · exact fun _ h => hhash (List.cons.inj h).1
  · exact fun _ h => hhash (List.cons.inj h).1
  · exact fun _ h => hcolon (List.cons.inj h).1

/-- An operand is taken apart within its text. -/
lemma operand_eq (h : l ≠ []) (hsize : byteLength l < 2 ^ 31) :
    operand l = within (Hermetic.Arm.operand l) := by
  rw [operand, kind_eq h hsize, Hermetic.Arm.operand, within_bind]
  rfl

end Hermetic.Checked.Arm

/-
Operands of x86-64, taken apart by the indices of their bytes.

* `Checked.X86.isRegister`, `Checked.X86.immediate`, `Checked.X86.peel`: registers, constants and
  the decorations after an operand;
* `Checked.X86.memoryRef`: memory references, part by part;
* `Checked.X86.operand_eq`: any operand is taken apart within its text.
-/
import Hermetic.Proofs.Operand.X86
import Hermetic.Proofs.Checked.Expr

namespace Hermetic.Checked.X86

open Text (byteLength byteLength_nil byteLength_cons byteLength_append)
open Hermetic.X86 (startsSymbol hasSegment)

variable {l : List Char}

/-! ### Registers -/

/-- The text between the first and the last byte. -/
def inner (l : List Char) : Option (List Char) := do
  slice l 1 (← sub (byteLength l) 1)

lemma inner_eq {c d : Char} (hc : IsNarrow c) (hd : IsNarrow d) (m : List Char) :
    inner (c :: (m ++ [d])) = some m := by
  have hlength : byteLength (c :: (m ++ [d])) = 1 + byteLength m + 1 := by
    rw [byteLength_cons, byteLength_append, byteLength_cons, byteLength_nil,
      utf8Size_of_isNarrow hc, utf8Size_of_isNarrow hd, Nat.add_assoc]
  have hslice := slice_append [c] m [d]
  rw [byteLength_cons, byteLength_nil, utf8Size_of_isNarrow hc] at hslice
  rw [inner, hlength, sub_eq (Nat.le_add_left _ _), Nat.add_sub_cancel]
  exact hslice

/-- Whether a text that starts with a bracket is a number in brackets. -/
def isIndex (l : List Char) : Option Bool := do
  if 2 < byteLength l ∧ l.getLast? = some ')' then return (← inner l).all Char.isDigit
  else return false

/-- Whether a text names a register. -/
def isRegister : List Char → Option Bool
  | '%' :: name =>
    match find '(' name with
    | none => return !name.isEmpty && name.all Char.isAlphanum
    | some bracket => do
      let stem ← headTo name bracket
      let index ← tailFrom name bracket
      return !stem.isEmpty && stem.all Char.isAlphanum && (← isIndex index)
  | _ => return false

lemma isIndex_eq (l : List Char) :
    isIndex ('(' :: l) = some (match l.reverse with
      | ')' :: digits => !digits.isEmpty && digits.all Char.isDigit
      | _ => false) := by
  have hbracket : '('.utf8Size = 1 := by decide
  rcases List.eq_nil_or_concat l with rfl | ⟨m, d, hm⟩
  · rfl
  · rw [List.concat_eq_append] at hm
    subst hm
    have hlast : ('(' :: (m ++ [d])).getLast? = some ')' ↔ d = ')' := by
      rw [← List.cons_append, List.getLast?_concat, Option.some.injEq]
    rw [List.reverse_append, List.reverse_singleton, List.singleton_append, isIndex]
    simp only [hlast]
    by_cases hd : d = ')'
    · subst hd
      have hclose : ')'.utf8Size = 1 := by decide
      have hlength : byteLength ('(' :: (m ++ [')'])) = byteLength m + 2 := by
        rw [byteLength_cons, byteLength_append, byteLength_cons, byteLength_nil, hbracket, hclose]
        omega
      change _ = some (!m.reverse.isEmpty && m.reverse.all Char.isDigit)
      rw [hlength, inner_eq (by decide) (by decide), List.all_reverse, List.isEmpty_reverse]
      cases m with
      | nil => rfl
      | cons c m =>
          have hpos := Char.utf8Size_pos c
          rw [if_pos ⟨by rw [byteLength_cons]; omega, rfl⟩]
          rfl
    · rw [if_neg fun h => hd h.2]
      split
      · next hcons => exact absurd (List.cons.inj hcons).1 hd
      · rfl

lemma isRegister_eq (l : List Char) : isRegister l = some (Hermetic.X86.isRegister l) := by
  unfold isRegister
  split
  · next name =>
      rw [Hermetic.X86.isRegister]
      by_cases hmem : '(' ∈ name
      · obtain ⟨index, hindex⟩ := dropWhile_of_mem hmem
        rw [find, if_pos hmem]
        simp only [headTo_takeWhile, tailFrom_takeWhile, hindex, Option.bind_eq_bind,
          Option.bind_some, isIndex_eq]
        rfl
      · have happend := List.takeWhile_append_dropWhile (p := (· != '(')) (l := name)
        rw [dropWhile_of_notMem hmem, List.append_nil] at happend
        simp [find, hmem, dropWhile_of_notMem hmem, happend]
  · next hne =>
      unfold Hermetic.X86.isRegister
      split
      · next name => exact (hne name rfl).elim
      · rfl

/-! ### Constants -/

/-- The constant after a `$`. -/
def immediate (l : List Char) : Option Operand.Kind :=
  match Text.after? (gotName ++ "-").toList l with
  | some anchor =>
    if Symbol.isDotLocal (String.ofList anchor) && isSymbolName anchor then
      return .gotDistance (String.ofList anchor)
    else do return .immediate (some '$') (← parseExpr l)
  | none =>
    match (Text.before? "@GOTOFF".toList l).filter isSymbolName with
    | some symbol => return .gotOffset (String.ofList symbol) true
    | none =>
      match (Text.before? "@GOT".toList l).filter isSymbolName with
      | some symbol => return .gotOffset (String.ofList symbol) false
      | none => do return .immediate (some '$') (← parseExpr l)

lemma immediate_eq (l : List Char) : immediate l = some (Hermetic.X86.immediate l) := by
  unfold immediate Hermetic.X86.immediate
  rw [parseExpr_eq]
  cases Text.after? (gotName ++ "-").toList l with
  | some anchor =>
      dsimp only
      split <;> rfl
  | none =>
      cases (Text.before? "@GOTOFF".toList l).filter isSymbolName with
      | some symbol => rfl
      | none => cases (Text.before? "@GOT".toList l).filter isSymbolName <;> rfl

/-! ### Memory references -/

/-- The segment override at the front of a reference, and what follows it. -/
def takeSegment (l : List Char) : Checked OperandPart (Option String × List Char) :=
  if l.head? = some '%' then
    match find ':' l with
    | none => throw .segmentOverride
    | some colon => do
      return (some (String.ofList (← headTo l colon)), ← tailFrom l (colon + 1))
  else return (none, l)

/-- The symbol at the front of a reference with its offsets and its relocation tag, and what
follows them. -/
def takeSymbol (m : MemoryRef) (l : List Char) : Checked OperandPart (MemoryRef × List Char) := do
  let name ← headTo l (count isSymbolChar l)
  let (offset, rest) ← takeOffsets (← tailFrom l (count isSymbolChar l))
  let m := { m with symbol := some (String.ofList name), offset := String.ofList offset }
  match rest with
  | '@' :: rest =>
    let len := count (fun c => c.isAlphanum || c == '_') rest
    if len = 0 then throw .relocationTag
    else
      let tag ← headTo rest len
      let (offset, rest) ← takeOffsets (← tailFrom rest len)
      return ({ m with tag := some (String.ofList tag), tagOffset := String.ofList offset }, rest)
  | _ => return (m, rest)

/-- The offsets and the symbol at the front of a reference, and what follows them. -/
def takeDisplacement (m : MemoryRef) (l : List Char) :
    Checked OperandPart (MemoryRef × List Char) := do
  match ← takeOffsets l with
  | ([], rest) => if startsSymbol rest then takeSymbol m rest else return (m, rest)
  | (offset, rest) =>
    if rest.head? = some '+' then
      if startsSymbol (← tailFrom rest 1) then
        takeSymbol { m with lead := some (String.ofList offset) } (← tailFrom rest 1)
      else return ({ m with offset := String.ofList offset }, rest)
    else return ({ m with offset := String.ofList offset }, rest)

/-- Whether a part of the brackets, if there is one, names a register. -/
def isRegister? : Option (List Char) → Option Bool
  | none => return true
  | some l => isRegister l

/-- The bracketed part of a memory reference, from its text with the brackets. -/
def baseIndex? (l : List Char) : Option (Option BaseIndex) := do
  let parts := ((← inner l).splitOn ',').map Text.trim
  let part (i : ℕ) : Option (List Char) := parts[i]?.filter (!·.isEmpty)
  if parts.length ≤ 3 && (← isRegister? (part 0)) && (← isRegister? (part 1)) &&
      (part 2).all (·.all Char.isDigit) then
    return some {
      text := String.ofList l
      base := (part 0).map String.ofList
      index := (part 1).map String.ofList
      scale := (part 2).map String.ofList }
  else return none

/-- The bracketed part at the front of a text, and what follows it. -/
def takeBase (m : MemoryRef) (l : List Char) : Checked OperandPart (MemoryRef × List Char) :=
  if l.head? = some '(' then
    match find ')' l with
    | none => throw .memoryOperand
    | some close => do
      match ← baseIndex? (← headTo l (close + 1)) with
      | some base => return ({ m with base := some base }, ← tailFrom l (close + 1))
      | none => throw .memoryOperand
  else return (m, l)

/-- The parts of a memory reference, and what follows them. -/
def takeMemory (l : List Char) : Checked OperandPart (MemoryRef × List Char) := do
  let (segment, l) ← takeSegment l
  let (m, l) ← takeDisplacement { segment } l
  takeBase m l

/-- The memory reference that a text is. -/
def memoryRef (l : List Char) : Checked SyntaxFault MemoryRef := do
  let text := String.ofList l
  let (m, rest) ← (takeMemory l).adapt (.malformed · text)
  if !rest.all Text.isBlank then
    throw (.strayInOperand (String.ofList (Text.trim rest)) text)
  else if m.symbol.isNone && m.base.isNone && m.offset.isEmpty then
    throw (.malformed .operand text)
  else return m

lemma takeSegment_eq (l : List Char) :
    takeSegment l = within (Hermetic.X86.takeSegment l) := by
  unfold takeSegment Hermetic.X86.takeSegment
  split
  · next hhead =>
      obtain ⟨r, rfl⟩ := List.head?_eq_some_iff.mp hhead
      by_cases hmem : ':' ∈ '%' :: r
      · obtain ⟨rest, hrest⟩ := dropWhile_of_mem hmem
        rw [find, if_pos hmem, hrest]
        simp only [headTo_takeWhile, tailFrom_find (by decide) hrest]
        rfl
      · rw [find, if_neg hmem, dropWhile_of_notMem hmem]
        rfl
  · next hhead =>
      split
      · exact absurd rfl hhead
      · rfl

lemma readsBytes_isTagChar : ReadsBytes fun c => c.isAlphanum || c == '_' := by
  refine readsBytes_of_isNarrow fun c h => ?_
  rcases Bool.or_eq_true _ _ ▸ h with h | h
  · exact isNarrow_of_isAlphanum h
  · obtain rfl : c = '_' := by simpa using h
    decide

lemma takeSymbol_eq (m : MemoryRef) (l : List Char) :
    takeSymbol m l = within (Hermetic.X86.takeSymbol m l) := by
  unfold takeSymbol Hermetic.X86.takeSymbol
  simp only [count_eq readsBytes_isSymbolChar, count_eq readsBytes_isTagChar, headTo_takeWhile,
    tailFrom_takeWhile, takeOffsets_eq, liftM_some, pure_bind]
  generalize Offset.take (l.dropWhile isSymbolChar) = taken
  obtain ⟨offset, rest⟩ := taken
  dsimp only
  split
  · next rest =>
      have hdrop : (rest.takeWhile (fun c => c.isAlphanum || c == '_') ++
          rest.dropWhile fun c => c.isAlphanum || c == '_').drop
            (rest.takeWhile fun c => c.isAlphanum || c == '_').length =
          rest.dropWhile fun c => c.isAlphanum || c == '_' :=
        List.drop_left
      rw [List.takeWhile_append_dropWhile] at hdrop
      change _ = within (if (rest.takeWhile fun c => c.isAlphanum || c == '_').isEmpty then _
        else _)
      rw [hdrop]
      cases rest.takeWhile fun c => c.isAlphanum || c == '_' with
      | nil => rfl
      | cons c tag =>
          have hpos := Char.utf8Size_pos c
          rw [if_neg (by rw [byteLength_cons]; omega)]
          rfl
  · next hne => simp_all

lemma takeDisplacement_eq {m : MemoryRef} (l : List Char) :
    takeDisplacement m l = within (Hermetic.X86.takeDisplacement m l) := by
  unfold takeDisplacement Hermetic.X86.takeDisplacement
  simp only [takeOffsets_eq, liftM_some, pure_bind]
  generalize Offset.take l = taken
  obtain ⟨offset, rest⟩ := taken
  cases offset with
  | nil =>
      dsimp only
      split
      · exact takeSymbol_eq m rest
      · rfl
  | cons c offset =>
      dsimp only
      split
      · next hplus =>
        obtain ⟨after, rfl⟩ := List.head?_eq_some_iff.mp hplus
        simp only [tailFrom_cons (show '+'.utf8Size = 1 by decide), liftM_some, pure_bind]
        split
        · exact takeSymbol_eq _ after
        · rfl
      · next hplus =>
        split
        · exact absurd rfl hplus
        · rfl

lemma isRegister?_eq (p : Option (List Char)) :
    isRegister? p = some (p.all Hermetic.X86.isRegister) := by
  cases p with
  | none => rfl
  | some l => exact isRegister_eq l

lemma baseIndex?_eq (m : List Char) :
    baseIndex? ('(' :: (m ++ [')'])) = some (Hermetic.X86.baseIndex? m) := by
  have htext : String.ofList ('(' :: (m ++ [')'])) = "(" ++ String.ofList m ++ ")" := by
    rw [← String.toList_inj]
    simp
  rw [baseIndex?, inner_eq (by decide) (by decide), Hermetic.X86.baseIndex?]
  simp only [isRegister?_eq, htext, Option.bind_eq_bind, Option.bind_some]
  split <;> rfl

lemma takeBase_eq (m : MemoryRef) (l : List Char) :
    takeBase m l = within (Hermetic.X86.takeBase m l) := by
  unfold takeBase
  split
  · next hhead =>
      obtain ⟨text, rfl⟩ := List.head?_eq_some_iff.mp hhead
      rw [Hermetic.X86.takeBase]
      by_cases hmem : ')' ∈ text
      · obtain ⟨rest, hrest⟩ := dropWhile_of_mem hmem
        have hbase : headTo ('(' :: text) (byteLength ('(' :: text.takeWhile (· != ')')) + 1) =
            some ('(' :: (text.takeWhile (· != ')') ++ [')'])) :=
          headTo_find (c := ')') (l := '(' :: text) (by decide) hrest
        have htail : tailFrom ('(' :: text) (byteLength ('(' :: text.takeWhile (· != ')')) + 1) =
            some rest := tailFrom_find (c := ')') (l := '(' :: text) (by decide) hrest
        rw [find, if_pos (List.mem_cons_of_mem _ hmem),
          show ('(' :: text).takeWhile (· != ')') = '(' :: text.takeWhile (· != ')') from rfl]
        simp only [hbase, htail, baseIndex?_eq, liftM_some, pure_bind, hrest]
        cases Hermetic.X86.baseIndex? (text.takeWhile (· != ')')) <;> rfl
      · rw [find, if_neg (by simpa using hmem), dropWhile_of_notMem hmem]
        rfl
  · next hhead =>
      unfold Hermetic.X86.takeBase
      split
      · exact absurd rfl hhead
      · rfl

lemma takeMemory_eq (l : List Char) : takeMemory l = within (Hermetic.X86.takeMemory l) := by
  rw [takeMemory, Hermetic.X86.takeMemory]
  simp only [takeSegment_eq, takeDisplacement_eq, takeBase_eq, within_bind]

/-- A memory reference is taken apart within its text. -/
lemma memoryRef_eq (l : List Char) : memoryRef l = within (Hermetic.X86.memoryRef l) := by
  rw [memoryRef, Hermetic.X86.memoryRef, takeMemory_eq, adapt_within]
  cases Hermetic.X86.takeMemory l with
  | error part => rfl
  | ok taken =>
      obtain ⟨m, rest⟩ := taken
      change (if _ then _ else _) = within (if _ then _ else _)
      split
      · rfl
      · split <;> rfl

/-! ### Operands -/

/-- A text without the groups in braces that end it, and these groups, in front of others. -/
def peel (decorators l : List Char) : Option (List Char × List Char) :=
  if l.getLast? = some '\x7d' then
    match _h : rfind '\x7b' l with
    | none => some (l, decorators)
    | some brace => do
      let group ← tailFrom l brace
      let body ← (headTo l brace).attach
      peel (group ++ decorators) (Text.trimEnd body.1)
  else some (l, decorators)
termination_by l.length
decreasing_by
  have h₁ := length_lt_of_rfind _h body.2
  have h₂ := (List.dropWhile_suffix (l := body.1.reverse) Text.isBlank).length_le
  rw [Text.trimEnd, List.length_reverse]
  rw [List.length_reverse] at h₂
  omega

/-- An operand without the decorations after it, and these.  An operand in braces has none. -/
def undecorated (l : List Char) : Option (List Char × List Char) :=
  if l.head? = some '\x7b' then return (l, []) else peel [] l

/-- The kind of an operand without indirection and decorations. -/
def kind (l : List Char) : Checked SyntaxFault Operand.Kind :=
  match l with
  | '{' :: _ => return .raw (String.ofList l)
  | '$' :: value => immediate value
  | _ => do
    if l = (gotName ++ "(%rip)").toList then return .gotAddress
    else if ← isNumericReference l then return .localLabel (String.ofList l)
    else if l.head? = some '%' ∧ hasSegment l = false then
      if ← isRegister l then return .register (String.ofList l)
      else throw (.malformed .register (String.ofList l))
    else return .memory (← memoryRef l)

/-- Whether a `*` marks an operand as indirect, and the operand without it. -/
def unstarred (l : List Char) : Bool × List Char :=
  if l.head? = some '*' then (true, Text.trimStart l.tail) else (false, l)

/-- The operand that a text is. -/
def operand (l : List Char) : Checked SyntaxFault Operand := do
  let (body, decorators) ← undecorated (unstarred l).2
  return {
    text := String.ofList l
    indirect := (unstarred l).1
    kind := ← kind body
    decorators := String.ofList decorators }

lemma peel_eq (decorators l : List Char) :
    peel decorators l.reverse = some ((Hermetic.X86.peel decorators l).1.reverse,
      (Hermetic.X86.peel decorators l).2) := by
  fun_induction Hermetic.X86.peel decorators l with
  | case1 decorators l hl =>
      -- no brace opens what the last one closes
      have hmem : '\x7b' ∉ l := fun hmem => by
        obtain ⟨rest, hrest⟩ := dropWhile_of_mem hmem
        rw [hl] at hrest
        cases hrest
      have hnone : rfind '\x7b' ('\x7d' :: l).reverse = none := if_neg (by simpa using hmem)
      rw [peel, if_pos (by simp)]
      split
      · rfl
      · next brace hbrace =>
          rw [hnone] at hbrace
          cases hbrace
  | case2 decorators l c rest hl ih =>
      have hhead := List.head?_dropWhile_not (· != '\x7b') l
      rw [hl] at hhead
      obtain rfl : c = '\x7b' := by simpa using hhead
      have happend := List.takeWhile_append_dropWhile (p := (· != '\x7b')) (l := l)
      rw [hl] at happend
      -- the last brace that opens a group is the first one backwards
      have hsplit : ('\x7d' :: l).reverse =
          rest.reverse ++ ('\x7b' :: ((l.takeWhile (· != '\x7b')).reverse ++ ['\x7d'])) := by
        nth_rewrite 1 [← happend]
        simp
      have hbrace : rfind '\x7b' ('\x7d' :: l).reverse = some (byteLength rest.reverse) := by
        rw [rfind, if_pos (by rw [hsplit]; simp), List.reverse_reverse]
        change some (byteLength (l.dropWhile (· != '\x7b')).tail.reverse) = _
        rw [hl]
        rfl
      have htail := tailFrom_append rest.reverse
        ('\x7b' :: ((l.takeWhile (· != '\x7b')).reverse ++ ['\x7d']))
      have hbody := headTo_append rest.reverse
        ('\x7b' :: ((l.takeWhile (· != '\x7b')).reverse ++ ['\x7d']))
      rw [← hsplit] at htail hbody
      rw [peel, if_pos (by simp)]
      split
      · next hnone =>
          rw [hbrace] at hnone
          cases hnone
      · next brace hsome =>
          rw [hbrace] at hsome
          cases hsome
          rw [htail, Option.bind_eq_bind, Option.bind_some, attach_bind_of_eq hbody]
          dsimp only
          rw [Text.trimEnd, List.reverse_reverse, ← ih]
          simp
  | case3 decorators l hl =>
      have hlast : ¬ l.reverse.getLast? = some '\x7d' := by
        rw [List.getLast?_reverse]
        intro h
        obtain ⟨r, rfl⟩ := List.head?_eq_some_iff.mp h
        exact hl r rfl
      rw [peel, if_neg hlast]

lemma undecorated_eq (l : List Char) :
    undecorated l = some (Hermetic.X86.undecorated l) := by
  unfold undecorated Hermetic.X86.undecorated
  split
  · next hhead =>
      obtain ⟨r, rfl⟩ := List.head?_eq_some_iff.mp hhead
      rfl
  · next hhead =>
      split
      · exact absurd rfl hhead
      · have h := peel_eq [] l.reverse
        rw [List.reverse_reverse] at h
        rw [h]

lemma kind_eq (l : List Char) : kind l = within (Hermetic.X86.kind l) := by
  unfold kind
  split
  · rfl
  · next value =>
      rw [Hermetic.X86.kind, immediate_eq]
      rfl
  · next hbrace hdollar =>
      rw [Hermetic.X86.kind]
      · simp only [isNumericReference_eq, isRegister_eq, memoryRef_eq, liftM_some, pure_bind]
        split
        · rfl
        · split
          · rfl
          · split
            · split <;> rfl
            · cases Hermetic.X86.memoryRef l <;> rfl
      · exact hbrace
      · exact hdollar

/-- An operand is taken apart within its text. -/
lemma operand_eq (l : List Char) : operand l = within (Hermetic.X86.operand l) := by
  have hmodel : Hermetic.X86.operand l = (do
      return {
        text := String.ofList l
        indirect := (unstarred l).1
        kind := ← Hermetic.X86.kind (Hermetic.X86.undecorated (unstarred l).2).1
        decorators := String.ofList (Hermetic.X86.undecorated (unstarred l).2).2 }) := by
    unfold Hermetic.X86.operand
    split
    next indirect body hstart =>
      have hbody : unstarred l = (indirect, body) := by
        rw [← hstart, unstarred]
        split
        · next hhead =>
            obtain ⟨rest, rfl⟩ := List.head?_eq_some_iff.mp hhead
            rfl
        · next hhead =>
            split
            · exact absurd rfl hhead
            · rfl
      rw [hbody]
  rw [operand, hmodel]
  simp only [undecorated_eq, kind_eq, liftM_some, pure_bind, within_bind, within_pure]

end Hermetic.Checked.X86

/-
Memory references of x86-64 are read back from how they are written.

* `X86.Displaced`, `X86.Spelled`: references whose parts are spelled as such;
* `X86.spelled_of_memoryRef`: what is read as a reference is spelled as one, and written as it
  was read;
* `X86.memoryRef_display`: a reference that is spelled as such is read back.
-/
import Hermetic.Operand.X86
import Hermetic.Proofs.Operand.Offset
import Hermetic.Proofs.Outcome
import Hermetic.Proofs.Text.Characters

namespace Hermetic.X86

open Offset (IsOffset EndsOffset)

/-! ### Parts of references -/

/-- The characters of a relocation tag. -/
def isTagChar (ch : Char) : Bool :=
  ch.isAlphanum || ch == '_'

/-- The offsets and the symbol of a reference are spelled as such. -/
structure Displaced (m : MemoryRef) : Prop where
  lead : ∀ s, m.lead = some s → IsOffset s.toList ∧ s.toList ≠ [] ∧ m.symbol.isSome = true
  symbol : ∀ s, m.symbol = some s → isSymbolName s.toList = true
  offset : IsOffset m.offset.toList
  signed : m.symbol.isSome = true →
    ∀ ch, m.offset.toList.head? = some ch → isSymbolChar ch = false
  tag : ∀ t, m.tag = some t →
    m.symbol.isSome = true ∧ t.toList ≠ [] ∧ ∀ ch ∈ t.toList, isTagChar ch = true
  tagOffset : IsOffset m.tagOffset.toList
  tagSigned : ∀ ch, m.tagOffset.toList.head? = some ch → isTagChar ch = false
  untagged : m.tag = none → m.tagOffset = ""

/-- A reference is spelled as one. -/
structure Spelled (m : MemoryRef) : Prop extends Displaced m where
  segment : ∀ s, m.segment = some s →
    ∃ name, s.toList = '%' :: name ∧ name ≠ [] ∧ ∀ ch ∈ name, ch.isAlpha = true
  base : ∀ b, m.base = some b →
    ∃ inner, b.text.toList = '(' :: (inner ++ [')']) ∧ ')' ∉ inner ∧ baseIndex? inner = some b
  given : m.symbol.isSome = true ∨ m.base.isSome = true ∨ m.offset ≠ ""

/-- The segment of a reference, as it is written. -/
def segmentText (m : MemoryRef) : List Char :=
  match m.segment with
  | some s => s.toList ++ [':']
  | none => []

/-- The offsets before the symbol of a reference, as they are written. -/
def leadText (m : MemoryRef) : List Char :=
  match m.lead with
  | some s => s.toList ++ ['+']
  | none => []

/-- The relocation tag of a reference, as it is written. -/
def tagText (m : MemoryRef) : List Char :=
  match m.tag with
  | some t => '@' :: (t.toList ++ m.tagOffset.toList)
  | none => []

/-- The bracketed part of a reference, as it is written. -/
def baseText (m : MemoryRef) : List Char :=
  match m.base with
  | some b => b.text.toList
  | none => []

/-- The symbol of a reference and what stands after it, as they are written. -/
def symbolText (m : MemoryRef) : List Char :=
  (m.symbol.getD "").toList ++ (m.offset.toList ++ tagText m)

lemma toList_display (m : MemoryRef) :
    m.display.toList = segmentText m ++ (leadText m ++ (symbolText m ++ baseText m)) := by
  obtain ⟨segment, lead, symbol, offset, tag, tagOffset, base⟩ := m
  cases segment <;> cases lead <;> cases tag <;> cases base <;>
    simp [MemoryRef.display, segmentText, leadText, symbolText, tagText, baseText]

/-- What follows the symbol of a reference. -/
def Follows (r : List Char) : Prop :=
  ∀ ch, r.head? = some ch → Text.isBlank ch = true ∨ ch = '('

variable {m m' : MemoryRef} {l r : List Char}

lemma not_isTagChar {ch : Char} (h : isSymbolChar ch = false) : isTagChar ch = false := by
  simp only [isSymbolChar, isTagChar, Bool.or_eq_false_iff] at h ⊢
  exact ⟨h.1.1.1, h.1.2⟩

lemma not_isAlphanum {ch : Char} (h : isSymbolChar ch = false) : ch.isAlphanum = false := by
  simp only [isSymbolChar, Bool.or_eq_false_iff] at h
  exact h.1.1.1

lemma Follows.head (h : Follows r) {ch : Char} (hch : r.head? = some ch) :
    isSymbolChar ch = false ∧ ch ≠ '-' ∧ ch ≠ '+' ∧ ch ≠ '@' := by
  rcases h ch hch with hblank | rfl
  · refine ⟨?_, ?_, ?_, ?_⟩
    · cases hc : isSymbolChar ch with
      | false => rfl
      | true => exact (not_isBlank_of_isSymbolChar hc hblank).elim
    all_goals
      rintro rfl
      exact absurd hblank (by decide)
  · decide

lemma Follows.endsOffset (h : Follows r) : EndsOffset r where
  head ch hch := ⟨not_isAlphanum (h.head hch).1, (h.head hch).2.1⟩
  noTerm := by
    cases r with
    | nil => rfl
    | cons ch r =>
        obtain ⟨hsymbol, hminus, hplus, -⟩ := h.head rfl
        refine Offset.termLength_cons (fun hdigit => ?_) hplus hminus
        rw [isSymbolChar_of_isAlphanum (Offset.isAlphanum_of_isDigit hdigit)] at hsymbol
        cases hsymbol

lemma exists_cons_of_startsSymbol (h : startsSymbol l = true) :
    ∃ ch r, l = ch :: r ∧ isSymbolStart ch = true ∧ ch ≠ '+' ∧ ch ≠ '-' := by
  cases l with
  | nil => cases h
  | cons ch r =>
      have hstart : isSymbolStart ch = true := h
      refine ⟨ch, r, rfl, hstart, ?_, ?_⟩
      all_goals
        rintro rfl
        exact absurd hstart (by decide)

/-- An offset ends before a plus and a symbol, and before a tag. -/
lemma endsOffset_plus (h : startsSymbol l = true) : EndsOffset ('+' :: l) where
  head d hd := by
    cases hd
    decide
  noTerm := by
    obtain ⟨ch, r, rfl, hstart, -, hminus⟩ := exists_cons_of_startsSymbol h
    have hdigits := Offset.digitsLength_cons (l := r) (not_isDigit_of_isSymbolStart hstart)
    have hsign : Offset.signLength ('+' :: ch :: r) = 1 := by
      simp [Offset.signLength, hminus]
    simp [Offset.termLength, hsign, hdigits]

lemma endsOffset_at (l : List Char) : EndsOffset ('@' :: l) where
  head d hd := by
    cases hd
    decide
  noTerm := rfl

/-! ### Reading the parts -/

/-- A symbol with an offset, and before it what stands there already. -/
lemma displaced_withSymbol {name offset : List Char}
    (hlead : ∀ s, m.lead = some s → IsOffset s.toList ∧ s.toList ≠ []) (htag : m.tag = none)
    (htagOffset : m.tagOffset = "") (hname : isSymbolName name = true) (hoffset : IsOffset offset)
    (hsigned : ∀ ch, offset.head? = some ch → isSymbolChar ch = false) :
    Displaced { m with
      symbol := some (String.ofList name), offset := String.ofList offset } where
  lead s hs := ⟨(hlead s hs).1, (hlead s hs).2, rfl⟩
  symbol s hs := by
    cases hs
    rwa [String.toList_ofList]
  offset := by rwa [String.toList_ofList]
  signed _ := by rwa [String.toList_ofList]
  tag t ht := by
    rw [show m.tag = some t from ht] at htag
    cases htag
  tagOffset := by
    rw [show m.tagOffset = "" from htagOffset]
    exact Offset.isOffset_nil
  tagSigned := by
    rw [show m.tagOffset = "" from htagOffset]
    nofun
  untagged _ := htagOffset

/-- A symbol with a tag behind it. -/
lemma Displaced.withTag (h : Displaced m) (hsymbol : m.symbol.isSome = true)
    {tag tagOffset : List Char} (hne : tag ≠ []) (htag : ∀ ch ∈ tag, isTagChar ch = true)
    (hoffset : IsOffset tagOffset)
    (hsigned : ∀ ch, tagOffset.head? = some ch → isTagChar ch = false) :
    Displaced { m with
      tag := some (String.ofList tag), tagOffset := String.ofList tagOffset } where
  lead := h.lead
  symbol := h.symbol
  offset := h.offset
  signed := h.signed
  tag t ht := by
    cases ht
    rw [String.toList_ofList]
    exact ⟨hsymbol, hne, htag⟩
  tagOffset := by rwa [String.toList_ofList]
  tagSigned := by rwa [String.toList_ofList]
  untagged := nofun

/-- An offset is taken off the front of a text. -/
lemma exists_take (l : List Char) :
    ∃ offset rest, Offset.take l = (offset, rest) ∧ l = offset ++ rest :=
  ⟨_, _, rfl, (Offset.take_append l).symm⟩

lemma head?_of_append {l r : List Char} {ch : Char} (h : l.head? = some ch) :
    (l ++ r).head? = some ch := by
  rw [List.head?_append, h]
  rfl

/-- What is read as a symbol with its offsets and its tag. -/
lemma displaced_of_takeSymbol (h : takeSymbol m l = .ok (m', r)) (hl : startsSymbol l = true)
    (hr : Follows r) (hlead : ∀ s, m.lead = some s → IsOffset s.toList ∧ s.toList ≠ [])
    (htag : m.tag = none) (htagOffset : m.tagOffset = "") :
    Displaced m' ∧ l = symbolText m' ++ r ∧ m'.segment = m.segment ∧ m'.lead = m.lead ∧
      m'.symbol.isSome = true ∧ m'.base = m.base := by
  -- the text is the name, an offset and what follows
  obtain ⟨name, after, hsplit, hname, hafter, hchars, hsigned⟩ := exists_span isSymbolChar l
  obtain ⟨offset, rest, htake, rfl⟩ := exists_take after
  have hsymbol : isSymbolName name = true := by
    obtain ⟨ch, l, rfl, hstart, -⟩ := exists_cons_of_startsSymbol hl
    rw [List.takeWhile_cons_of_pos (isSymbolChar_of_isSymbolStart hstart)] at hname
    rw [← hname, isSymbolName_cons]
    exact ⟨hstart, fun d hd => List.mem_takeWhile_imp hd⟩
  have hdisplaced (hoffset : IsOffset offset) : Displaced { m with
      symbol := some (String.ofList name), offset := String.ofList offset } :=
    displaced_withSymbol hlead htag htagOffset hsymbol hoffset
      fun ch hch => hsigned ch (head?_of_append hch)
  unfold takeSymbol at h
  rw [hname, hafter, htake] at h
  dsimp only at h
  split at h
  · -- a tag follows the offset, with an offset of its own
    next rest' =>
      obtain ⟨tag, more, htagSplit, htagName, -, htagChars, htagSigned⟩ :=
        exists_span isTagChar rest'
      obtain ⟨tagOffset, last, htake', rfl⟩ := exists_take more
      have htagName' : (rest'.takeWhile fun c => c.isAlphanum || c == '_') = tag := htagName
      have hdrop : rest'.drop tag.length = tagOffset ++ last := by
        rw [htagSplit, List.drop_left]
      rw [htagName', hdrop, htake'] at h
      split at h
      · cases h
      · next hne =>
          cases h
          have hoffset := (Offset.isOffset_of_take htake (endsOffset_at rest').head).1
          have htagOffset' := (Offset.isOffset_of_take htake' hr.endsOffset.head).1
          refine ⟨(hdisplaced hoffset).withTag rfl (by simpa using hne) htagChars htagOffset'
            fun ch hch => htagSigned ch (head?_of_append hch), ?_, rfl, rfl, rfl, rfl⟩
          rw [hsplit, htagSplit]
          simp [symbolText, tagText]
  · cases h
    have hoffset := (Offset.isOffset_of_take htake hr.endsOffset.head).1
    refine ⟨hdisplaced hoffset, ?_, rfl, rfl, rfl, rfl⟩
    rw [hsplit]
    simp [symbolText, tagText, htag]

/-- What is read as a displacement. -/
lemma displaced_of_takeDisplacement {segment : Option String}
    (h : takeDisplacement { segment } l = .ok (m, r)) (hr : Follows r) :
    Displaced m ∧ l = leadText m ++ (symbolText m ++ r) ∧ m.segment = segment ∧ m.base = none := by
  obtain ⟨offset, rest, htake, hsplit⟩ := exists_take l
  unfold takeDisplacement at h
  rw [htake] at h
  dsimp only at h
  -- a number alone, which has no symbol
  have hnumber (hoffset : m = { segment, offset := String.ofList offset }) (hrest : rest = r) :
      Displaced m ∧ l = leadText m ++ (symbolText m ++ r) ∧ m.segment = segment ∧
        m.base = none := by
    subst hoffset hrest
    have hoffset := (Offset.isOffset_of_take htake hr.endsOffset.head).1
    refine ⟨⟨nofun, nofun, ?_, nofun, nofun, Offset.isOffset_nil, nofun, fun _ => rfl⟩, ?_, rfl,
      rfl⟩
    · rwa [String.toList_ofList]
    · rw [hsplit]
      simp [leadText, symbolText, tagText]
  split at h
  · next hpair =>
      cases hpair
      obtain rfl : l = rest := hsplit
      split at h
      · next hstart =>
          obtain ⟨hdisplaced, htext, hsegment, hlead, -, hbase⟩ :=
            displaced_of_takeSymbol h hstart hr nofun rfl rfl
          refine ⟨hdisplaced, ?_, hsegment, hbase⟩
          rw [leadText, hlead]
          exact htext
      · cases h
        exact hnumber rfl rfl
  · next hpair =>
      cases hpair
      split at h
      · -- a sum of a number and a symbol, unless what follows the plus is none
        next after =>
          split at h
          · next hstart =>
              have hoffset := (Offset.isOffset_of_take htake (endsOffset_plus hstart).head).1
              have hne : offset ≠ [] := by
                rintro rfl
                exact absurd rfl ‹_›
              have hlead (s : String) (hs : some (String.ofList offset) = some s) :
                  IsOffset s.toList ∧ s.toList ≠ [] := by
                cases hs
                rw [String.toList_ofList]
                exact ⟨hoffset, hne⟩
              obtain ⟨hdisplaced, htext, hsegment, hlead', -, hbase⟩ :=
                displaced_of_takeSymbol h hstart hr hlead rfl rfl
              refine ⟨hdisplaced, ?_, hsegment, hbase⟩
              rw [leadText, hlead', hsplit, htext]
              simp
          · cases h
            exact hnumber rfl rfl
      · cases h
        exact hnumber rfl rfl

/-- What is read as a bracketed part. -/
lemma base_of_takeBase (h : takeBase m l = .ok (m', r)) :
    m' = m ∧ l = r ∧ (∀ inner, l ≠ '(' :: inner) ∨
      ∃ b inner, m' = { m with base := some b } ∧ b.text.toList = '(' :: (inner ++ [')']) ∧
        ')' ∉ inner ∧ baseIndex? inner = some b ∧ l = b.text.toList ++ r := by
  unfold takeBase at h
  split at h
  · next inner =>
      -- the parentheses hold what stands in front of the first that closes
      obtain ⟨a, after, hsplit, ha, hafter, hchars, hhead⟩ := exists_span (· != ')') inner
      rw [ha, hafter] at h
      split at h
      · cases h
      · next ch rest =>
          obtain rfl : ch = ')' := by simpa using hhead ch rfl
          split at h
          · next b hb =>
              cases h
              have htext : b.text.toList = '(' :: (a ++ [')']) := by
                unfold baseIndex? at hb
                dsimp only at hb
                split at hb
                · cases hb
                  simp
                · cases hb
              refine .inr ⟨b, a, rfl, htext, fun hmem => ?_, hb, ?_⟩
              · exact absurd (hchars _ hmem) (by decide)
              · rw [hsplit, htext]
                simp
          · cases h
  · next hnot =>
      cases h
      exact .inl ⟨rfl, rfl, fun inner heq => hnot inner heq⟩

/-- A segment that is in front of a text. -/
lemma takeSegment_name {name : List Char} (hchars : ∀ ch ∈ name, ch.isAlpha = true) :
    takeSegment ('%' :: (name ++ ':' :: r)) = .ok (some (String.ofList ('%' :: name)), r) := by
  have hall : ∀ d ∈ '%' :: name, (d != ':') = true := by
    intro d hd
    rcases List.mem_cons.mp hd with rfl | hd
    · decide
    · cases hcase : d != ':' with
      | true => rfl
      | false =>
          obtain rfl : d = ':' := by simpa using hcase
          exact absurd (hchars _ hd) (by decide)
  have hhead : ∀ d, (':' :: r).head? = some d → (d != ':') = false := by
    intro d hd
    cases hd
    rfl
  unfold takeSegment
  rw [← List.cons_append, dropWhile_append_of_stop hall hhead, takeWhile_append_of_stop hall hhead]
  rfl

/-- What is read as a segment, where a text that starts like a register has one. -/
lemma segment_of_takeSegment {segment : Option String} (h : takeSegment l = .ok (segment, r))
    (hsegment : l.head? = some '%' → hasSegment l = true) :
    segment = none ∧ l = r ∨ ∃ name, segment = some (String.ofList ('%' :: name)) ∧ name ≠ [] ∧
      (∀ ch ∈ name, ch.isAlpha = true) ∧ l = '%' :: (name ++ ':' :: r) := by
  cases l with
  | nil =>
      cases h
      exact .inl ⟨rfl, rfl⟩
  | cons ch l =>
      by_cases hch : ch = '%'
      · subst hch
        obtain ⟨name, after, rfl, hname, hafter, hchars, -⟩ := exists_span Char.isAlpha l
        have hcolon := hsegment rfl
        simp only [hasSegment, hname, hafter, Bool.and_eq_true, Bool.not_eq_true',
          List.isEmpty_eq_false_iff, beq_iff_eq] at hcolon
        obtain ⟨after, rfl⟩ := List.head?_eq_some_iff.mp hcolon.2
        rw [takeSegment_name hchars] at h
        cases h
        exact .inr ⟨name, rfl, hcolon.1, hchars, rfl⟩
      · have hnone : takeSegment (ch :: l) = .ok (none, ch :: l) := by
          unfold takeSegment
          split
          · next heq =>
              cases heq
              exact (hch rfl).elim
          · rfl
        rw [hnone] at h
        cases h
        exact .inl ⟨rfl, rfl⟩

lemma displaced_withBase (h : Displaced m) (b : Option BaseIndex) :
    Displaced { m with base := b } :=
  ⟨h.lead, h.symbol, h.offset, h.signed, h.tag, h.tagOffset, h.tagSigned, h.untagged⟩

/-- What is read as a reference is spelled as one, and written as it was read, but for the blanks
at its end. -/
lemma spelled_of_memoryRef (h : memoryRef l = .ok m)
    (hsegment : l.head? = some '%' → hasSegment l = true) :
    Spelled m ∧ ∃ blanks, (∀ ch ∈ blanks, Text.isBlank ch = true) ∧
      l = m.display.toList ++ blanks := by
  unfold memoryRef at h
  dsimp only at h
  split at h
  · cases h
  next m' rest hmemory =>
  split at h
  · cases h
  next hblank =>
  split at h
  · cases h
  next hgiven =>
  cases h
  have hblank : ∀ ch ∈ rest, Text.isBlank ch = true := by simpa using hblank
  have hgiven : m.symbol.isSome = true ∨ m.base.isSome = true ∨ m.offset ≠ "" := by
    cases hs : m.symbol with
    | some _ => exact .inl rfl
    | none =>
        cases hb : m.base with
        | some _ => exact .inr (.inl rfl)
        | none => exact .inr (.inr (by simpa [hs, hb] using hgiven))
  obtain ⟨⟨segment, l₁⟩, hseg, hmemory⟩ := Outcome.bind_eq_ok_iff.mp hmemory
  obtain ⟨⟨m₁, l₂⟩, hdisplacement, hbase⟩ := Outcome.bind_eq_ok_iff.mp hmemory
  -- after the displacement stand blanks, or a base register in parentheses
  have hfollows : Follows l₂ := by
    rcases base_of_takeBase hbase with ⟨-, rfl, -⟩ | ⟨b, inner, -, htext, -, -, rfl⟩
    · intro ch hch
      exact .inl (hblank ch (List.mem_of_mem_head? hch))
    · intro ch hch
      rw [htext] at hch
      cases hch
      exact .inr rfl
  obtain ⟨hdisplaced, htext₁, hsegment₁, hbase₁⟩ :=
    displaced_of_takeDisplacement hdisplacement hfollows
  -- a segment is in front of everything else
  have hsegmentOf (s : String) (hs : segment = some s) :
      ∃ name, s.toList = '%' :: name ∧ name ≠ [] ∧ ∀ ch ∈ name, ch.isAlpha = true := by
    rcases segment_of_takeSegment hseg hsegment with ⟨hnone, -⟩ | ⟨name, hsome, hne, hchars, -⟩
    · rw [hnone] at hs
      cases hs
    · rw [hsome] at hs
      cases hs
      exact ⟨name, String.toList_ofList, hne, hchars⟩
  have htext : l = segmentText m₁ ++ l₁ := by
    rcases segment_of_takeSegment hseg hsegment with ⟨hnone, rfl⟩ | ⟨name, hsome, -, -, rfl⟩
    · rw [segmentText, hsegment₁, hnone]
      rfl
    · rw [segmentText, hsegment₁, hsome]
      simp
  -- what was read, put together: without a base register the blanks are what is left
  rcases base_of_takeBase hbase with ⟨rfl, rfl, -⟩ | ⟨b, inner, rfl, hb, hinner, hread, hl₂⟩
  · refine ⟨⟨hdisplaced, fun s hs => hsegmentOf s (hsegment₁ ▸ hs), ?_, hgiven⟩, l₂, hblank, ?_⟩
    · intro b hb
      rw [hbase₁] at hb
      cases hb
    · rw [htext, htext₁, toList_display]
      simp [baseText, hbase₁]
  · refine ⟨⟨displaced_withBase hdisplaced _, fun s hs => hsegmentOf s (hsegment₁ ▸ hs), ?_,
      hgiven⟩, rest, hblank, ?_⟩
    · intro b' hb'
      cases hb'
      exact ⟨inner, hb, hinner, hread⟩
    · rw [htext, htext₁, hl₂, toList_display]
      simp [baseText, segmentText, leadText, symbolText, tagText]

/-! ### Reading back -/

lemma takeSegment_append (h : Spelled m) (hl : l.head? ≠ some '%') :
    takeSegment (segmentText m ++ l) = .ok (m.segment, l) := by
  unfold segmentText
  cases hs : m.segment with
  | none =>
      change takeSegment l = _
      unfold takeSegment
      split
      · exact (hl rfl).elim
      · rfl
  | some s =>
      obtain ⟨name, hname, -, hchars⟩ := h.segment s hs
      have htext : s.toList ++ [':'] ++ l = '%' :: (name ++ ':' :: l) := by simp [hname]
      dsimp only
      rw [htext, takeSegment_name hchars, ← hname, String.ofList_toList]

/-- What follows a displacement that is read back. -/
def Bracketed (r : List Char) : Prop :=
  ∀ ch, r.head? = some ch → ch = '('

lemma Bracketed.follows (h : Bracketed r) : Follows r :=
  fun ch hch => .inr (h ch hch)

/-- A run of characters ends where an offset, or what follows it, starts with another. -/
lemma head_append_stop {p : Char → Bool} {offset r : List Char}
    (hoffset : ∀ d, offset.head? = some d → p d = false)
    (hr : ∀ d, r.head? = some d → p d = false) :
    ∀ d, (offset ++ r).head? = some d → p d = false := by
  intro d hd
  cases offset with
  | nil => exact hr d hd
  | cons => exact hoffset d hd

/-- After a symbol stand its tag or what may follow an operand. -/
lemma Bracketed.head_tagText (hr : Bracketed r) :
    ∀ d, (tagText m ++ r).head? = some d → isSymbolChar d = false := by
  intro d hd
  unfold tagText at hd
  split at hd
  · cases hd
    decide
  · exact (hr.follows.head hd).1

lemma takeSymbol_append (m₀ : MemoryRef) (h : Displaced m) (hsome : m.symbol.isSome = true)
    (hr : Bracketed r) (h₀ : m₀.tag = none) (h₀' : m₀.tagOffset = "") :
    takeSymbol m₀ (symbolText m ++ r) = .ok ({ m₀ with
      symbol := m.symbol, offset := m.offset, tag := m.tag, tagOffset := m.tagOffset }, r) := by
  obtain ⟨s, hs⟩ := Option.isSome_iff_exists.mp hsome
  obtain ⟨ch, name, hname, -, hchars⟩ := exists_cons_of_isSymbolName (h.symbol s hs)
  have htext : symbolText m ++ r = s.toList ++ (m.offset.toList ++ (tagText m ++ r)) := by
    simp [symbolText, hs]
  have hends : EndsOffset (tagText m ++ r) := by
    unfold tagText
    cases m.tag with
    | none => exact hr.follows.endsOffset
    | some t => exact endsOffset_at _
  -- the name ends before the offset, whose first character is a sign
  have hhead : ∀ d, (m.offset.toList ++ (tagText m ++ r)).head? = some d →
      isSymbolChar d = false :=
    head_append_stop (fun d hd => h.signed hsome d hd) hr.head_tagText
  rw [htext]
  unfold takeSymbol
  rw [takeWhile_append_of_stop hchars hhead, dropWhile_append_of_stop hchars hhead,
    h.offset.take_append hends]
  dsimp only
  rw [String.ofList_toList, String.ofList_toList]
  cases ht : m.tag with
  | none =>
      have htag : tagText m = [] := by simp [tagText, ht]
      rw [htag, List.nil_append, h.untagged ht, hs, h₀, h₀']
      split
      · exact (hr.follows.head rfl).2.2.2 rfl |>.elim
      · simp
  | some t =>
      obtain ⟨-, hne, htagChars⟩ := h.tag t ht
      have htag : tagText m ++ r = '@' :: (t.toList ++ (m.tagOffset.toList ++ r)) := by
        simp [tagText, ht]
      -- the tag ends before its own offset
      have htagHead : ∀ d, (m.tagOffset.toList ++ r).head? = some d → isTagChar d = false :=
        head_append_stop (fun d hd => h.tagSigned d hd)
          fun d hd => not_isTagChar (hr.follows.head hd).1
      have htagTake : (t.toList ++ (m.tagOffset.toList ++ r)).takeWhile
          (fun c => c.isAlphanum || c == '_') = t.toList :=
        takeWhile_append_of_stop htagChars htagHead
      have hempty : ¬ t.toList.isEmpty = true := by simpa using hne
      rw [htag, hs]
      split
      · next rest heq =>
          obtain rfl : t.toList ++ (m.tagOffset.toList ++ r) = rest := (List.cons.inj heq).2
          rw [htagTake, if_neg hempty, List.drop_left,
            h.tagOffset.take_append hr.follows.endsOffset]
          dsimp only
          rw [String.ofList_toList, String.ofList_toList]
      · next hnot => exact (hnot _ rfl).elim

/-- A symbol that comes first is read with what belongs to it. -/
lemma takeDisplacement_of_startsSymbol (m : MemoryRef) (h : startsSymbol l = true) :
    takeDisplacement m l = takeSymbol m l := by
  obtain ⟨ch, r, rfl, hstart, hplus, hminus⟩ := exists_cons_of_startsSymbol h
  have htake : Offset.take (ch :: r) = ([], ch :: r) := Offset.take_of_zero
    (Offset.termLength_cons (not_isDigit_of_isSymbolStart hstart) hplus hminus)
  rw [takeDisplacement, htake]
  exact if_pos h

/-- An offset that a plus joins to a symbol stands before it. -/
lemma takeDisplacement_of_lead (m : MemoryRef) {lead : String} (hlead : IsOffset lead.toList)
    (hne : lead.toList ≠ []) (h : startsSymbol l = true) :
    takeDisplacement m (lead.toList ++ '+' :: l) = takeSymbol { m with lead := some lead } l := by
  rw [takeDisplacement, hlead.take_append (endsOffset_plus h)]
  split
  · next heq => exact (hne (congrArg Prod.fst heq)).elim
  · next heq =>
      cases heq
      split
      · next after heq =>
          obtain rfl : l = after := (List.cons.inj heq).2
          rw [if_pos h, String.ofList_toList]
      · next hnot => exact (hnot _ rfl).elim

/-- Another offset stands alone. -/
lemma takeDisplacement_of_offset (segment : Option String) {offset : String}
    (h : IsOffset offset.toList) (hr : Bracketed r) :
    takeDisplacement { segment } (offset.toList ++ r) = .ok ({ segment, offset }, r) := by
  have hstart : startsSymbol r = false := by
    cases r with
    | nil => rfl
    | cons ch r =>
        obtain rfl := hr ch rfl
        rfl
  rw [takeDisplacement, h.take_append hr.follows.endsOffset]
  dsimp only
  split
  · next heq =>
      simp only [Prod.mk.injEq, String.toList_eq_nil_iff] at heq
      obtain ⟨rfl, rfl⟩ := heq
      rw [hstart]
      rfl
  · next heq =>
      cases heq
      split
      · exact ((hr.follows.head rfl).2.2.1 rfl).elim
      · simp

lemma takeDisplacement_append (h : Displaced m) (hr : Bracketed r) {segment : Option String}
    (hbase : m.base = none) (hsegment : m.segment = segment) :
    takeDisplacement { segment } (leadText m ++ (symbolText m ++ r)) = .ok (m, r) := by
  obtain ⟨segment', lead, symbol, offset, tag, tagOffset, base⟩ := m
  obtain rfl : base = none := hbase
  obtain rfl : segment' = segment := hsegment
  -- without a symbol there is a number alone
  cases symbol with
  | none =>
      obtain rfl : lead = none :=
        Option.eq_none_iff_forall_ne_some.mpr fun s hs => nomatch (h.lead s hs).2.2
      obtain rfl : tag = none :=
        Option.eq_none_iff_forall_ne_some.mpr fun t ht => nomatch (h.tag t ht).1
      obtain rfl : tagOffset = "" := h.untagged rfl
      have htake := takeDisplacement_of_offset segment' h.offset hr
      simpa [leadText, symbolText, tagText] using htake
  | some s =>
      have hstarts : startsSymbol (symbolText
          (⟨segment', lead, some s, offset, tag, tagOffset, none⟩ : MemoryRef) ++ r) = true := by
        obtain ⟨ch, name, hname, hstart, -⟩ := exists_cons_of_isSymbolName (h.symbol s rfl)
        simp [symbolText, hname, startsSymbol, hstart]
      cases lead with
      | none =>
          rw [leadText, List.nil_append, takeDisplacement_of_startsSymbol _ hstarts]
          exact takeSymbol_append { segment := segment' } h rfl hr rfl rfl
      | some lead =>
          obtain ⟨hlead, hne, -⟩ := h.lead lead rfl
          rw [leadText, List.append_assoc, List.singleton_append,
            takeDisplacement_of_lead _ hlead hne hstarts]
          exact takeSymbol_append { segment := segment', lead := some lead } h rfl hr rfl rfl

lemma bracketed_baseText (h : Spelled m) : Bracketed (baseText m) := by
  intro ch hch
  unfold baseText at hch
  split at hch
  · next b hb =>
      obtain ⟨inner, htext, -⟩ := h.base b hb
      rw [htext] at hch
      cases hch
      rfl
  · cases hch

lemma takeBase_baseText (h : Spelled m) :
    takeBase { m with base := none } (baseText m) = .ok (m, []) := by
  obtain ⟨segment, lead, symbol, offset, tag, tagOffset, base⟩ := m
  unfold baseText
  cases base with
  | none => rfl
  | some b =>
      obtain ⟨inner, htext, hinner, hread⟩ := h.base b rfl
      have hall : ∀ d ∈ inner, (d != ')') = true := by
        intro d hd
        have hne : d ≠ ')' := fun heq => hinner (heq ▸ hd)
        simpa using hne
      have hhead : ∀ d, [')'].head? = some d → (d != ')') = false := by
        intro d hd
        cases hd
        rfl
      dsimp only
      rw [htext]
      unfold takeBase
      split
      · next heq =>
          cases heq
          rw [dropWhile_append_of_stop hall hhead, takeWhile_append_of_stop hall hhead, hread]
      · next hnot => exact (hnot _ rfl).elim

/-- The characters of a reference before its bracketed part, but for the segment. -/
lemma forall_mem_leadText_append (h : Displaced m) : ∀ ch ∈ leadText m ++ symbolText m,
    isSymbolChar ch = true ∨ ch = '+' ∨ ch = '-' ∨ ch = '@' := by
  have hoffset {l : List Char} (hl : IsOffset l) (ch : Char) (hch : ch ∈ l) :
      isSymbolChar ch = true ∨ ch = '+' ∨ ch = '-' ∨ ch = '@' := by
    rcases hl.forall_mem ch hch with halpha | rfl | rfl
    · exact .inl (isSymbolChar_of_isAlphanum halpha)
    · exact .inr (.inl rfl)
    · exact .inr (.inr (.inl rfl))
  -- by the parts: number, name, offset and tag
  intro ch hch
  simp only [symbolText, List.mem_append] at hch
  rcases hch with hch | hch | hch | hch
  · unfold leadText at hch
    split at hch
    · next s hs =>
        rcases List.mem_append.mp hch with hch | hch
        · exact hoffset (h.lead s hs).1 ch hch
        · exact .inr (.inl (by simpa using hch))
    · cases hch
  · cases hs : m.symbol with
    | none =>
        rw [hs] at hch
        cases hch
    | some s =>
        rw [hs] at hch
        obtain ⟨-, -, -, -, hchars⟩ := exists_cons_of_isSymbolName (h.symbol s hs)
        exact .inl (hchars ch hch)
  · exact hoffset h.offset ch hch
  · unfold tagText at hch
    split at hch
    · next t ht =>
        rcases List.mem_cons.mp hch with rfl | hch
        · exact .inr (.inr (.inr rfl))
        · rcases List.mem_append.mp hch with hch | hch
          · have htag := (h.tag t ht).2.2 ch hch
            simp only [isTagChar, Bool.or_eq_true, beq_iff_eq] at htag
            rcases htag with htag | rfl
            · exact .inl (isSymbolChar_of_isAlphanum htag)
            · exact .inl (by decide)
          · exact hoffset h.tagOffset ch hch
    · cases hch

/-- A reference that is spelled as one is read back. -/
theorem memoryRef_display (h : Spelled m) : memoryRef m.display.toList = .ok m := by
  -- no other part starts as a segment does
  have hhead : (leadText m ++ (symbolText m ++ baseText m)).head? ≠ some '%' := by
    rw [← List.append_assoc]
    intro hpercent
    cases htext : leadText m ++ symbolText m with
    | nil =>
        rw [htext, List.nil_append] at hpercent
        exact absurd (bracketed_baseText h _ hpercent) (by decide)
    | cons ch l =>
        have hmem := forall_mem_leadText_append h.toDisplaced ch (by rw [htext]; simp)
        rw [htext] at hpercent
        cases hpercent
        revert hmem
        decide
  have hsegment := takeSegment_append h hhead
  have hdisplacement : takeDisplacement { segment := m.segment }
      (leadText m ++ (symbolText m ++ baseText m)) = .ok ({ m with base := none }, baseText m) :=
    takeDisplacement_append (m := { m with base := none }) (displaced_withBase h.toDisplaced none)
      (bracketed_baseText h) rfl rfl
  have hmemory : takeMemory m.display.toList = .ok (m, []) := by
    rw [toList_display]
    simp only [takeMemory, hsegment, hdisplacement, takeBase_baseText h, bind, Except.bind]
  -- one of the parts that make it a reference is there
  have hgiven : ¬ (m.symbol.isNone && m.base.isNone && m.offset.isEmpty) = true := by
    rcases h.given with hsome | hsome | hne
    · obtain ⟨s, hs⟩ := Option.isSome_iff_exists.mp hsome
      simp [hs]
    · obtain ⟨b, hb⟩ := Option.isSome_iff_exists.mp hsome
      simp [hb]
    · simp [hne]
  unfold memoryRef
  rw [hmemory]
  dsimp only
  rw [if_neg (by decide), if_neg hgiven]

/-- What is read as a reference, with or without a segment. -/
lemma memoryRef_of_kind {body : List Char} (h : kind body = .ok (.memory m)) :
    memoryRef body = .ok m ∧ (body.head? = some '%' → hasSegment body = true) := by
  unfold kind at h
  split at h
  · cases h
  · next value =>
      obtain hi : immediate value = .memory m := by simpa using h
      unfold immediate at hi
      repeat' split at hi
      all_goals cases hi
  · split at h
    · cases h
    · split at h
      · cases h
      · split at h
        · split at h <;> cases h
        · next hregister =>
            obtain ⟨m', hm', heq⟩ := Outcome.map_eq_ok_iff.mp h
            cases heq
            refine ⟨hm', fun hhead => ?_⟩
            cases hseg : hasSegment body with
            | true => rfl
            | false => exact (hregister ⟨hhead, hseg⟩).elim

end Hermetic.X86

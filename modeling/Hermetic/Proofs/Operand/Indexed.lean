/-
References in square brackets are read back from how they are written.

* `Text.squeezed`: a text without its blanks;
* `Piece.CutState`, `Piece.cutsFrom`: commas cut one character at a time, with
  `Piece.cutCommas_eq_cutsFrom`: the pieces are the same;
* `Piece.exists_of_split`: the first piece of a text and what follows it, cut out again after the
  blanks around them are gone;
* `Arm.relocation_display`, `Arm.indexed_display`: an address is written as it was read, but for
  blanks, and is read back.
-/
import Hermetic.Operand.Arm
import Hermetic.Proofs.Operand.X86

namespace Hermetic

/-! ### Blanks -/

namespace Text

/-- A text without its blanks. -/
def squeezed (l : List Char) : List Char :=
  l.filter fun c => !isBlank c

@[simp] lemma squeezed_append (l r : List Char) : squeezed (l ++ r) = squeezed l ++ squeezed r :=
  List.filter_append ..

lemma squeezed_between {a b : List Char} (h : squeezed a = squeezed b) (before after : List Char) :
    squeezed (before ++ (a ++ after)) = squeezed (before ++ (b ++ after)) := by
  simp only [squeezed_append, h]

lemma squeezed_blanks {l : List Char} (h : ∀ c ∈ l, isBlank c = true) : squeezed l = [] := by
  rw [squeezed, List.filter_eq_nil_iff]
  intro c hc
  simp [h c hc]

lemma squeezed_reverse (l : List Char) : squeezed l.reverse = (squeezed l).reverse :=
  List.filter_reverse ..

lemma squeezed_trimStart (l : List Char) : squeezed (trimStart l) = squeezed l := by
  conv_rhs => rw [← List.takeWhile_append_dropWhile (p := isBlank) (l := l), squeezed_append,
    squeezed_blanks fun c hc => List.mem_takeWhile_imp hc]
  rfl

lemma squeezed_trim (l : List Char) : squeezed (trim l) = squeezed l := by
  have hend : squeezed (trimStart l).reverse = squeezed (trimStart (trimStart l).reverse) :=
    (squeezed_trimStart _).symm
  rw [trim, trimEnd, squeezed_reverse]
  change (squeezed (trimStart (trimStart l).reverse)).reverse = _
  rw [← hend, squeezed_reverse, List.reverse_reverse, squeezed_trimStart]

end Text

/-! ### Cuts -/

namespace Piece

/-- What the next character is read as. -/
inductive Reading
  | plain
  | quoted
  | escaped
deriving DecidableEq

/-- Where a cut stands: how many brackets are open, and whether in a string. -/
structure CutState where
  depth : Int := 0
  reading : Reading := .plain
deriving DecidableEq

/-- The state after a character. -/
def CutState.step (s : CutState) (c : Char) : CutState :=
  match s.reading with
  | .quoted => ⟨s.depth, if c = '\\' then .escaped else if c = '"' then .plain else .quoted⟩
  | .escaped => ⟨s.depth, .quoted⟩
  | .plain =>
    if c = '(' ∨ c = '[' ∨ c = '{' then ⟨s.depth + 1, .plain⟩
    else if c = ')' ∨ c = ']' ∨ c = '}' then ⟨s.depth - 1, .plain⟩
    else ⟨s.depth, if c = '"' then .quoted else .plain⟩

/-- The state after a text. -/
def CutState.run (s : CutState) (l : List Char) : CutState :=
  l.foldl step s

/-- The text between the commas that are reached where nothing is open. -/
def cutsFrom (s : CutState) : List Char → List (List Char)
  | [] => [[]]
  | c :: l => if s = {} ∧ c = ',' then [] :: cutsFrom {} l else push c (cutsFrom (s.step c) l)

/-- The pieces are the same if they are cut one character at a time. -/
lemma cutCommas_eq_cutsFrom (depth : Int) (quoted : Bool) (l : List Char) :
    cutCommas depth quoted l = cutsFrom ⟨depth, if quoted then .quoted else .plain⟩ l := by
  fun_induction cutCommas depth quoted l with
  | case1 => rfl
  | case2 depth quoted c h =>
      simp only [Bool.and_eq_true, Bool.not_eq_true', beq_iff_eq] at h
      obtain ⟨⟨rfl, rfl⟩, rfl⟩ := h
      rfl
  | case3 depth quoted c h =>
      rw [cutsFrom, if_neg]
      · rfl
      · rintro ⟨hs, rfl⟩
        cases quoted
        · cases hs
          exact h rfl
        · cases hs
  -- a backslash in a string goes past two characters at once
  | case4 depth d l ih =>
      rw [cutsFrom, if_neg (by simp), cutsFrom, if_neg (by simp [CutState.step]), ih]
      rfl
  | case5 depth c d l hc ih =>
      rw [cutsFrom, if_neg (by simp), ih]
      congr 2
      by_cases hquote : c = '"' <;> simp [CutState.step, hc, hquote]
  | case6 depth quoted c d l hq hc ih =>
      obtain rfl : quoted = false := by simpa using hq
      obtain ⟨rfl, rfl⟩ := hc
      rw [cutsFrom, if_pos ⟨rfl, rfl⟩, ih]
      rfl
  | case7 depth quoted c d l hq hc hopen ih =>
      obtain rfl : quoted = false := by simpa using hq
      rw [cutsFrom, if_neg (by rintro ⟨hs, rfl⟩; cases hs; exact hc ⟨rfl, rfl⟩), ih]
      simp [CutState.step, hopen]
  | case8 depth quoted c d l hq hc hopen hclose ih =>
      obtain rfl : quoted = false := by simpa using hq
      rw [cutsFrom, if_neg (by rintro ⟨hs, rfl⟩; cases hs; exact hc ⟨rfl, rfl⟩), ih]
      simp [CutState.step, hopen, hclose]
  | case9 depth quoted c d l hq hc hopen hclose ih =>
      obtain rfl : quoted = false := by simpa using hq
      rw [cutsFrom, if_neg (by rintro ⟨hs, rfl⟩; cases hs; exact hc ⟨rfl, rfl⟩), ih]
      congr 2
      by_cases hquote : c = '"' <;> simp [CutState.step, hopen, hclose, hquote]

lemma cutCommas_eq (l : List Char) : cutCommas 0 false l = cutsFrom {} l :=
  cutCommas_eq_cutsFrom 0 false l

lemma exists_push {c : Char} {q p : List Char} {qs ps : List (List Char)}
    (h : push c (q :: qs) = p :: ps) : p = c :: q ∧ ps = qs := by
  cases h
  exact ⟨rfl, rfl⟩

lemma cutsFrom_ne_nil (s : CutState) (l : List Char) : cutsFrom s l ≠ [] := by
  cases l with
  | nil => exact List.cons_ne_nil _ _
  | cons c l =>
      rw [cutsFrom]
      split
      · exact List.cons_ne_nil _ _
      · exact push_ne_nil _ _

variable {s : CutState} {a b l p : List Char} {ps : List (List Char)}

lemma cutsFrom_cons_eq_singleton {c : Char} (h : cutsFrom s (c :: l) = [c :: l]) :
    ¬ (s = {} ∧ c = ',') ∧ cutsFrom (s.step c) l = [l] := by
  rw [cutsFrom] at h
  split at h
  · cases h
  · next hcomma =>
      obtain ⟨q, qs, hq⟩ := List.exists_cons_of_ne_nil (cutsFrom_ne_nil (s.step c) l)
      rw [hq] at h ⊢
      obtain ⟨hcons, rfl⟩ := exists_push h
      rw [(List.cons.inj hcons).2]
      exact ⟨hcomma, rfl⟩

/-- The parts of a text that is not cut are not cut. -/
lemma cutsFrom_append_eq_singleton (h : cutsFrom s (a ++ b) = [a ++ b]) :
    cutsFrom s a = [a] ∧ cutsFrom (s.run a) b = [b] := by
  induction a generalizing s with
  | nil => exact ⟨rfl, h⟩
  | cons c a ih =>
      obtain ⟨hcomma, h⟩ := cutsFrom_cons_eq_singleton h
      obtain ⟨ha, hb⟩ := ih h
      refine ⟨?_, hb⟩
      rw [cutsFrom, if_neg hcomma, ha]
      rfl

/-- A comma where nothing is open ends a piece. -/
lemma cutsFrom_append_comma (h : cutsFrom s p = [p]) (hrun : s.run p = {}) (r : List Char) :
    cutsFrom s (p ++ ',' :: r) = p :: cutsFrom {} r := by
  induction p generalizing s with
  | nil =>
      obtain rfl : s = {} := hrun
      rfl
  | cons c p ih =>
      obtain ⟨hcomma, h⟩ := cutsFrom_cons_eq_singleton h
      rw [List.cons_append, cutsFrom, if_neg hcomma, ih h hrun]
      rfl

/-- The first piece of a text is all of it, or ends at a comma where nothing is open. -/
lemma exists_of_cutsFrom (h : cutsFrom s l = p :: ps) :
    cutsFrom s p = [p] ∧ (l = p ∧ ps = [] ∨
      s.run p = {} ∧ ∃ r, l = p ++ ',' :: r ∧ ps = cutsFrom {} r) := by
  induction l generalizing s p with
  | nil =>
      cases h
      exact ⟨rfl, .inl ⟨rfl, rfl⟩⟩
  | cons c l ih =>
      rw [cutsFrom] at h
      split at h
      · next hcomma =>
          cases h
          exact ⟨rfl, .inr ⟨hcomma.1, l, by rw [hcomma.2]; rfl, rfl⟩⟩
      · next hcomma =>
          obtain ⟨q, qs, hq⟩ := List.exists_cons_of_ne_nil (cutsFrom_ne_nil (s.step c) l)
          rw [hq] at h
          obtain ⟨rfl, rfl⟩ := exists_push h
          obtain ⟨hkept, hrest⟩ := ih hq
          refine ⟨by rw [cutsFrom, if_neg hcomma, hkept]; rfl, ?_⟩
          rcases hrest with ⟨rfl, hnil⟩ | ⟨hrun, r, rfl, hr⟩
          · exact .inl ⟨rfl, hnil⟩
          · exact .inr ⟨hrun, r, rfl, hr⟩

/-! ### Cuts without the blanks around them -/

/-- A blank opens and closes nothing. -/
lemma step_blank {c : Char} (hc : Text.isBlank c = true) :
    ({} : CutState).step c = {} ∧ (s.step c = {} → s = {}) := by
  have hne (d : Char) (hd : Text.isBlank d = false) : c ≠ d := by
    rintro rfl
    rw [hc] at hd
    cases hd
  have hplain (depth : Int) : CutState.step ⟨depth, .plain⟩ c = ⟨depth, .plain⟩ := by
    simp [CutState.step, hne '(' (by decide), hne '[' (by decide), hne '{' (by decide),
      hne ')' (by decide), hne ']' (by decide), hne '}' (by decide), hne '"' (by decide)]
  refine ⟨hplain 0, fun h => ?_⟩
  obtain ⟨depth, reading⟩ := s
  cases reading with
  | plain => exact (hplain depth).symm.trans h
  | quoted =>
      simp [CutState.step, hne '\\' (by decide), hne '"' (by decide)] at h
  | escaped => simp [CutState.step] at h

lemma run_blanks {blanks : List Char} (h : ∀ c ∈ blanks, Text.isBlank c = true) :
    ({} : CutState).run blanks = {} ∧ (s.run blanks = {} → s = {}) := by
  induction blanks generalizing s with
  | nil => exact ⟨rfl, id⟩
  | cons c blanks ih =>
      have hc := h c List.mem_cons_self
      have hblanks : ∀ d ∈ blanks, Text.isBlank d = true :=
        fun d hd => h d (List.mem_cons_of_mem _ hd)
      refine ⟨?_, fun hrun => (step_blank hc).2 ((ih hblanks).2 hrun)⟩
      change (({} : CutState).step c).run blanks = {}
      rw [(step_blank (s := {}) hc).1]
      exact (ih (s := {}) hblanks).1

/-- A text that is not cut is not cut without the blanks around it, and leaves as much open. -/
lemma cutsFrom_trim (h : cutsFrom {} l = [l]) : cutsFrom {} (Text.trim l) = [Text.trim l] ∧
    (({} : CutState).run l = {} → ({} : CutState).run (Text.trim l) = {}) := by
  obtain ⟨after, hsplit, hafter⟩ := exists_append_trim l
  have hbefore : ∀ c ∈ l.takeWhile Text.isBlank, Text.isBlank c = true :=
    fun c hc => List.mem_takeWhile_imp hc
  generalize Text.trim l = kept at hsplit ⊢
  generalize l.takeWhile Text.isBlank = before at hsplit hbefore
  subst hsplit
  have hrest := (cutsFrom_append_eq_singleton h).2
  rw [(run_blanks (s := {}) hbefore).1] at hrest
  refine ⟨(cutsFrom_append_eq_singleton hrest).1, fun hrun => ?_⟩
  rw [CutState.run, List.foldl_append, List.foldl_append] at hrun
  have hstart : before.foldl CutState.step {} = {} := (run_blanks (s := {}) hbefore).1
  rw [hstart] at hrun
  exact (run_blanks hafter).2 hrun

lemma not_all_blank (h : Text.trim l ≠ []) (r : List Char) :
    ¬ (l ++ r).all Text.isBlank = true := by
  rw [List.all_append, Bool.and_eq_true]
  exact fun hall => h (trim_eq_nil_of_blank hall.1)

/-- The first piece of a text, and what follows its comma if there is one, are the same after the
blanks around the piece are gone. -/
lemma exists_of_split {p : Piece} {ps : List Piece} (h : split l = p :: ps) (hne : p.text ≠ []) :
    (ps = [] ∧ p.text = Text.trim l ∧ ∃ q, split p.text = [q] ∧ q.text = p.text) ∨
    ∃ q qs cut r, ps = q :: qs ∧ l = cut ++ ',' :: r ∧ p.text = Text.trim cut ∧
      Text.trim (Text.dropBytes q.offset l) = Text.trim r ∧
      ∀ r', ∃ p' q' qs', split (p.text ++ ',' :: r') = p' :: q' :: qs' ∧ p'.text = p.text ∧
        Text.trim (Text.dropBytes q'.offset (p.text ++ ',' :: r')) = Text.trim r' := by
  have hcuts : ofCuts 0 (cutsFrom {} l) = p :: ps := by
    unfold split at h
    split at h
    · cases h
    · rwa [cutCommas_eq] at h
  obtain ⟨cut, cuts, hcut⟩ := List.exists_cons_of_ne_nil (cutsFrom_ne_nil {} l)
  rw [hcut] at hcuts
  have htext : p.text = Text.trim cut := by
    rw [← (List.cons.inj hcuts).1]
    rfl
  have hps : ofCuts (0 + Text.byteLength cut + 1) cuts = ps := (List.cons.inj hcuts).2
  rw [htext] at hne ⊢
  have htrim : Text.trim (Text.trim cut) = Text.trim cut := (X86.trimmed_trim cut).trim_eq
  -- either nothing is cut, or the first cut ends at a comma
  obtain ⟨hkept, ⟨rfl, rfl⟩ | ⟨hrun, r, rfl, rfl⟩⟩ := exists_of_cutsFrom hcut
  · refine .inl ⟨hps.symm, rfl, ofCut 0 (Text.trim l), ?_, htrim⟩
    have hnot := not_all_blank (l := Text.trim l) (by rwa [htrim]) []
    rw [List.append_nil] at hnot
    rw [split, if_neg hnot, cutCommas_eq, (cutsFrom_trim hkept).1]
    rfl
  · obtain ⟨next, more, hnext⟩ := List.exists_cons_of_ne_nil (cutsFrom_ne_nil {} r)
    rw [hnext] at hps
    refine .inr ⟨_, _, cut, r, hps.symm, rfl, rfl, ?_, fun r' => ?_⟩
    · exact trim_dropBytes_ofCut ((cutCommas_eq r).trans hnext) cut
    · obtain ⟨next', more', hnext'⟩ := List.exists_cons_of_ne_nil (cutsFrom_ne_nil {} r')
      -- the trimmed piece is cut where the untrimmed one is, whatever follows
      obtain ⟨huncut, hclosed⟩ := cutsFrom_trim hkept
      have hsplit : split (Text.trim cut ++ ',' :: r') =
          ofCuts 0 (Text.trim cut :: next' :: more') := by
        rw [split, if_neg (not_all_blank (by rwa [htrim]) _), cutCommas_eq,
          cutsFrom_append_comma huncut (hclosed hrun), hnext']
      exact ⟨_, _, _, hsplit, htrim,
        trim_dropBytes_ofCut ((cutCommas_eq r').trans hnext') (Text.trim cut)⟩

end Piece

/-! ### Addresses -/

namespace Arm

variable {l : List Char}

/-- A relocation is written as it was read. -/
lemma relocation_display {hash : Bool} {r : Relocation} (h : relocation (':' :: l) hash = .ok r)
    (hlast : ∀ ch, (':' :: l).getLast? = some ch → Text.isBlank ch = false) :
    r.hash = hash ∧ r.display.toList = (if hash then ['#'] else []) ++ ':' :: l := by
  -- the name of the relocation, up to the second colon
  obtain ⟨spec, after, rfl, hspec, hafter, -, hhead⟩ := exists_span (· != ':') l
  unfold relocation at h
  dsimp only at h
  rw [List.drop_one, List.tail_cons, hspec, hafter] at h
  split at h
  · cases h
  · next ch rest =>
      obtain rfl : ch = ':' := by simpa using hhead ch rfl
      obtain ⟨symbol, after, rfl, hsymbol, hafter, -⟩ := exists_span isSymbolChar rest
      rw [hsymbol, hafter] at h
      have htake := Offset.take_append after
      split at h
      · cases h
      · split at h
        · next hblank =>
            cases h
            -- nothing follows the offset: it would be blanks, and the last character is none
            have hnil : (Offset.take after).2 = [] := by
              cases htail : (Offset.take after).2.getLast? with
              | none => exact List.getLast?_eq_none_iff.mp htail
              | some ch =>
                  have hch := hlast ch (by
                    rw [← htake, ← List.cons_append, List.getLast?_append, List.getLast?_cons,
                      List.getLast?_append, List.getLast?_append, htail]
                    rfl)
                  rw [List.all_eq_true.mp hblank ch (List.mem_of_getLast? htail)] at hch
                  cases hch
            rw [hnil, List.append_nil] at htake
            refine ⟨rfl, ?_⟩
            rw [Relocation.display, htake]
            cases hash <;> simp
        · cases h

/-- What follows a base register is written as it was read. -/
lemma indexedRest_display {r : Indexed.Rest} (h : indexedRest l = .ok r)
    (hlast : ∀ ch, l.getLast? = some ch → Text.isBlank ch = false) : r.display.toList = l := by
  unfold indexedRest at h
  split at h
  · next l =>
      obtain ⟨r, hr, rfl⟩ := Outcome.map_eq_ok_iff.mp h
      exact (relocation_display hr fun ch hch => hlast ch (by rw [List.getLast?_cons, hch]; rfl)).2
  · next l =>
      obtain ⟨r, hr, rfl⟩ := Outcome.map_eq_ok_iff.mp h
      exact (relocation_display hr hlast).2
  · cases h
    exact String.toList_ofList

/-- The bracket that ends an indexed reference, and the mark after it. -/
def closing (writeback : Bool) : List Char :=
  if writeback then [']', '!'] else [']']

/-- The text between the brackets of an indexed reference, and the mark after them. -/
lemma unbracketed_eq_some_iff {inner : List Char} {writeback : Bool} :
    unbracketed ('[' :: l) = some (inner, writeback) ↔ l = inner ++ closing writeback := by
  constructor
  · intro h
    unfold unbracketed at h
    split at h
    · next front hfront =>
        cases h
        rw [Text.before?_eq_some_iff] at hfront
        cases front with
        | nil => cases hfront
        | cons c front => exact (List.cons.inj hfront).2
    · next front _ hfront =>
        cases h
        rw [Text.before?_eq_some_iff] at hfront
        cases front with
        | nil => cases hfront
        | cons c front => exact (List.cons.inj hfront).2
    · cases h
  · rintro rfl
    unfold unbracketed
    cases writeback with
    | true =>
        have hmark : Text.before? [']', '!'] ('[' :: (inner ++ closing true)) =
            some ('[' :: inner) := Text.before?_eq_some_iff.mpr rfl
        rw [hmark]
        rfl
    | false =>
        have hbracket : Text.before? [']'] ('[' :: (inner ++ closing false)) =
            some ('[' :: inner) := Text.before?_eq_some_iff.mpr rfl
        -- a bracket at the end is not followed by the mark
        have hmark : Text.before? [']', '!'] ('[' :: (inner ++ closing false)) = none := by
          rw [Option.eq_none_iff_forall_ne_some]
          intro front hfront
          rw [Text.before?_eq_some_iff] at hfront
          have hlast := congrArg List.getLast? hfront
          rw [← List.cons_append, List.getLast?_append, List.getLast?_append] at hlast
          cases hlast
        rw [hmark, hbracket]
        rfl

section

variable {inner : List Char} {writeback : Bool} {p q : Piece} {ps : List Piece}

/-- A reference that is a base register. -/
lemma indexed_of_split_eq_singleton (h : Piece.split inner = [p]) (hne : p.text ≠ []) :
    indexed ('[' :: (inner ++ closing writeback)) =
      .ok { base := String.ofList p.text, writeback } := by
  unfold indexed
  dsimp only
  rw [unbracketed_eq_some_iff.mpr rfl]
  dsimp only
  rw [h]
  dsimp only
  rw [if_neg (by simpa using hne)]

/-- A reference that is a base register and more. -/
lemma indexed_of_split_eq_cons (h : Piece.split inner = p :: q :: ps) (hne : p.text ≠ []) :
    indexed ('[' :: (inner ++ closing writeback)) =
      (indexedRest (Text.trim (Text.dropBytes q.offset inner))).map fun rest =>
        { base := String.ofList p.text, rest := some rest, writeback } := by
  unfold indexed
  dsimp only
  rw [unbracketed_eq_some_iff.mpr rfl]
  dsimp only
  rw [h]
  dsimp only
  rw [if_neg (by simpa using hne)]
  cases indexedRest (Text.trim (Text.dropBytes q.offset inner)) <;> rfl

end

/-- The parts of an indexed reference. -/
lemma exists_of_indexed {x : Indexed} (h : indexed ('[' :: l) = .ok x) :
    ∃ inner writeback p ps, l = inner ++ closing writeback ∧ Piece.split inner = p :: ps ∧
      p.text ≠ [] := by
  unfold indexed at h
  dsimp only at h
  split at h
  · cases h
  · next inner writeback hinner =>
      split at h
      · cases h
      · next p ps hsplit =>
          split at h
          · cases h
          · next hne =>
              exact ⟨inner, writeback, p, ps, unbracketed_eq_some_iff.mp hinner, hsplit,
                by simpa using hne⟩

/-- An indexed reference is written as it was read, but for blanks, and is read back. -/
lemma indexed_display {x : Indexed} (h : indexed ('[' :: l) = .ok x) :
    Text.squeezed x.display.toList = Text.squeezed ('[' :: l) ∧
      x.display.toList.head? = some '[' ∧ indexed x.display.toList = .ok x := by
  obtain ⟨inner, writeback, p, ps, rfl, hsplit, hne⟩ := exists_of_indexed h
  rcases Piece.exists_of_split hsplit hne with
    ⟨rfl, htext, q, hq, hqtext⟩ | ⟨q, qs, cut, r, rfl, rfl, htext, hrest, hagain⟩
  · rw [indexed_of_split_eq_singleton hsplit hne] at h
    cases h
    have hdisplay : ({ base := String.ofList p.text, writeback } : Indexed).display.toList =
        '[' :: (p.text ++ closing writeback) := by
      cases writeback <;> simp [Indexed.display, closing]
    rw [hdisplay]
    refine ⟨?_, rfl, ?_⟩
    · rw [htext]
      exact Text.squeezed_between (Text.squeezed_trim inner) ['['] _
    · rw [indexed_of_split_eq_singleton hq (by rwa [hqtext]), hqtext]
  · rw [indexed_of_split_eq_cons hsplit hne, hrest] at h
    -- the base, a comma and the rest
    obtain ⟨rest, hread, rfl⟩ := Outcome.map_eq_ok_iff.mp h
    have hshown := indexedRest_display hread (X86.trimmed_trim r).last
    have hdisplay : ({ base := String.ofList p.text, rest := some rest, writeback } :
        Indexed).display.toList =
          '[' :: ((p.text ++ ',' :: (' ' :: Text.trim r)) ++ closing writeback) := by
      cases writeback <;> simp [Indexed.display, closing, hshown]
    rw [hdisplay]
    refine ⟨?_, rfl, ?_⟩
    · rw [htext]
      refine Text.squeezed_between ?_ ['['] _
      change Text.squeezed (Text.trim cut ++ ([',', ' '] ++ Text.trim r)) =
        Text.squeezed (cut ++ ([','] ++ r))
      simp only [Text.squeezed_append, Text.squeezed_trim]
      rfl
    · obtain ⟨p', q', qs', hsplit', hp', hq'⟩ := hagain (' ' :: Text.trim r)
      rw [indexed_of_split_eq_cons hsplit' (by rwa [hp']), hp', hq', Piece.trim_blank_cons,
        (X86.trimmed_trim r).trim_eq, hread]
      rfl

/-! ### Symbols -/

/-- The parts of a symbol with offsets. -/
lemma exists_of_symbolRef? {m : MemoryRef} (h : symbolRef? l = some m) : ∃ name offset : String,
    l = name.toList ++ offset.toList ∧ IsName name ∧
      Offset.take offset.toList = (offset.toList, []) ∧
      (∀ ch, offset.toList.head? = some ch → isSymbolChar ch = false) ∧
      m = { symbol := some name, offset } := by
  unfold symbolRef? at h
  split at h
  · next hstart =>
      obtain ⟨name, after, rfl, htake, hdrop, hchars, hhead⟩ := exists_span isSymbolChar l
      rw [htake, hdrop] at h
      split at h
      · next offset hoffset =>
          cases h
          have happend := Offset.take_append after
          rw [hoffset, List.append_nil] at happend
          obtain rfl : offset = after := happend
          have hname := isName_takeWhile hstart
          rw [htake] at hname
          refine ⟨String.ofList name, String.ofList offset, ?_, hname, ?_, ?_, rfl⟩
          all_goals simp only [String.toList_ofList]
          · exact hoffset
          · exact hhead
      · cases h
  · cases h

lemma symbolRef?_append {name : String} {offset : List Char} (hname : IsName name)
    (hoffset : Offset.take offset = (offset, []))
    (hhead : ∀ ch, offset.head? = some ch → isSymbolChar ch = false) :
    symbolRef? (name.toList ++ offset) =
      some { symbol := some name, offset := String.ofList offset } := by
  obtain ⟨ch, r, htext, hstart, hchars⟩ := exists_cons_of_isSymbolName hname
  have hfirst : (name.toList ++ offset).head?.any isSymbolStart = true := by
    rw [htext]
    exact hstart
  rw [symbolRef?, if_pos hfirst, takeWhile_append_of_stop hchars hhead,
    dropWhile_append_of_stop hchars hhead, hoffset, String.ofList_toList]

end Arm

end Hermetic

/-
Where a text is no statement.

Operands are cut out of the arguments as they are read, where a comment is a single blank and lines
are joined.  Their places are counted from where the arguments start, so they are those of the
source as long as the arguments are read as they stand there.

* `failsWith_argumentsFrom`, `failsWith_directive` and so on: every other fault is marked in the
  text;
* `FaultyOperand`, `PlacedIn`: a piece of arguments that is no operand, and its span, which is
  counted on from the arguments;
* `FaultyOperand.agrees`, `FaultyOperand.slice_eq`: when that is its place in the text, and
  `prefix_of_isPlain`: lines without comments and backslashes are read as they stand there;
* `parse_error_span`: the spans of all faults;
* `exists_operand_misplaced`: an operand after a comment.
-/
import Hermetic.Proofs.Checked.Arguments
import Hermetic.Proofs.Checked.Pieces
import Hermetic.Proofs.Source.Faults
import Hermetic.Proofs.Statement.Arguments
import Hermetic.Proofs.Statement.Lossless

namespace Hermetic

open Text (byteLength takeBytes slice)

namespace Statement

open Cursor Outcome

variable {arch : Arch} {text : List Char} {c : Cursor Char}

/-! ### Kinds of faults -/

lemma failsWith_x86Kind (l : List Char) :
    FailsWith (fun f => f.isOfOperand = true) (X86.kind l) := by
  have hmemory : FailsWith (fun f => f.isOfOperand = true) (X86.memoryRef l) := by
    unfold X86.memoryRef
    dsimp only
    split
    · exact .error rfl
    split
    · exact .error rfl
    split
    · exact .error rfl
    · exact .ok _
  unfold X86.kind
  split
  · exact .ok _
  · exact .ok _
  split
  · exact .ok _
  split
  · exact .ok _
  split
  · split
    · exact .ok _
    · exact .error rfl
  · exact hmemory.map _

lemma failsWith_armRelocation (l : List Char) (hash : Bool) :
    FailsWith (fun f => f.isOfOperand = true) (Arm.relocation l hash) := by
  unfold Arm.relocation
  dsimp only
  split
  · exact .error rfl
  split
  · exact .error rfl
  split
  · exact .ok _
  · exact .error rfl

lemma failsWith_armKind (l : List Char) :
    FailsWith (fun f => f.isOfOperand = true) (Arm.kind l) := by
  have hrest (r : List Char) : FailsWith (fun f => f.isOfOperand = true) (Arm.indexedRest r) := by
    unfold Arm.indexedRest
    split
    · exact (failsWith_armRelocation _ _).map _
    · exact (failsWith_armRelocation _ _).map _
    · exact .ok _
  have hindexed : FailsWith (fun f => f.isOfOperand = true) (Arm.indexed l) := by
    unfold Arm.indexed
    dsimp only
    split
    · exact .error rfl
    split
    · exact .error rfl
    split
    · exact .error rfl
    split
    · exact .ok _
    · exact (hrest _).bind fun _ _ => .ok _
  -- only brackets and relocations can be malformed
  unfold Arm.kind
  dsimp only
  split
  · exact hindexed.map _
  · exact .ok _
  · exact (failsWith_armRelocation _ _).map _
  · exact .ok _
  · exact (failsWith_armRelocation _ _).map _
  split
  · exact .ok _
  split
  · exact .ok _
  split
  · exact .ok _
  split
  · exact .ok _
  split
  · exact .ok _
  · exact .ok _

/-- What is wrong with an operand is a fault of an operand. -/
lemma failsWith_operand (arch : Arch) (l : List Char) :
    FailsWith (fun f => f.isOfOperand = true) (operand arch l) := by
  cases arch with
  | x86_64 =>
      change FailsWith _ (X86.operand l)
      unfold X86.operand
      exact (failsWith_x86Kind _).bind fun _ _ => .ok _
  | aarch64 => exact (failsWith_armKind l).bind fun _ _ => .ok _

/-- What is wrong with the arguments of a directive is none. -/
lemma failsWith_directiveKind (name : String) (args : List Char) :
    FailsWith (fun f => f.isOfOperand = false) (directiveKind name args) := by
  unfold directiveKind
  dsimp only
  split
  · exact .ok _
  split
  · exact .ok _
  split
  · exact .ok _
  split
  · split
    · split
      · exact .ok _
      · exact .error rfl
    · exact .error rfl
  · exact .ok _

/-! ### Marked faults -/

lemma failsWith_argumentsFrom {kept : List Char} {opened : List (Char × Span)}
    (h : c.StandsIn text) (hopened : ∀ p ∈ opened, p.2.Marks text) :
    FailsWith (Error.MarkedIn text) (argumentsFrom arch kept opened c) := by
  fun_induction argumentsFrom arch kept opened c with
  | case1 | case3 | case6 => exact .ok _
  | case2 | case5 => exact .error ⟨rfl, hopened _ List.mem_cons_self⟩
  | case4 kept c bracket span opened joined hjoined hc ih => exact ih h.bump hopened
  | case7 kept opened c ch hc hline hend hopen stop hstop ih =>
      exact ih (h.bump.of_reaches (bump_reaches_of_skipBlockComment hstop)) hopened
  | case8 kept opened c ch hc hline hend hopen e stop hstop =>
      obtain ⟨rfl, hstar⟩ := hopen
      obtain ⟨r, hr⟩ := rest_of_peek hc
      rw [second?_of_rest hr, List.head?_eq_some_iff] at hstar
      obtain ⟨r', rfl⟩ := hstar
      exact .error (failsWith_skipBlockComment h hr e (by rw [hstop]; rfl))
  | case9 kept opened c hend string stop hstop hc hline hopen ih =>
      exact ih (h.bump.of_reaches
        (bump_reaches_of_takeQuoted (rest_ne_nil_of_peek hc) hstop)) hopened
  | case10 kept opened c hend e stop hstop hc =>
      exact .error (failsWith_takeQuoted h (rest_ne_nil_of_peek hc) e (by rw [hstop]; rfl))
  | case11 kept opened c ch hc hline hend hopen hquote hch ih =>
      exact ih h.bump
        (List.forall_mem_cons.mpr ⟨h.marks_one (rest_ne_nil_of_peek hc), hopened⟩)
  | case12 kept c ch hc hline hopen hquote hnot hch span opened hend ih =>
      exact ih h.bump (List.forall_mem_cons.mp hopened).2
  | case13 kept c ch hc | case14 kept c ch hc =>
      exact .error ⟨rfl, h.marks_one (rest_ne_nil_of_peek hc)⟩
  | case15 kept opened c ch hc hline hend hopen hquote hnot hnot' ih => exact ih h.bump hopened

lemma failsWith_arguments (h : c.StandsIn text) :
    FailsWith (Error.MarkedIn text) (arguments arch c) :=
  failsWith_argumentsFrom h (List.forall_mem_nil _)

lemma standsIn_of_skipSpace {d : Cursor Char} {u : Unit} (h : c.StandsIn text)
    (hs : settle c.skipSpace = .ok (u, d)) : d.StandsIn text :=
  h.of_reaches (reaches_of_skipSpace (settle_eq_ok_iff.mp hs))

lemma rest_ne_nil_of_next? {ch : Char} (h : c.next? = some ch) : c.rest ≠ [] := by
  intro hc
  rw [next?, hc] at h
  cases h

lemma failsWith_terminator (h : c.StandsIn text) :
    FailsWith (Error.MarkedIn text) (terminator arch c) := by
  unfold terminator
  refine (failsWith_skipSpace h).bind fun read hs => ?_
  obtain ⟨u, stop⟩ := read
  have hstop := standsIn_of_skipSpace h hs
  dsimp only
  split
  · exact .ok _
  · next ch hch =>
      split
      · exact .ok _
      split
      · exact .ok _
      · exact .error ⟨rfl, hstop.marks_one (rest_ne_nil_of_next? hch)⟩

lemma failsWith_directive (h : c.StandsIn text) :
    FailsWith (Error.MarkedIn text) (directive arch c) := by
  unfold directive
  dsimp only
  split
  · exact .error ⟨rfl, h.marks (Nat.zero_le _)⟩
  have hname : (c.bump.takeWhile isSymbolChar).2.StandsIn text := h.bump.skip _
  refine (failsWith_skipSpace hname).bind fun read hs => ?_
  obtain ⟨u, start⟩ := read
  have hstart := standsIn_of_skipSpace hname hs
  refine (failsWith_arguments hstart).bind fun read _ => ?_
  obtain ⟨args, stop⟩ := read
  have hkind : FailsWith (Error.MarkedIn text)
      ((directiveKind ("." ++ (c.bump.takeWhile isSymbolChar).1) args).mapError
        (.fault · start.here)) :=
    (failsWith_directiveKind _ _).mapError fun f hf => ⟨hf, hstart.marks (Nat.zero_le _)⟩
  exact hkind.bind fun _ _ => .ok _

lemma failsWith_modifiersFrom (word : String) (h : c.StandsIn text) :
    FailsWith (Error.MarkedIn text) (modifiersFrom word c) := by
  fun_induction modifiersFrom word c with
  | case1 word c hmem e stop hs =>
      exact .error (failsWith_skipSpace h e (by rw [hs]; rfl))
  | case3 word c hmem start hs hn ih =>
      have hstart := h.of_reaches (reaches_of_skipSpace hs)
      exact (ih (hstart.skip _)).bind fun _ _ => .ok _
  | _ => exact .ok _

lemma failsWith_mnemonic (h : c.StandsIn text) :
    FailsWith (Error.MarkedIn text) (mnemonic arch c) := by
  unfold mnemonic
  cases arch with
  | x86_64 => exact failsWith_modifiersFrom _ (h.skip _)
  | aarch64 => exact .ok _

/-! ### Faults of operands in their places -/

/-- The place of a piece of arguments that start at a span, as if nothing were left out of them. -/
def pieceSpan (start : Span) (piece : Piece) : Span :=
  ⟨start.line, start.col + piece.offset, start.offset + piece.offset, byteLength piece.text⟩

/-- A piece of the arguments at a cursor that is no operand. -/
structure FaultyOperand (arch : Arch) (text : List Char) (fault : SyntaxFault)
    (start : Cursor Char) (args : List Char) (piece : Piece) : Prop where
  standsIn : start.StandsIn text
  read : ∃ stop, Statement.arguments arch start = .ok (args, stop)
  mem : piece ∈ Piece.split args
  fault : piece.text = [] ∧ fault = .emptyOperand (String.ofList args) ∨
    operand arch piece.text = .error fault

/-- An error of a text: a marked one, or a faulty operand, whose place is counted from where the
arguments start. -/
def PlacedIn (arch : Arch) (text : List Char) : Error → Prop
  | .malformed fault site =>
    fault.isOfOperand = false ∧ site.span.Marks text ∨
      fault.isOfOperand = true ∧ ∃ start args piece,
        FaultyOperand arch text fault start args piece ∧ site.span = pieceSpan start.here piece
  | _ => True

lemma placedIn_of_markedIn {e : Error} (h : e.MarkedIn text) : PlacedIn arch text e := by
  cases e with
  | malformed fault site => exact .inl h
  | _ => trivial

lemma failsWith_operands {args : List Char} {stop : Cursor Char} (h : c.StandsIn text)
    (hargs : arguments arch c = .ok (args, stop)) :
    FailsWith (PlacedIn arch text) (operands arch c.here args) := by
  refine FailsWith.mapM fun piece hpiece => ?_
  dsimp only
  split
  · next hempty =>
      exact .error (.inr ⟨rfl, c, args, piece,
        ⟨h, ⟨stop, hargs⟩, hpiece, .inl ⟨List.isEmpty_iff.mp hempty, rfl⟩⟩, rfl⟩)
  · cases hoperand : operand arch piece.text with
    | ok o => exact .ok _
    | error fault =>
        exact .error (.inr ⟨failsWith_operand arch piece.text fault hoperand, c, args, piece,
          ⟨h, ⟨stop, hargs⟩, hpiece, .inr hoperand⟩, rfl⟩)

lemma failsWith_instruction (h : c.StandsIn text) :
    FailsWith (PlacedIn arch text) (instruction arch c) := by
  unfold instruction
  refine ((failsWith_mnemonic h).mono fun _ => placedIn_of_markedIn).bind fun read hread => ?_
  obtain ⟨words, m, afterName⟩ := read
  have hname := h.of_reaches (reaches_of_mnemonic hread)
  dsimp only
  split
  · next hends =>
      have hne : afterName.rest ≠ [] := by
        intro hnil
        simp [endsMnemonic, next?, hnil] at hends
      exact .error (.inl ⟨rfl, hname.marks_one hne⟩)
  refine ((failsWith_skipSpace hname).mono fun _ => placedIn_of_markedIn).bind fun read hs => ?_
  obtain ⟨u, start⟩ := read
  have hstart := standsIn_of_skipSpace hname hs
  refine ((failsWith_arguments hstart).mono fun _ => placedIn_of_markedIn).bind
    fun read hargs => ?_
  obtain ⟨args, stop⟩ := read
  exact (failsWith_operands hstart hargs).bind fun _ _ => .ok _

/-! ### Statements -/

lemma failsWith_bodyAt (h : c.StandsIn text) (hne : c.rest ≠ []) :
    FailsWith (PlacedIn arch text) (bodyAt arch c) := by
  unfold bodyAt
  split
  · exact (failsWith_directive h).mono fun _ => placedIn_of_markedIn
  split
  · exact failsWith_instruction h
  · exact .error (.inl ⟨rfl, h.marks_one hne⟩)

lemma failsWith_kindAt (h : c.StandsIn text) :
    FailsWith (PlacedIn arch text) (kindAt arch c) := by
  unfold kindAt
  split
  · exact .ok _
  · next ch hch =>
      split
      · exact .ok _
      split
      · exact .ok _
      split
      · exact .ok _
      · refine (failsWith_bodyAt h (rest_ne_nil_of_next? hch)).bind fun read hbody => ?_
        obtain ⟨kind, stop⟩ := read
        have hstop : stop.StandsIn text :=
          h.bump.of_reaches (bump_reaches_of_bodyAt hbody)
        exact ((failsWith_terminator hstop).mono fun _ => placedIn_of_markedIn).bind
          fun _ _ => .ok _

lemma failsWith_ofCursor (h : c.StandsIn text) :
    FailsWith (PlacedIn arch text) (ofCursor arch c) := by
  unfold ofCursor
  refine ((failsWith_skipSpace h).mono fun _ => placedIn_of_markedIn).bind fun read hs => ?_
  obtain ⟨u, start⟩ := read
  exact (failsWith_kindAt (standsIn_of_skipSpace h hs)).bind fun _ _ => .ok _

lemma failsWith_allFrom (read : List Statement) (h : c.StandsIn text) :
    FailsWith (PlacedIn arch text) (allFrom arch read c) := by
  fun_induction allFrom arch read c with
  | case1 => exact .ok _
  | case2 read c hc e hs => exact .error (failsWith_ofCursor h e hs)
  | case3 read c hc s stop hs ih => exact ih (h.of_between (between_of_ofCursor hs))

lemma failsWith_parse (arch : Arch) (text : String) :
    FailsWith (PlacedIn arch text.toList) (parse arch text) :=
  failsWith_allFrom [] (standsIn_ofString text)

/-! ### Arguments as they stand in a text -/

/-- No line feed is kept of arguments. -/
lemma newline_not_mem_of_arguments {next : Option Char} {kept opened raw args : List Char}
    (h : Arguments arch next kept opened raw args) (hkept : '\n' ∉ kept) : '\n' ∉ args := by
  induction h with
  | stop =>
      intro hmem
      exact hkept ((List.dropWhile_sublist _).mem (List.mem_reverse.mp hmem))
  | @joined kept joined opened raw args bracket hjoined _ ih =>
      have hsub : ('\\' :: joined).Sublist kept := hjoined ▸ List.dropWhile_sublist _
      refine ih fun hmem => hkept (hsub.mem (List.mem_cons_of_mem _ ?_))
      exact List.mem_of_ne_of_mem (by decide) hmem
  | comment _ _ ih => exact ih fun hmem => hkept (List.mem_of_ne_of_mem (by decide) hmem)
  | quoted hq _ ih =>
      refine ih fun hmem => ?_
      rcases List.mem_append.mp hmem with hmem | hmem
      · exact hq.newline_notMem (List.mem_reverse.mp hmem)
      · exact hkept (List.mem_of_ne_of_mem (by decide) hmem)
  | opening hch _ ih | closing hch _ ih =>
      refine ih fun hmem => hkept (List.mem_of_ne_of_mem ?_ hmem)
      rcases hch with rfl | rfl | rfl <;> decide
  | char hch _ _ _ ih =>
      refine ih fun hmem => hkept (List.mem_of_ne_of_mem ?_ hmem)
      rintro rfl
      exact hch List.mem_cons_self

/-- The characters up to the end of the line. -/
def firstLine (l : List Char) : List Char :=
  l.takeWhile (· != '\n')

/-- No comment opens in the line at the front of a text, and nothing is escaped there. -/
structure IsPlain (l : List Char) : Prop where
  comment : ¬ ['/', '*'] <:+: firstLine l
  escape : '\\' ∉ firstLine l

lemma firstLine_append {q : List Char} (hq : '\n' ∉ q) (l : List Char) :
    firstLine (q ++ l) = q ++ firstLine l := by
  refine List.takeWhile_append_of_pos fun ch hch => ?_
  rw [bne_iff_ne]
  rintro rfl
  exact hq hch

lemma IsPlain.of_append {q l : List Char} (h : IsPlain (q ++ l)) (hq : '\n' ∉ q) : IsPlain l := by
  obtain ⟨hcomment, hescape⟩ := h
  rw [firstLine_append hq] at hcomment hescape
  exact ⟨fun hl => hcomment (hl.trans (List.suffix_append q _).isInfix),
    fun hl => hescape (List.mem_append_right q hl)⟩

lemma IsPlain.of_prefix {l r : List Char} (h : IsPlain (l ++ r)) : IsPlain l := by
  have hline : firstLine l <+: firstLine (l ++ r) := by
    unfold firstLine
    rw [List.takeWhile_append]
    split
    · exact (List.takeWhile_prefix _).trans (List.prefix_append _ _)
    · exact List.prefix_refl _
  exact ⟨fun hl => h.comment (hl.trans hline.isInfix), fun hl => h.escape (hline.subset hl)⟩

/-- Arguments in a plain line are read as they stand there. -/
lemma prefix_of_isPlain {next : Option Char} {kept opened raw args : List Char}
    (h : Arguments arch next kept opened raw args) (hkept : '\\' ∉ kept) (hraw : IsPlain raw) :
    args <+: kept.reverse ++ raw := by
  -- what is kept as it stands there may as well be kept from the start
  have hstep {q kept raw args : List Char} (hq : '\n' ∉ q) (hkept : '\\' ∉ kept)
      (hraw : IsPlain (q ++ raw))
      (ih : '\\' ∉ q.reverse ++ kept → IsPlain raw → args <+: (q.reverse ++ kept).reverse ++ raw) :
      args <+: kept.reverse ++ (q ++ raw) := by
    have hescape : '\\' ∉ q := fun hmem => hraw.escape (by
      rw [firstLine_append hq]
      exact List.mem_append_left _ hmem)
    have hlast := ih (fun hmem => (List.mem_append.mp hmem).elim
      (fun hmem => hescape (List.mem_reverse.mp hmem)) hkept) (hraw.of_append hq)
    rwa [List.reverse_append, List.reverse_reverse, List.append_assoc] at hlast
  induction h with
  | @stop kept =>
      rw [List.append_nil]
      exact List.reverse_prefix.mpr (List.dropWhile_suffix _)
  | @joined kept joined opened raw args bracket hjoined _ ih =>
      have hsub : ('\\' :: joined).Sublist kept := hjoined ▸ List.dropWhile_sublist _
      exact (hkept (hsub.mem List.mem_cons_self)).elim
  | comment =>
      exact (hraw.comment (List.IsPrefix.isInfix ⟨_, rfl⟩)).elim
  | @quoted kept opened q raw args hq _ ih =>
      have hline : '\n' ∉ '"' :: q := by simpa using hq.newline_notMem
      refine hstep (q := '"' :: q) hline hkept hraw ?_
      rwa [List.reverse_cons, List.append_assoc]
  | @opening kept opened raw args ch hch _ ih | @closing kept opened raw args ch hch _ ih =>
      refine hstep (q := [ch]) ?_ hkept hraw ih
      rcases hch with rfl | rfl | rfl <;> decide
  | @char kept opened raw args ch hch _ _ _ ih =>
      have hline : '\n' ∉ [ch] := by
        intro hmem
        obtain rfl := List.mem_singleton.mp hmem
        exact hch List.mem_cons_self
      exact hstep (q := [ch]) hline hkept hraw ih

/-- Everything is plain in a text without comments and backslashes. -/
lemma isPlain_of_standsIn (h : c.StandsIn text) (hcomment : ¬ ['/', '*'] <:+: text)
    (hescape : '\\' ∉ text) : IsPlain c.rest := by
  obtain ⟨before, hbefore⟩ := h
  have htext : text = before ++ c.rest := hbefore.rest
  have hline : firstLine c.rest <:+: text := by
    rw [htext]
    exact (List.takeWhile_prefix _).isInfix.trans (List.suffix_append _ _).isInfix
  exact ⟨fun hl => hcomment (hl.trans hline), fun hl => hescape (hline.subset hl)⟩

/-! ### Places of operands -/

namespace FaultyOperand

variable {fault : SyntaxFault} {start : Cursor Char} {args : List Char} {piece : Piece}

/-- The span of a faulty operand ends within the text. -/
lemma offset_add_len_le (h : FaultyOperand arch text fault start args piece) :
    (pieceSpan start.here piece).offset + (pieceSpan start.here piece).len ≤ byteLength text := by
  obtain ⟨stop, hread⟩ := h.read
  have hargs := Checked.byteLength_of_arguments hread
  have hpiece := Checked.offset_add_byteLength_le_of_mem_split h.mem
  have htotal := h.standsIn.offset_add
  change start.position.offset + piece.offset + byteLength piece.text ≤ _
  omega

/-- The line and the column of a faulty operand are right if it stands in the line where the
arguments start. -/
lemma agrees (h : FaultyOperand arch text fault start args piece)
    (hline : '\n' ∉ takeBytes piece.offset start.rest) :
    (pieceSpan start.here piece).Agrees text := by
  obtain ⟨before, hbefore⟩ := h.standsIn
  have htext : text = before ++ start.rest := hbefore.rest
  rw [pieceSpan, here, hbefore.position, htext]
  exact Span.agrees_of_after hline _

/-- A faulty operand stands where its span says if the arguments are read up to its end as they
stand in the text. -/
lemma slice_eq (h : FaultyOperand arch text fault start args piece)
    (hread : takeBytes (piece.offset + byteLength piece.text) args <+: start.rest) :
    (pieceSpan start.here piece).Agrees text ∧
      slice text (pieceSpan start.here piece).offset (pieceSpan start.here piece).len =
        piece.text := by
  obtain ⟨front, after, hargs, hoffset⟩ := Checked.exists_append_of_mem_split h.mem
  obtain ⟨before, hbefore⟩ := h.standsIn
  -- no line ends in front of the operand, so that its column is told by its offset
  have hfront : '\n' ∉ front := by
    obtain ⟨stop, hstop⟩ := h.read
    obtain ⟨raw, -, hraw, -⟩ := arguments_of_argumentsFrom hstop
    have hnone := newline_not_mem_of_arguments hraw List.not_mem_nil
    rw [hargs] at hnone
    exact fun hmem => hnone (List.mem_append_left _ hmem)
  obtain ⟨rest, hrest⟩ : ∃ rest, start.rest = front ++ (piece.text ++ rest) := by
    rw [hoffset, hargs, Text.takeBytes_append, Text.takeBytes_byteLength] at hread
    obtain ⟨rest, hrest⟩ := hread
    exact ⟨rest, by rw [← hrest, List.append_assoc]⟩
  have htext : text = (before ++ front) ++ (piece.text ++ rest) := by
    have hbefore : text = before ++ start.rest := hbefore.rest
    rw [hbefore, hrest, List.append_assoc]
  have hstart : (pieceSpan start.here piece).offset = byteLength (before ++ front) := by
    change start.position.offset + piece.offset = _
    rw [hbefore.offset, hoffset, Text.byteLength_append]
    exact congrArg (· + _) (Nat.zero_add _)
  constructor
  · refine h.agrees ?_
    rwa [hoffset, hrest, Text.takeBytes_byteLength]
  · rw [hstart, htext, slice, Piece.dropBytes_byteLength]
    exact Text.takeBytes_byteLength _ _

/-- So do operands in a plain line. -/
lemma takeBytes_prefix_of_isPlain (h : FaultyOperand arch text fault start args piece)
    (hplain : IsPlain start.rest) (n : ℕ) : takeBytes n args <+: start.rest := by
  obtain ⟨stop, hstop⟩ := h.read
  obtain ⟨raw, hbetween, hraw, -⟩ := arguments_of_argumentsFrom hstop
  have hrest : start.rest = raw ++ stop.rest := hbetween.rest
  rw [hrest] at hplain ⊢
  exact (Text.takeBytes_prefix n args).trans
    ((prefix_of_isPlain hraw List.not_mem_nil hplain.of_prefix).trans (List.prefix_append _ _))

end FaultyOperand

/-! ### Faults of texts -/

/-- The span of every fault of a text ends within the text.  Its line and column are those of its
first byte if the fault is not one of an operand.  A faulty operand is placed where the arguments
start, moved by the bytes before it as they are read: its line and column are right if it stands in
the line where the arguments start, and its span covers it if the arguments are read up to its end
as they stand in the text, as in a line without comments and backslashes. -/
theorem parse_error_span {text : String} {fault : SyntaxFault} {site : Location}
    (h : parse arch text = .error (.malformed fault site)) :
    site.span.offset + site.span.len ≤ byteLength text.toList ∧
      (fault.isOfOperand = false → site.span.Agrees text.toList) ∧
        (fault.isOfOperand = true → ∃ start args piece,
          FaultyOperand arch text.toList fault start args piece ∧
            site.span = pieceSpan start.here piece ∧
            ('\n' ∉ takeBytes piece.offset start.rest → site.span.Agrees text.toList) ∧
            (takeBytes (piece.offset + byteLength piece.text) args <+: start.rest ∨
                IsPlain start.rest →
              site.span.Agrees text.toList ∧
                slice text.toList site.span.offset site.span.len = piece.text)) := by
  rcases failsWith_parse arch text _ h with ⟨hfault, hmarks⟩ | ⟨hfault, start, args, piece, hpiece,
    hspan⟩
  · refine ⟨hmarks.offset_add_len_le, fun _ => hmarks.agrees, fun hoperand => ?_⟩
    rw [hfault] at hoperand
    cases hoperand
  · rw [hspan]
    refine ⟨hpiece.offset_add_len_le, fun hnone => ?_, fun _ => ⟨start, args, piece, hpiece, rfl,
      hpiece.agrees, fun hread => hpiece.slice_eq ?_⟩⟩
    · rw [hfault] at hnone
      cases hnone
    · exact hread.elim id fun hplain => hpiece.takeBytes_prefix_of_isPlain hplain _

/-- A register without a name. -/
theorem parse_error_span_register :
    ∃ site, parse .x86_64 "\tmovq %rax, %\n" =
        .error (.malformed (.malformed .register "%") site) ∧
      site.span.Agrees "\tmovq %rax, %\n".toList ∧ ∃ start args piece,
        FaultyOperand .x86_64 "\tmovq %rax, %\n".toList (.malformed .register "%") start args
          piece ∧
          slice "\tmovq %rax, %\n".toList site.span.offset site.span.len = piece.text := by
  have hparse : parse .x86_64 "\tmovq %rax, %\n" =
      .error (.malformed (.malformed .register "%") ⟨"", ⟨1, 13, 12, 1⟩⟩) := by
    decide +kernel
  obtain ⟨-, -, hoperand⟩ := parse_error_span hparse
  obtain ⟨start, args, piece, hpiece, -, -, hexact⟩ := hoperand rfl
  have hplain := isPlain_of_standsIn hpiece.standsIn (by decide +kernel) (by decide +kernel)
  obtain ⟨hagrees, hslice⟩ := hexact (.inr hplain)
  exact ⟨_, hparse, hagrees, start, args, piece, hpiece, hslice⟩

/-- A comment before an operand moves its span, and so does a line that goes on, which also makes
its line wrong. -/
theorem exists_operand_misplaced :
    (∃ site, parse .x86_64 "\tmovq %rax, /* c */ %\n" =
        .error (.malformed (.malformed .register "%") site) ∧
      slice "\tmovq %rax, /* c */ %\n".toList site.span.offset site.span.len ≠ ['%']) ∧
    ∃ site, parse .x86_64 "\tmovq (%rax, \\\n %rbx), %\n" =
        .error (.malformed (.malformed .register "%") site) ∧
      ¬ site.span.Agrees "\tmovq (%rax, \\\n %rbx), %\n".toList := by
  refine ⟨⟨⟨"", ⟨1, 15, 14, 1⟩⟩, by decide +kernel, by decide +kernel⟩,
    ⟨"", ⟨1, 23, 22, 1⟩⟩, by decide +kernel, fun h => ?_⟩
  exact absurd h.line (by decide +kernel)

end Statement

end Hermetic

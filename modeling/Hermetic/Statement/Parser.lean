/-
Statements, read from a text.

A statement ends at a line feed, at a semicolon, or with a comment that ends its line; a label
ends at its colon.  Every character of a text belongs to exactly one statement.

* `Statement.arguments`: the arguments of a statement, with comments and continued lines joined;
* `Statement.directive`, `Statement.instruction`, `Statement.label?`: what may come next;
* `Statement.ofCursor`: the next statement, and `Statement.length_lt_of_ofCursor`: it takes at
  least one character;
* `Statement.parse`: all statements of a text, and `SourceFile.parse`: those of a named file.
-/
import Hermetic.Arch
import Hermetic.Operand.Arm
import Hermetic.Operand.X86
import Hermetic.Source.Cursor
import Hermetic.Statement

namespace Hermetic.Statement

open Cursor

/-! ### Tables -/

/-- The words that stand before a mnemonic and change it (x86-64). -/
def modifierWords : List String :=
  ["lock", "rep", "repe", "repz", "repne", "repnz", "notrack", "data16", "addr32", "bnd"]

/-- The directives that make symbols visible. -/
def visibilityDirectives : List String :=
  [".globl", ".global"]

/-- The directives that tell a source file or a line of it. -/
def lineInfoDirectives : List String :=
  [".file", ".loc"]

/-- The directives whose arguments may mention symbols. -/
def symbolicDirectives : List String :=
  [".long", ".quad", ".4byte", ".8byte", ".word", ".hword", ".short", ".2byte", ".byte",
    ".xword", ".size", ".type", ".uleb128", ".sleb128", ".tc", ".localentry"]

/-- The directives that bind a symbol to a value. -/
def bindingDirectives : List String :=
  [".set", ".equ", ".equiv", ".eqv"]

/-! ### Ends of statements -/

/-- Whether a comment that ends its line starts at a cursor.  On AArch64 a `#` starts one only
where a statement may start. -/
def startsComment (arch : Arch) (first : Bool) (c : Cursor Char) : Bool :=
  match arch, c.next? with
  | .x86_64, some '#' => true
  | .aarch64, some '#' => first
  | .aarch64, some '/' => c.second? == some '/'
  | _, _ => false

/-- The cursor after blanks, a comment if there is one, and the terminator of a statement. -/
def terminator (arch : Arch) (c : Cursor Char) : Except Error (Cursor Char) := do
  let (_, stop) ← settle c.skipSpace
  match stop.next? with
  | none => return stop
  | some ch =>
    if ch = '\n' ∨ ch = ';' then return stop.bump
    else if startsComment arch false stop then return stop.takeLine.2.bump
    else throw (.fault (.strayEnd stop.describeNext) { stop.here with len := 1 })

/-! ### Arguments -/

/-- The bracket that opens what another closes. -/
def opening : Char → Char
  | ')' => '('
  | ']' => '['
  | _ => '{'

/-- Whether the arguments of a statement end at a cursor, if no bracket is open. -/
def endsArguments (arch : Arch) (c : Cursor Char) : Bool :=
  c.next? == some ';' || startsComment arch false c

/-- The arguments from a cursor on, after the characters that are kept so far, backwards, and
within the brackets that are open, the last first.  A block comment is kept as a space.  Within
brackets, a line that ends in a backslash goes on, after a space, on the next line. -/
def argumentsFrom (arch : Arch) (kept : List Char) (opened : List (Char × Span))
    (c : Cursor Char) : Except Error (List Char × Cursor Char) :=
  match _hc : c.peek with
  | none =>
    match opened with
    | [] => .ok ((kept.dropWhile Text.isBlank).reverse, c)
    | (bracket, span) :: _ => .error (.fault (.openAtEnd bracket) span)
  | some ch =>
    if ch = '\n' then
      match opened with
      | [] => .ok ((kept.dropWhile Text.isBlank).reverse, c)
      | (bracket, span) :: _ =>
        match kept.dropWhile Text.isBlank with
        | '\\' :: joined => argumentsFrom arch (' ' :: joined) opened c.bump
        | _ => .error (.fault (.openAtLineEnd bracket) span)
    else if opened.isEmpty && endsArguments arch c then
      .ok ((kept.dropWhile Text.isBlank).reverse, c)
    else if ch = '/' ∧ c.second? = some '*' then
      match _hs : c.skipBlockComment with
      | (.ok (), stop) => argumentsFrom arch (' ' :: kept) opened stop
      | (.error e, _) => .error e
    else if ch = '"' then
      match _hs : c.takeQuoted with
      | (.ok quoted, stop) => argumentsFrom arch (quoted.toList.reverse ++ kept) opened stop
      | (.error e, _) => .error e
    else if ch = '(' ∨ ch = '[' ∨ ch = '{' then
      argumentsFrom arch (ch :: kept) ((ch, { c.here with len := 1 }) :: opened) c.bump
    else if ch = ')' ∨ ch = ']' ∨ ch = '}' then
      match opened with
      | (bracket, _) :: others =>
        if bracket = opening ch then argumentsFrom arch (ch :: kept) others c.bump
        else .error (.fault (.unmatched ch) { c.here with len := 1 })
      | [] => .error (.fault (.unmatched ch) { c.here with len := 1 })
    else argumentsFrom arch (ch :: kept) opened c.bump
termination_by c.rest.length
decreasing_by
  all_goals
    have hne := rest_ne_nil_of_peek _hc
    first
      | exact (Reaches.refl _).length_lt hne
      | exact (bump_reaches_of_skipBlockComment _hs).length_lt hne
      | exact (bump_reaches_of_takeQuoted hne _hs).length_lt hne

/-- The arguments of a statement, without the blanks after them. -/
def arguments (arch : Arch) (c : Cursor Char) : Except Error (List Char × Cursor Char) :=
  argumentsFrom arch [] [] c

/-! ### Labels -/

/-- The length of the name that a label at a cursor would have, or zero. -/
def labelLength (c : Cursor Char) : Nat :=
  match c.next? with
  | none => 0
  | some ch =>
    if ch.isDigit then countWhile isNumericChar c.rest
    else if isSymbolStart ch then countWhile isSymbolChar c.rest
    else 0

/-- The label of a name, by its first characters. -/
def labelOf (name : List Char) : Label :=
  let text := String.ofList name
  if name.head?.any Char.isDigit then .numeric text
  else if Symbol.isDotLocal text then .dotLocal text
  else .symbol text

/-- The label at a cursor, if there is one, and the cursor after its colon. -/
def label? (c : Cursor Char) : Option (Label × Cursor Char) :=
  let n := labelLength c
  if 0 < n ∧ (c.skip n).next? = some ':' then
    some (labelOf (c.rest.take n), (c.skip n).bump)
  else none

/-! ### Directives -/

/-- The kind of a directive with its arguments. -/
def directiveKind (name : String) (args : List Char) : Except SyntaxFault Kind :=
  let lower := name.toLower
  if lower ∈ visibilityDirectives then .ok (.visibility (String.ofList args))
  else if lower ∈ lineInfoDirectives then .ok (.lineInfo name (String.ofList args))
  else if lower ∈ symbolicDirectives then
    .ok (.symbolic name ((Piece.split args).map fun p => Expr.parse p.text))
  else if lower ∈ bindingDirectives then
    match Piece.split args with
    | symbol :: value :: _ =>
      if isSymbolName symbol.text then
        .ok (.binding name (String.ofList symbol.text)
          (Expr.parse (Text.trim (Text.dropBytes value.offset args))))
      else .error (.invalidSymbol (String.ofList symbol.text) name)
    | _ => .error (.missingValue name)
  else .ok (.directive name (String.ofList args))

/-- The directive at a cursor, which stands before its point, and the cursor after its
arguments. -/
def directive (arch : Arch) (c : Cursor Char) : Except Error (Kind × Cursor Char) := do
  let (name, afterName) := c.bump.takeWhile isSymbolChar
  if name.isEmpty then throw (.fault (.namelessDirective afterName.describeNext) c.here)
  let (_, start) ← settle afterName.skipSpace
  let (args, stop) ← arguments arch start
  let kind ← (directiveKind ("." ++ name) args).mapError (.fault · start.here)
  return (kind, stop)

/-! ### Instructions -/

/-- The length of the mnemonic at a cursor, or zero. -/
def mnemonicLength (c : Cursor Char) : Nat :=
  if c.next?.any Char.isAlpha then
    countWhile (fun ch => ch.isAlphanum || ch == '_' || ch == '.') c.rest
  else 0

theorem rest_ne_nil_of_mnemonicLength {c : Cursor Char} (h : mnemonicLength c ≠ 0) :
    c.rest ≠ [] := by
  intro hc
  simp [mnemonicLength, next?, hc] at h

/-- The words from a mnemonic on that change it, the mnemonic that they lead to, and the cursor
after it. -/
def modifiersFrom (word : String) (c : Cursor Char) :
    Except Error (List String × String × Cursor Char) :=
  if word.toLower ∈ modifierWords then
    match _hs : c.skipSpace with
    | (.error e, _) => .error e
    | (.ok (), start) =>
      if _hn : mnemonicLength start = 0 then .ok ([], word, c)
      else do
        let (words, mnemonic, stop) ←
          modifiersFrom (start.take (mnemonicLength start)).1 (start.skip (mnemonicLength start))
        return (word :: words, mnemonic, stop)
  else .ok ([], word, c)
termination_by c.rest.length
decreasing_by
  have h₁ := (reaches_of_skipSpace _hs).length_le
  have h₂ := (bump_reaches_skip (Nat.pos_of_ne_zero _hn) start).length_lt
    (rest_ne_nil_of_mnemonicLength _hn)
  omega

/-- The mnemonic at a cursor with the words that change it, and the cursor after it. -/
def mnemonic (arch : Arch) (c : Cursor Char) :
    Except Error (List String × String × Cursor Char) :=
  let word := (c.take (mnemonicLength c)).1
  let stop := c.skip (mnemonicLength c)
  match arch with
  | .x86_64 => modifiersFrom word stop
  | .aarch64 => .ok ([], word, stop)

/-- Whether a mnemonic may end at a cursor. -/
def endsMnemonic (arch : Arch) (c : Cursor Char) : Bool :=
  match c.next? with
  | none => true
  | some ch =>
    ch == ' ' || ch == '\t' || ch == '\r' || ch == '\n' || ch == ';' ||
      (ch == '/' && (c.second? == some '*' || c.second? == some '/')) ||
      startsComment arch false c

/-- The operand that a text is. -/
def operand : Arch → List Char → Except SyntaxFault Operand
  | .x86_64 => X86.operand
  | .aarch64 => Arm.operand

/-- The operands of an instruction, whose arguments start at a span. -/
def operands (arch : Arch) (start : Span) (args : List Char) : Except Error (List Operand) :=
  (Piece.split args).mapM fun piece =>
    let span : Span :=
      ⟨start.line, start.col + piece.offset, start.offset + piece.offset,
        Text.byteLength piece.text⟩
    if piece.text.isEmpty then .error (.fault (.emptyOperand (String.ofList args)) span)
    else (operand arch piece.text).mapError (.fault · span)

/-- The instruction at a cursor, and the cursor after its operands. -/
def instruction (arch : Arch) (c : Cursor Char) : Except Error (Kind × Cursor Char) := do
  let (modifiers, mnemonic, afterName) ← mnemonic arch c
  if !endsMnemonic arch afterName then
    throw (.fault (.strayInMnemonic afterName.describeNext mnemonic)
      { afterName.here with len := 1 })
  let (_, start) ← settle afterName.skipSpace
  let (args, stop) ← arguments arch start
  let operands ← operands arch start.here args
  return (.instruction { modifiers, mnemonic, operands }, stop)

/-! ### Statements -/

/-- The directive or the instruction at a cursor, and the cursor after its arguments. -/
def bodyAt (arch : Arch) (c : Cursor Char) : Except Error (Kind × Cursor Char) :=
  if c.next? = some '.' then directive arch c
  else if c.next?.any Char.isAlpha then instruction arch c
  else .error (.fault (.strayStart c.describeNext) { c.here with len := 1 })

/-- The kind of the statement at a cursor, which stands after the blanks before it, and the
cursor after the statement. -/
def kindAt (arch : Arch) (c : Cursor Char) : Except Error (Kind × Cursor Char) :=
  match c.next? with
  | none => .ok (.blank, c)
  | some ch =>
    if ch = '\n' ∨ ch = ';' then .ok (.blank, c.bump)
    else if startsComment arch true c then .ok (.comment, c.takeLine.2.bump)
    else
      match label? c with
      | some (label, stop) => .ok (.label label, stop)
      | none => do
        let (kind, stop) ← bodyAt arch c
        return (kind, ← terminator arch stop)

/-- The statement at a cursor, and the cursor after it. -/
def ofCursor (arch : Arch) (c : Cursor Char) : Except Error (Statement × Cursor Char) := do
  let (_, start) ← settle c.skipSpace
  let (kind, stop) ← kindAt arch start
  return ({ kind, text := c.textTo stop, span := start.spanTo stop }, stop)

/-! ### Every statement takes something -/

theorem reaches_of_argumentsFrom {arch : Arch} {kept : List Char} {opened : List (Char × Span)}
    {c d : Cursor Char} {args : List Char}
    (h : argumentsFrom arch kept opened c = .ok (args, d)) : c.Reaches d := by
  fun_induction argumentsFrom arch kept opened c with
  | case1 | case3 | case6 =>
      cases h
      exact .refl _
  | case2 | case5 | case8 | case10 | case13 | case14 => cases h
  | case7 =>
      rename_i hs ih
      exact ((reaches_bump _).trans (bump_reaches_of_skipBlockComment hs)).trans (ih h)
  | case9 =>
      rename_i hs hc _ _ ih
      exact ((reaches_bump _).trans
        (bump_reaches_of_takeQuoted (rest_ne_nil_of_peek hc) hs)).trans (ih h)
  | _ =>
      rename_i ih
      exact (reaches_bump _).trans (ih h)

theorem reaches_of_terminator {arch : Arch} {c d : Cursor Char}
    (h : terminator arch c = .ok d) : c.Reaches d := by
  obtain ⟨⟨_, stop⟩, hs, h⟩ := Outcome.bind_eq_ok_iff.mp h
  refine (reaches_of_skipSpace (settle_eq_ok_iff.mp hs)).trans ?_
  dsimp only at h
  split at h
  · cases h
    exact .refl _
  · split at h
    · cases h
      exact reaches_bump _
    · split at h
      · cases h
        exact (reaches_skip _ _).trans (reaches_bump _)
      · cases h

theorem bump_reaches_of_label? {c d : Cursor Char} {l : Label} (h : label? c = some (l, d)) :
    c.bump.Reaches d := by
  unfold label? at h
  dsimp only at h
  split at h
  · next hn =>
      cases h
      exact (bump_reaches_skip hn.1 c).trans (reaches_bump _)
  · cases h

theorem bump_reaches_of_directive {arch : Arch} {c d : Cursor Char} {k : Kind}
    (h : directive arch c = .ok (k, d)) : c.bump.Reaches d := by
  unfold directive at h
  dsimp only at h
  split at h
  · cases h
  · obtain ⟨⟨_, start⟩, hs, h⟩ := Outcome.bind_eq_ok_iff.mp h
    obtain ⟨⟨args, stop⟩, ha, h⟩ := Outcome.bind_eq_ok_iff.mp h
    obtain ⟨kind, _, h⟩ := Outcome.bind_eq_ok_iff.mp h
    cases h
    exact ((reaches_skip _ _).trans (reaches_of_skipSpace (settle_eq_ok_iff.mp hs))).trans
      (reaches_of_argumentsFrom ha)

theorem reaches_of_modifiersFrom {word : String} {c d : Cursor Char} {words : List String}
    {m : String} (h : modifiersFrom word c = .ok (words, m, d)) : c.Reaches d := by
  fun_induction modifiersFrom word c generalizing words m with
  | case1 => cases h
  | case3 =>
      rename_i hs hn ih
      obtain ⟨⟨words', m', stop⟩, hm, h⟩ := Outcome.bind_eq_ok_iff.mp h
      cases h
      exact ((reaches_of_skipSpace hs).trans (reaches_skip _ _)).trans (ih hm)
  | _ =>
      cases h
      exact .refl _

theorem bump_reaches_of_mnemonic {arch : Arch} {c d : Cursor Char} {words : List String}
    {m : String} (hc : mnemonicLength c ≠ 0) (h : mnemonic arch c = .ok (words, m, d)) :
    c.bump.Reaches d := by
  have hb := bump_reaches_skip (Nat.pos_of_ne_zero hc) c
  unfold mnemonic at h
  cases arch with
  | x86_64 => exact hb.trans (reaches_of_modifiersFrom h)
  | aarch64 =>
      cases h
      exact hb

theorem mnemonicLength_ne_zero {c : Cursor Char} (h : c.next?.any Char.isAlpha = true) :
    mnemonicLength c ≠ 0 := by
  obtain ⟨rest, position⟩ := c
  cases rest with
  | nil => cases h
  | cons u r =>
      have hu : u.isAlpha = true := h
      have hword : (u.isAlphanum || u == '_' || u == '.') = true := by simp [Char.isAlphanum, hu]
      rw [mnemonicLength, if_pos h]
      change ((u :: r).takeWhile fun ch => ch.isAlphanum || ch == '_' || ch == '.').length ≠ 0
      simp only [List.takeWhile_cons, hword, if_true, List.length_cons]
      exact Nat.succ_ne_zero _

theorem bump_reaches_of_instruction {arch : Arch} {c d : Cursor Char} {k : Kind}
    (hc : mnemonicLength c ≠ 0) (h : instruction arch c = .ok (k, d)) : c.bump.Reaches d := by
  obtain ⟨⟨words, m, afterName⟩, hm, h⟩ := Outcome.bind_eq_ok_iff.mp h
  have hb := bump_reaches_of_mnemonic hc hm
  dsimp only at h
  split at h
  · cases h
  · obtain ⟨⟨_, start⟩, hs, h⟩ := Outcome.bind_eq_ok_iff.mp h
    obtain ⟨⟨args, stop⟩, ha, h⟩ := Outcome.bind_eq_ok_iff.mp h
    obtain ⟨ops, _, h⟩ := Outcome.bind_eq_ok_iff.mp h
    cases h
    exact (hb.trans (reaches_of_skipSpace (settle_eq_ok_iff.mp hs))).trans
      (reaches_of_argumentsFrom ha)

theorem bump_reaches_of_bodyAt {arch : Arch} {c d : Cursor Char} {k : Kind}
    (h : bodyAt arch c = .ok (k, d)) : c.bump.Reaches d := by
  unfold bodyAt at h
  split at h
  · exact bump_reaches_of_directive h
  · split at h
    · next ha => exact bump_reaches_of_instruction (mnemonicLength_ne_zero ha) h
    · cases h

theorem bump_reaches_of_kindAt {arch : Arch} {c d : Cursor Char} {k : Kind}
    (hc : c.rest ≠ []) (h : kindAt arch c = .ok (k, d)) : c.bump.Reaches d := by
  unfold kindAt at h
  split at h
  · next hn =>
      obtain ⟨u, r, hr⟩ := List.exists_cons_of_ne_nil hc
      simp [next?, hr] at hn
  · split at h
    · cases h
      exact .refl _
    · split at h
      · cases h
        exact ⟨_, bump_skip _ c⟩
      · split at h
        · next hl =>
            cases h
            exact bump_reaches_of_label? hl
        · obtain ⟨⟨kind, stop⟩, hk, h⟩ := Outcome.bind_eq_ok_iff.mp h
          obtain ⟨e, ht, h⟩ := Outcome.bind_eq_ok_iff.mp h
          cases h
          exact (bump_reaches_of_bodyAt hk).trans (reaches_of_terminator ht)

/-- What is left after a statement is less than before it. -/
theorem length_lt_of_ofCursor {arch : Arch} {c d : Cursor Char} {s : Statement}
    (hc : c.rest ≠ []) (h : ofCursor arch c = .ok (s, d)) : d.rest.length < c.rest.length := by
  obtain ⟨⟨_, start⟩, hs, h⟩ := Outcome.bind_eq_ok_iff.mp h
  obtain ⟨⟨kind, stop⟩, hk, h⟩ := Outcome.bind_eq_ok_iff.mp h
  cases h
  have hle := (reaches_of_skipSpace (settle_eq_ok_iff.mp hs)).length_le
  by_cases hstart : start.rest = []
  · have hn : start.next? = none := by simp [next?, hstart]
    simp only [kindAt, hn, Except.ok.injEq, Prod.mk.injEq] at hk
    rw [← hk.2, hstart]
    exact List.length_pos_iff.mpr hc
  · exact Nat.lt_of_lt_of_le ((bump_reaches_of_kindAt hstart hk).length_lt hstart) hle

/-! ### Texts -/

/-- The statements from a cursor on, after those that were read so far, the last first. -/
def allFrom (arch : Arch) (read : List Statement) (c : Cursor Char) :
    Except Error (List Statement) :=
  if _hc : c.rest = [] then .ok read.reverse
  else
    match _hs : ofCursor arch c with
    | .error e => .error e
    | .ok (s, stop) => allFrom arch (s :: read) stop
termination_by c.rest.length
decreasing_by exact length_lt_of_ofCursor _hc _hs

/-- The statements of a text. -/
def parse (arch : Arch) (text : String) : Except Error (List Statement) :=
  allFrom arch [] (Cursor.ofString text)

/-- The statements of a text, and the architecture that it is told to be written for. -/
def parseDetected (text : String) : Except Error (Arch × List Statement) :=
  match Arch.detect text with
  | none => .error (.refusal .noArch)
  | some arch => (parse arch text).map fun statements => (arch, statements)

end Hermetic.Statement

namespace Hermetic.SourceFile

/-- The file that an input is.  Errors learn its name. -/
def parse (path : String) (index : Nat) (text : String) (arch : Arch) :
    Except Error SourceFile :=
  match Statement.parse arch text with
  | .error e => .error (e.located path .nowhere)
  | .ok statements => .ok { path, index, statements }

end Hermetic.SourceFile

/-
Statements, read by bytes.

* `Checked.label?`, `Checked.directive`, `Checked.instruction`: what may come next;
* `Checked.ofCursor`, `Checked.ofCursor_eq`: the next statement;
* `Checked.parse_eq`: a text of less than 2^31 bytes is read within its bounds;
* `Checked.byteLength_of_parse`: the arguments of the directives in it have less than 2^31 bytes.
-/
import Hermetic.Proofs.Checked.Arguments
import Hermetic.Proofs.Checked.Arm
import Hermetic.Proofs.Checked.X86
import Hermetic.Proofs.Statement.Lossless
import Hermetic.Proofs.Statement.Operands

namespace Hermetic

open Text (byteLength byteLength_nil byteLength_cons byteLength_append)
open SourceUnit (char)

namespace Checked

open Cursor (toBytes InText)
open Statement (Kind labelOf modifierWords)

variable {text : List Char} {arch : Arch} {c d : Cursor Char} {u : Char} {r : List Char}

/-! ### Ends of statements -/

/-- The cursor after blanks, a comment if there is one, and the terminator of a statement. -/
def terminator (text : List Char) (arch : Arch) (c : Cursor UInt8) :
    Checked Error (Cursor UInt8) := do
  let stop ← skipSpace c
  match stop.next? with
  | none => return stop
  | some ch =>
    if ch = '\n' ∨ ch = ';' then bump stop
    else if startsComment arch false stop then
      let (_, stop) ← takeLine text stop
      bump stop
    else throw (.fault (.strayEnd (← describeNext text stop)) { ← here stop with len := 1 })

/-! ### Labels -/

/-- The label at a cursor whose name passes a test, if there is one, and the cursor after its
colon. -/
def labelOf? (text : List Char) (p : Char → Bool) (c : Cursor UInt8) :
    Option (Option (Label × Cursor UInt8)) := do
  let (name, stop) ← takeWhile text p c
  if !name.isEmpty && stop.next? = some ':' then return some (labelOf name, ← bump stop)
  else return none

/-- The label at a cursor, if there is one, and the cursor after its colon. -/
def label? (text : List Char) (c : Cursor UInt8) : Option (Option (Label × Cursor UInt8)) :=
  match c.next? with
  | none => return none
  | some ch =>
    if ch.isDigit then labelOf? text isNumericChar c
    else if isSymbolStart ch then labelOf? text isSymbolChar c
    else return none

/-! ### Directives -/

/-- The kind of a directive with its arguments. -/
def directiveKind (name : String) (args : List Char) : Checked SyntaxFault Kind := do
  let lower := name.toLower
  if lower ∈ Statement.visibilityDirectives then return .visibility (String.ofList args)
  else if lower ∈ Statement.lineInfoDirectives then return .lineInfo name (String.ofList args)
  else if lower ∈ Statement.symbolicDirectives then
    let values ← (← split args).mapM fun p => parseExpr p.text
    return .symbolic name values
  else if lower ∈ Statement.bindingDirectives then
    match ← split args with
    | symbol :: value :: _ =>
      let text ← tailFrom args value.offset
      if isSymbolName symbol.text then
        return .binding name (String.ofList symbol.text) (← parseExpr (Text.trim text))
      else throw (.invalidSymbol (String.ofList symbol.text) name)
    | _ => throw (.missingValue name)
  else return .directive name (String.ofList args)

/-- The directive at a cursor, which stands before its point, and the cursor after its
arguments. -/
def directive (text : List Char) (arch : Arch) (c : Cursor UInt8) :
    Checked Error (Kind × Cursor UInt8) := do
  let span ← here c
  let (name, afterName) ← takeWhile text isSymbolChar (← bump c)
  if name.isEmpty then throw (.fault (.namelessDirective (← describeNext text afterName)) span)
  let start ← skipSpace afterName
  let span ← here start
  let (args, stop) ← arguments text arch start
  let kind ← (directiveKind ("." ++ String.ofList name) args).adapt (.fault · span)
  return (kind, stop)

/-! ### Instructions -/

/-- The mnemonic at a cursor, or nothing, and the cursor after it. -/
def takeMnemonic (text : List Char) (c : Cursor UInt8) : Option (List Char × Cursor UInt8) :=
  if c.next?.any Char.isAlpha then
    takeWhile text (fun ch => ch.isAlphanum || ch == '_' || ch == '.') c
  else return ([], c)

/-- The words from a mnemonic on that change it, the mnemonic that they lead to, and the cursor
after it. -/
def modifiersFrom (text : List Char) (word : String) (c : Cursor UInt8) :
    Checked Error (List String × String × Cursor UInt8) := do
  if word.toLower ∈ modifierWords then
    let (name, stop) ← takeMnemonic text (← skipSpace c)
    if name.isEmpty then return ([], word, c)
    else
      let next ← onwards c stop
      let (words, mnemonic, stop) ← modifiersFrom text (String.ofList name) next.1
      return (word :: words, mnemonic, stop)
  else return ([], word, c)
termination_by c.rest.length
decreasing_by exact next.2

/-- The mnemonic at a cursor with the words that change it, and the cursor after it. -/
def mnemonic (text : List Char) (arch : Arch) (c : Cursor UInt8) :
    Checked Error (List String × String × Cursor UInt8) := do
  let (name, stop) ← takeMnemonic text c
  match arch with
  | .x86_64 => modifiersFrom text (String.ofList name) stop
  | .aarch64 => return ([], String.ofList name, stop)

/-- Whether a mnemonic may end at a cursor. -/
def endsMnemonic (arch : Arch) (c : Cursor UInt8) : Bool :=
  (c.next?.all fun ch => ch == ' ' || ch == '\t' || ch == '\r' || ch == '\n' || ch == ';') ||
    (c.next? = some '/' ∧ c.second? = some '*' ∨ c.next? = some '/' ∧ c.second? = some '/') ||
    startsComment arch false c

/-- The operand that a text is. -/
def operand : Arch → List Char → Checked SyntaxFault Operand
  | .x86_64 => X86.operand
  | .aarch64 => Arm.operand

/-- The operands of an instruction, whose arguments start at a span. -/
def operands (arch : Arch) (start : Span) (args : List Char) : Checked Error (List Operand) := do
  (← split args).mapM fun piece => do
    let column ← add start.col (piece.offset % 2 ^ 32)
    let span : Span :=
      ⟨start.line, column, start.offset + piece.offset, byteLength piece.text⟩
    if piece.text.isEmpty then throw (.fault (.emptyOperand (String.ofList args)) span)
    else (operand arch piece.text).adapt (.fault · span)

/-- The instruction at a cursor, and the cursor after its operands. -/
def instruction (text : List Char) (arch : Arch) (c : Cursor UInt8) :
    Checked Error (Kind × Cursor UInt8) := do
  let (modifiers, mnemonic, afterName) ← mnemonic text arch c
  if !endsMnemonic arch afterName then
    throw (.fault (.strayInMnemonic (← describeNext text afterName) mnemonic)
      { ← here afterName with len := 1 })
  let start ← skipSpace afterName
  let span ← here start
  let (args, stop) ← arguments text arch start
  let operands ← operands arch span args
  return (.instruction { modifiers, mnemonic, operands }, stop)

/-! ### Statements -/

/-- The directive or the instruction at a cursor, and the cursor after its arguments. -/
def bodyAt (text : List Char) (arch : Arch) (c : Cursor UInt8) :
    Checked Error (Kind × Cursor UInt8) := do
  if c.next? = some '.' then directive text arch c
  else if c.next?.any Char.isAlpha then instruction text arch c
  else throw (.fault (.strayStart (← describeNext text c)) { ← here c with len := 1 })

/-- The kind of the statement at a cursor, which stands after the blanks before it, and the
cursor after the statement. -/
def kindAt (text : List Char) (arch : Arch) (c : Cursor UInt8) :
    Checked Error (Kind × Cursor UInt8) := do
  match c.next? with
  | none => return (.blank, c)
  | some ch =>
    if ch = '\n' ∨ ch = ';' then return (.blank, ← bump c)
    else if startsComment arch true c then
      let (_, stop) ← takeLine text c
      return (.comment, ← bump stop)
    else
      match ← label? text c with
      | some (label, stop) => return (.label label, stop)
      | none =>
        let (kind, stop) ← bodyAt text arch c
        return (kind, ← terminator text arch stop)

/-- The statement at a cursor, and the cursor after it. -/
def ofCursor (text : List Char) (arch : Arch) (c : Cursor UInt8) :
    Checked Error (Statement × Cursor UInt8) := do
  let start ← skipSpace c
  let (kind, stop) ← kindAt text arch start
  let words ← textTo text c stop
  return ({ kind, text := String.ofList words, span := ← spanTo start stop }, stop)

/-- The statements from a cursor on, after those that were read so far, the last first. -/
def allFrom (text : List Char) (arch : Arch) (read : List Statement) (c : Cursor UInt8) :
    Checked Error (List Statement) := do
  if c.rest = [] then return read.reverse
  else
    let (s, stop) ← ofCursor text arch c
    let next ← onwards c stop
    allFrom text arch (s :: read) next.1
termination_by c.rest.length
decreasing_by exact next.2

/-- The statements of a text. -/
def parse (arch : Arch) (text : String) : Checked Error (List Statement) :=
  allFrom text.toList arch [] ⟨bytes text.toList, {}⟩

/-! ### Moves -/

variable {β γ : Type} {k : γ → β}

lemma skipSpace_bind {f : Cursor UInt8 → Checked Error β} {g : Unit × Cursor Char → Except Error γ}
    (h : InText text c)
    (hfg : ∀ d, InText text d → c.Reaches d → f d.toBytes = within ((g ((), d)).map k)) :
    skipSpace c.toBytes >>= f = within ((Cursor.settle c.skipSpace >>= g).map k) := by
  rw [skipSpace_eq h, map_bind]
  refine within_map_bind fun read hread => ?_
  obtain ⟨done, d⟩ := read
  have hd := Cursor.reaches_of_skipSpace (Cursor.settle_eq_ok_iff.mp hread)
  exact hfg d (h.of_reaches hd) hd

lemma arguments_bind {f : List Char × Cursor UInt8 → Checked Error β}
    {g : List Char × Cursor Char → Except Error γ} (h : InText text c)
    (hfg : ∀ args d, byteLength args ≤ byteLength c.rest → c.Reaches d →
      f (args, d.toBytes) = within ((g (args, d)).map k)) :
    arguments text arch c.toBytes >>= f = within ((Statement.arguments arch c >>= g).map k) := by
  rw [arguments_eq h, map_bind]
  refine within_map_bind fun read hread => ?_
  obtain ⟨args, d⟩ := read
  exact hfg args d (byteLength_of_arguments hread) (Statement.reaches_of_argumentsFrom hread)

lemma take_countWhile (p : Char → Bool) (l : List Char) :
    l.take (Cursor.countWhile p l) = l.takeWhile p := by
  have htake : (l.takeWhile p ++ l.dropWhile p).take (l.takeWhile p).length = l.takeWhile p :=
    List.take_left
  rwa [List.takeWhile_append_dropWhile] at htake

lemma drop_countWhile (p : Char → Bool) (l : List Char) :
    l.drop (Cursor.countWhile p l) = l.dropWhile p := by
  have hdrop : (l.takeWhile p ++ l.dropWhile p).drop (l.takeWhile p).length = l.dropWhile p :=
    List.drop_left
  rwa [List.takeWhile_append_dropWhile] at hdrop

/-- A line ends where its line feed is, or where the text does. -/
lemma bump_takeLine (h : InText text c) :
    bump c.takeLine.2.toBytes = some c.takeLine.2.bump.toBytes := by
  have hstop : InText text c.takeLine.2 := h.skip _
  cases hr : c.takeLine.2.rest with
  | nil =>
      have hbump : c.takeLine.2.bump = c.takeLine.2 := by rw [Cursor.bump, hr]
      rw [hbump, bump_eq_of_nil hr]
  | cons u r =>
      have hrest : c.takeLine.2.rest = c.rest.dropWhile (· != '\n') :=
        (Cursor.rest_skip _ c).trans (drop_countWhile _ _)
      have hhead := List.head?_dropWhile_not (· != '\n') c.rest
      rw [← hrest, hr] at hhead
      obtain rfl : u = '\n' := by simpa using hhead
      exact bump_eq hstop hr (by decide)

lemma terminator_eq (h : InText text c) :
    terminator text arch c.toBytes = within ((Statement.terminator arch c).map toBytes) := by
  refine skipSpace_bind h fun stop hstop _ => ?_
  dsimp only
  cases hr : stop.rest with
  | nil =>
      have hnone : stop.next? = none := by rw [Cursor.next?, hr]; rfl
      rw [Cursor.next?_toBytes_of_nil hr, hnone]
      rfl
  | cons u r =>
      have hsome : stop.next? = some u := by rw [Cursor.next?, hr]; rfl
      obtain ⟨ch, hnext, hchars⟩ := exists_next? hr
      rw [hnext, hsome]
      simp only [hchars '\n' (by decide), hchars ';' (by decide), startsComment_eq, here_eq hstop,
        describeNext_eq hstop, takeLine_eq hstop, bump_takeLine hstop, liftM_some, pure_bind]
      split
      · next hend =>
          rw [bump_eq hstop hr (by rcases hend with rfl | rfl <;> decide)]
          rfl
      · split <;> rfl

/-! ### Names -/

lemma labelOf?_eq {p : Char → Bool} (hp : ReadsBytes p) (h : InText text c) :
    labelOf? text p c.toBytes =
      some ((if 0 < Cursor.countWhile p c.rest ∧
          (c.skip (Cursor.countWhile p c.rest)).next? = some ':' then
        some (labelOf (c.rest.take (Cursor.countWhile p c.rest)),
          (c.skip (Cursor.countWhile p c.rest)).bump)
        else none).map inBytes) := by
  have hstop := h.skip (Cursor.countWhile p c.rest)
  have hempty : (c.rest.take (Cursor.countWhile p c.rest)).isEmpty = false ↔
      0 < Cursor.countWhile p c.rest := by
    rw [take_countWhile, List.isEmpty_eq_false_iff, ← List.length_pos_iff]
    rfl
  rw [labelOf?, takeWhile_eq hp h]
  simp only [Option.bind_eq_bind, Option.bind_some, Bool.and_eq_true, Bool.not_eq_true',
    decide_eq_true_eq, hempty, Cursor.next?_toBytes_eq_iff (show IsNarrow ':' by decide)]
  split
  · next hlabel =>
      obtain ⟨r, hr⟩ : ∃ r, (c.skip (Cursor.countWhile p c.rest)).rest = ':' :: r := by
        have hnext := hlabel.2
        rw [Cursor.next?, Option.map_eq_some_iff] at hnext
        obtain ⟨u, hu, rfl⟩ := hnext
        exact List.head?_eq_some_iff.mp hu
      rw [bump_eq hstop hr (by decide)]
      rfl
  · rfl

lemma label?_eq (h : InText text c) :
    label? text c.toBytes = some ((Statement.label? c).map inBytes) := by
  cases hr : c.rest with
  | nil =>
      have hnone : c.next? = none := by rw [Cursor.next?, hr]; rfl
      rw [label?, Cursor.next?_toBytes_of_nil hr]
      simp [Statement.label?, Statement.labelLength, hnone]
  | cons u r =>
      have hsome : c.next? = some u := by rw [Cursor.next?, hr]; rfl
      obtain ⟨b, hb, hnext⟩ := Cursor.exists_next?_toBytes hr
      have hdigit : (char b).isDigit = u.isDigit := readsBytes_isDigit u b hb
      have hstart : isSymbolStart (char b) = isSymbolStart u := readsBytes_isSymbolStart u b hb
      rw [label?, hnext]
      simp only [hdigit, hstart, labelOf?_eq readsBytes_isNumericChar h,
        labelOf?_eq readsBytes_isSymbolChar h, Statement.label?, Statement.labelLength, hsome]
      split
      · rfl
      · split
        · rfl
        · simp

lemma readsBytes_isWordChar : ReadsBytes fun ch => ch.isAlphanum || ch == '_' || ch == '.' := by
  refine readsBytes_of_isNarrow fun ch h => ?_
  simp only [Bool.or_eq_true, beq_iff_eq] at h
  rcases h with (h | rfl) | rfl
  · exact isNarrow_of_isAlphanum h
  · decide
  · decide

lemma takeMnemonic_eq (h : InText text c) :
    takeMnemonic text c.toBytes =
      some (c.rest.take (Statement.mnemonicLength c),
        (c.skip (Statement.mnemonicLength c)).toBytes) := by
  rw [takeMnemonic, Cursor.any_next?_toBytes readsBytes_isAlpha, Statement.mnemonicLength]
  split
  · exact takeWhile_eq readsBytes_isWordChar h
  · rfl

/-! ### Directives -/

lemma directiveKind_eq {args : List Char} (hsize : byteLength args < 2 ^ 31) (name : String) :
    directiveKind name args = within (Statement.directiveKind name args) := by
  rw [directiveKind, Statement.directiveKind]
  simp only [split_eq hsize, parseExpr_eq, List.mapM_pure, liftM_some, pure_bind]
  split
  · rfl
  · split
    · rfl
    · split
      · rfl
      · split
        · cases hpieces : Piece.split args with
          | nil => rfl
          | cons symbol pieces =>
              cases pieces with
              | nil => rfl
              | cons value pieces =>
                  have hvalue : value ∈ Piece.split args := by rw [hpieces]; simp
                  simp only [tailFrom_of_mem_split hvalue, liftM_some, pure_bind]
                  split <;> rfl
        · rfl

lemma isEmpty_ofList (l : List Char) : (String.ofList l).isEmpty = l.isEmpty := by
  rw [Bool.eq_iff_iff, String.isEmpty_iff, List.isEmpty_iff, ← String.toList_inj]
  simp

lemma directive_eq (h : InText text c) (hc : c.next? = some '.') :
    directive text arch c.toBytes = within ((Statement.directive arch c).map inBytes) := by
  obtain ⟨r, hr⟩ : ∃ r, c.rest = '.' :: r := by
    rw [Cursor.next?, Option.map_eq_some_iff] at hc
    obtain ⟨u, hu, rfl⟩ := hc
    exact List.head?_eq_some_iff.mp hu
  have hname := h.bump
  have hafter := hname.skip (Cursor.countWhile isSymbolChar c.bump.rest)
  rw [directive, Statement.directive]
  simp only [here_eq h, bump_eq h hr (by decide), takeWhile_eq readsBytes_isSymbolChar hname,
    describeNext_eq hafter, liftM_some, pure_bind]
  change _ = within (Except.map inBytes (if (String.ofList (c.bump.rest.take
    (Cursor.countWhile isSymbolChar c.bump.rest))).isEmpty = true then _ else _))
  rw [isEmpty_ofList]
  split
  · rfl
  · refine skipSpace_bind hafter fun start hstart _ => ?_
    rw [here_eq hstart, liftM_some, pure_bind]
    refine arguments_bind hstart fun args stop hargs _ => ?_
    have hsize := hstart.byteLength_rest_lt
    dsimp only
    rw [directiveKind_eq (by omega), adapt_within, map_bind, within_bind]
    rfl

/-! ### Mnemonics -/

lemma isEmpty_take_mnemonicLength (c : Cursor Char) :
    (c.rest.take (Statement.mnemonicLength c)).isEmpty = true ↔ Statement.mnemonicLength c = 0 := by
  rw [List.isEmpty_iff, List.take_eq_nil_iff]
  refine ⟨fun h => h.elim id fun hnil => ?_, .inl⟩
  by_contra hne
  exact Statement.rest_ne_nil_of_mnemonicLength hne hnil

/-- A result in characters as one in bytes. -/
def wordsInBytes (x : List String × String × Cursor Char) :
    List String × String × Cursor UInt8 :=
  (x.1, inBytes x.2)

lemma modifiersFrom_eq (h : InText text c) (word : String) :
    modifiersFrom text word c.toBytes =
      within ((Statement.modifiersFrom word c).map wordsInBytes) := by
  -- by the number of characters: what follows a modifier is shorter
  induction hn : c.rest.length using Nat.strongRecOn generalizing c word with
  | ind n ih =>
      rw [modifiersFrom, Statement.modifiersFrom_eq]
      by_cases hword : word.toLower ∈ modifierWords
      · rw [if_pos hword, if_pos hword]
        refine skipSpace_bind h fun start hstart hreach => ?_
        rw [takeMnemonic_eq hstart, liftM_some, pure_bind]
        dsimp only
        by_cases hzero : Statement.mnemonicLength start = 0
        · rw [if_pos ((isEmpty_take_mnemonicLength start).mpr hzero), if_pos hzero]
          rfl
        · -- something is left to read, since a mnemonic follows
          have hne : c.rest ≠ [] := fun hnil => by
            have hle := hreach.length_le
            rw [hnil, List.length_nil, Nat.le_zero, List.length_eq_zero_iff] at hle
            exact Statement.rest_ne_nil_of_mnemonicLength hzero hle
          have hgo : c.bump.Reaches (start.skip (Statement.mnemonicLength start)) := by
            obtain ⟨m, rfl⟩ := hreach
            rw [Cursor.skip_skip]
            exact Cursor.bump_reaches_skip (by omega) c
          have hnext := hstart.skip (Statement.mnemonicLength start)
          rw [if_neg (by rwa [isEmpty_take_mnemonicLength]), if_neg hzero, onwards_eq hne hgo,
            liftM_some, pure_bind]
          dsimp only
          rw [ih _ (hn ▸ hgo.length_lt hne) hnext _ rfl, map_bind]
          exact within_map_bind fun _ _ => rfl
      · rw [if_neg hword, if_neg hword]
        rfl

lemma mnemonic_eq (h : InText text c) :
    mnemonic text arch c.toBytes = within ((Statement.mnemonic arch c).map wordsInBytes) := by
  rw [mnemonic, takeMnemonic_eq h, liftM_some, pure_bind]
  cases arch with
  | x86_64 => exact modifiersFrom_eq (h.skip _) _
  | aarch64 => rfl

lemma endsMnemonic_eq (arch : Arch) (c : Cursor Char) :
    endsMnemonic arch c.toBytes = Statement.endsMnemonic arch c := by
  have hends : ReadsBytes fun ch =>
      ch == ' ' || ch == '\t' || ch == '\r' || ch == '\n' || ch == ';' :=
    readsBytes_of_isNarrow fun ch h => by
      simp only [Bool.or_eq_true, beq_iff_eq] at h
      rcases h with (((rfl | rfl) | rfl) | rfl) | rfl <;> decide
  have hslash : IsNarrow '/' := by decide
  simp only [endsMnemonic, Cursor.all_next?_toBytes hends, pair_toBytes hslash hslash,
    pair_toBytes hslash (show IsNarrow '*' by decide), startsComment_eq]
  unfold Statement.endsMnemonic
  cases c.next? with
  | none => rfl
  | some ch =>
      have hcomment : decide (some ch = some '/' ∧ c.second? = some '*' ∨
          some ch = some '/' ∧ c.second? = some '/') =
          (ch == '/' && (c.second? == some '*' || c.second? == some '/')) := by
        rw [Bool.eq_iff_iff, decide_eq_true_eq, ← and_or_left, Bool.and_eq_true, Bool.or_eq_true,
          beq_iff_eq, beq_iff_eq, beq_iff_eq, Option.some.injEq]
      rw [hcomment, Option.all_some]

/-! ### Operands -/

lemma operand_eq {l : List Char} (hne : l ≠ []) (hsize : byteLength l < 2 ^ 31) (arch : Arch) :
    operand arch l = within (Statement.operand arch l) := by
  cases arch with
  | x86_64 => exact X86.operand_eq l
  | aarch64 => exact Arm.operand_eq hne hsize

lemma operands_eq {args : List Char} (h : InText text c)
    (hargs : byteLength args ≤ byteLength c.rest) :
    operands arch c.here args = within (Statement.operands arch c.here args) := by
  have hsize := h.byteLength_rest_lt
  rw [operands, split_eq (by omega), liftM_some, pure_bind, Statement.operands]
  refine mapM_within fun piece hpiece => ?_
  have hlength := offset_add_byteLength_le_of_mem_split hpiece
  have hcolumn : c.here.col + piece.offset < 2 ^ 32 := by
    have hrest := h.standsIn.offset_add
    have htext := h.size
    change c.position.offset - c.position.lineStart + 1 + piece.offset < 2 ^ 32
    omega
  have hmod : piece.offset % 2 ^ 32 = piece.offset := Nat.mod_eq_of_lt (by omega)
  rw [hmod, add_eq hcolumn, liftM_some, pure_bind]
  dsimp only
  split
  · rfl
  · next hne =>
      rw [operand_eq (by simpa using hne) (by omega), adapt_within]

lemma instruction_eq (h : InText text c) :
    instruction text arch c.toBytes = within ((Statement.instruction arch c).map inBytes) := by
  rw [instruction, Statement.instruction, mnemonic_eq h, map_bind]
  refine within_map_bind fun read hread => ?_
  obtain ⟨modifiers, name, afterName⟩ := read
  have hafter := h.of_reaches (Statement.reaches_of_mnemonic hread)
  dsimp only [wordsInBytes, inBytes]
  rw [endsMnemonic_eq, describeNext_eq hafter, here_eq hafter]
  split
  · rfl
  · refine skipSpace_bind hafter fun start hstart _ => ?_
    rw [here_eq hstart, liftM_some, pure_bind]
    refine arguments_bind hstart fun args stop hargs _ => ?_
    dsimp only
    rw [operands_eq hstart hargs, map_bind, within_bind]
    rfl

/-! ### Statements -/

lemma bodyAt_eq (h : InText text c) :
    bodyAt text arch c.toBytes = within ((Statement.bodyAt arch c).map inBytes) := by
  rw [bodyAt, Statement.bodyAt, describeNext_eq h, here_eq h,
    Cursor.any_next?_toBytes readsBytes_isAlpha]
  simp only [Cursor.next?_toBytes_eq_iff (show IsNarrow '.' by decide)]
  split
  · next hc => exact directive_eq h hc
  · split
    · exact instruction_eq h
    · rfl

lemma kindAt_eq (h : InText text c) :
    kindAt text arch c.toBytes = within ((Statement.kindAt arch c).map inBytes) := by
  rw [kindAt, Statement.kindAt]
  cases hr : c.rest with
  | nil =>
      have hnone : c.next? = none := by rw [Cursor.next?, hr]; rfl
      rw [Cursor.next?_toBytes_of_nil hr, hnone]
      rfl
  | cons u r =>
      have hsome : c.next? = some u := by rw [Cursor.next?, hr]; rfl
      obtain ⟨ch, hnext, hchars⟩ := exists_next? hr
      rw [hnext, hsome]
      -- what one character decides, its first byte decides
      simp only [hchars '\n' (by decide), hchars ';' (by decide), startsComment_eq, takeLine_eq h,
        bump_takeLine h, label?_eq h, liftM_some, pure_bind]
      split
      · next hend =>
          rw [bump_eq h hr (by rcases hend with rfl | rfl <;> decide)]
          rfl
      · split
        · rfl
        · cases hlabel : Statement.label? c with
          | some read => rfl
          | none =>
              dsimp only [Option.map_none]
              rw [bodyAt_eq h, map_bind]
              refine within_map_bind fun read hread => ?_
              obtain ⟨kind, stop⟩ := read
              have hstop : InText text stop :=
                h.bump.of_reaches (Statement.bump_reaches_of_bodyAt hread)
              dsimp only [inBytes]
              rw [terminator_eq hstop]
              cases Statement.terminator arch stop <;> rfl

/-- A statement is read by bytes as it is by characters. -/
lemma ofCursor_eq (h : InText text c) :
    ofCursor text arch c.toBytes = within ((Statement.ofCursor arch c).map inBytes) := by
  rw [ofCursor, Statement.ofCursor]
  refine skipSpace_bind h fun start hstart hreach => ?_
  dsimp only
  rw [kindAt_eq hstart, map_bind]
  refine within_map_bind fun read hread => ?_
  obtain ⟨kind, stop⟩ := read
  have hstop := Statement.reaches_of_kindAt hread
  obtain ⟨l, hl⟩ := (hreach.trans hstop).between
  dsimp only [inBytes]
  rw [textTo_eq h hl, spanTo_eq hstart hstop, hl.textTo_eq]
  rfl

lemma bump_reaches_of_ofCursor {s : Statement} (hc : c.rest ≠ [])
    (h : Statement.ofCursor arch c = .ok (s, d)) : c.bump.Reaches d := by
  have hlt := Statement.length_lt_of_ofCursor hc h
  obtain ⟨⟨done, start⟩, hs, h⟩ := Outcome.bind_eq_ok_iff.mp h
  obtain ⟨⟨kind, stop⟩, hk, h⟩ := Outcome.bind_eq_ok_iff.mp h
  cases h
  obtain ⟨n, rfl⟩ := (Cursor.reaches_of_skipSpace (Cursor.settle_eq_ok_iff.mp hs)).trans
    (Statement.reaches_of_kindAt hk)
  refine Cursor.bump_reaches_skip (Nat.pos_of_ne_zero ?_) c
  rintro rfl
  exact absurd hlt (Nat.lt_irrefl _)

lemma allFrom_eq (h : InText text c) (read : List Statement) :
    allFrom text arch read c.toBytes = within (Statement.allFrom arch read c) := by
  induction hn : c.rest.length using Nat.strongRecOn generalizing c read with
  | ind n ih =>
      rw [allFrom, Statement.allFrom_eq]
      by_cases hc : c.rest = []
      · rw [if_pos hc, if_pos (by rw [toBytes, hc]; rfl)]
        rfl
      · have hbytes : c.toBytes.rest ≠ [] := by
          obtain ⟨u, r, hr⟩ := List.exists_cons_of_ne_nil hc
          have hpos := Char.utf8Size_pos u
          change bytes c.rest ≠ []
          rw [← List.length_pos_iff, length_bytes, hr, byteLength_cons]
          omega
        rw [if_neg hc, if_neg hbytes, ofCursor_eq h]
        refine within_map_bind fun next hnext => ?_
        obtain ⟨s, stop⟩ := next
        have hgo := bump_reaches_of_ofCursor hc hnext
        dsimp only [inBytes]
        rw [onwards_eq hc hgo, liftM_some, pure_bind]
        exact ih _ (hn ▸ hgo.length_lt hc) (h.bump.of_reaches hgo) _ rfl

/-- A text of less than 2^31 bytes is read within its bounds. -/
theorem parse_eq {text : String} (hsize : byteLength text.toList < 2 ^ 31) :
    parse arch text = within (Statement.parse arch text) :=
  allFrom_eq ⟨hsize, [], .refl _⟩ []

/-! ### Arguments of directives -/

lemma toList_of_directiveKind {directive name arguments : String} {args : List Char}
    (h : Statement.directiveKind directive args = .ok (.directive name arguments)) :
    arguments.toList = args := by
  unfold Statement.directiveKind at h
  dsimp only at h
  repeat' split at h
  all_goals cases h
  exact String.toList_ofList

lemma byteLength_of_directive {name arguments : String} (h : InText text c)
    (hread : Statement.directive arch c = .ok (.directive name arguments, d)) :
    byteLength arguments.toList < 2 ^ 31 := by
  unfold Statement.directive at hread
  dsimp only at hread
  split at hread
  · cases hread
  · obtain ⟨⟨done, start⟩, hstart, hread⟩ := Outcome.bind_eq_ok_iff.mp hread
    obtain ⟨⟨args, stop⟩, hargs, hread⟩ := Outcome.bind_eq_ok_iff.mp hread
    obtain ⟨kind, hkind, hread⟩ := Outcome.bind_eq_ok_iff.mp hread
    cases hread
    have htext : InText text start := (h.bump.skip _).of_reaches
      (Cursor.reaches_of_skipSpace (Cursor.settle_eq_ok_iff.mp hstart))
    rw [toList_of_directiveKind (Outcome.mapError_eq_ok_iff.mp hkind)]
    exact Nat.lt_of_le_of_lt (byteLength_of_arguments hargs) htext.byteLength_rest_lt

/-- Statements that are read from within a text are all read at places within it. -/
lemma exists_inText_of_listed {statements : List Statement} {s : Statement} (h : InText text c)
    (hlisted : Statement.Listed arch c statements) (hs : s ∈ statements) :
    ∃ start stop, InText text start ∧ Statement.kindAt arch start = .ok (s.kind, stop) := by
  induction hlisted with
  | nil => cases hs
  | cons hc hfirst _ ih =>
      rcases List.mem_cons.mp hs with rfl | hs
      · obtain ⟨⟨done, start⟩, hstart, hfirst⟩ := Outcome.bind_eq_ok_iff.mp hfirst
        obtain ⟨⟨kind, stop⟩, hkind, hfirst⟩ := Outcome.bind_eq_ok_iff.mp hfirst
        cases hfirst
        exact ⟨start, _, h.of_reaches (Cursor.reaches_of_skipSpace
          (Cursor.settle_eq_ok_iff.mp hstart)), hkind⟩
      · exact ih (h.bump.of_reaches (bump_reaches_of_ofCursor hc hfirst)) hs

/-- The arguments of a directive in a text of less than 2^31 bytes have less than 2^31 bytes. -/
lemma byteLength_of_parse {text name arguments : String} {statements : List Statement}
    {s : Statement} (hsize : byteLength text.toList < 2 ^ 31)
    (h : Statement.parse arch text = .ok statements) (hs : s ∈ statements)
    (hkind : s.kind = .directive name arguments) : byteLength arguments.toList < 2 ^ 31 := by
  obtain ⟨start, stop, htext, hat⟩ :=
    exists_inText_of_listed ⟨hsize, [], .refl _⟩ (Statement.parse_eq_ok_iff.mp h) hs
  rw [hkind] at hat
  rcases Statement.kindAt_eq_ok hat with hat | hat | ⟨label, hat, -⟩ | ⟨stop, hat | hat⟩
  · cases hat
  · cases hat
  · cases hat
  · exact byteLength_of_directive htext hat
  · obtain ⟨insn, hinsn, -⟩ := Statement.exists_operand_of_instruction hat
    cases hinsn

end Checked

end Hermetic

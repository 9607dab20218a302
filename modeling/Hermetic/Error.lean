/-
What can go wrong, by cause.

* `SyntaxFault`: a text that is no statement of its dialect, and why;
* `Unsupported`: a statement that is understood and cannot be sealed, and why;
* `Resource`: what a run is limited in;
* `Error`: one of these with its location, a name that is taken, or a file that cannot be read;
* `Error.located`: an error learns its file and place from where it is caught, and keeps what it
  already knows;
* `Outcome.bind_eq_ok_iff`: when a computation after another succeeds.

The wording of every message stands in this module only.
-/
import Hermetic.Source.Span

namespace Hermetic

/-! ### Texts that are no statement -/

/-- The parts of an operand that can be malformed. -/
inductive OperandPart
  | register
  | segmentOverride
  | relocationTag
  | memoryOperand
  | operand
  | relocationSpecifier
  | relocationOffset
deriving DecidableEq, Repr

/-- The name of a part in a message. -/
def OperandPart.display : OperandPart → String
  | register => "register"
  | segmentOverride => "segment override"
  | relocationTag => "relocation tag in"
  | memoryOperand => "memory operand"
  | operand => "operand"
  | relocationSpecifier => "relocation specifier"
  | relocationOffset => "relocation offset"

/-- Why a text is no statement. -/
inductive SyntaxFault
  /-- A block comment does not end. -/
  | openComment
  /-- A quoted string does not end on its line. -/
  | openString (text : String)
  /-- No statement starts like this. -/
  | strayStart (next : String)
  /-- A statement is followed by something else than a terminator. -/
  | strayEnd (next : String)
  /-- A point is not followed by the name of a directive. -/
  | namelessDirective (next : String)
  /-- A directive that binds a symbol has no value. -/
  | missingValue (directive : String)
  /-- A directive binds something that is no symbol. -/
  | invalidSymbol (symbol directive : String)
  /-- A mnemonic is followed by something that ends none. -/
  | strayInMnemonic (next mnemonic : String)
  /-- There is nothing between two commas. -/
  | emptyOperand (operands : String)
  /-- A bracket is open where the line ends. -/
  | openAtLineEnd (bracket : Char)
  /-- A bracket is open where the text ends. -/
  | openAtEnd (bracket : Char)
  /-- A closing bracket does not match the one that is open. -/
  | unmatched (bracket : Char)
  /-- A part of an operand is not of its form. -/
  | malformed (part : OperandPart) (text : String)
  /-- An operand goes on after its end. -/
  | strayInOperand (next operand : String)
  /-- A fault in words of its own. -/
  | other (message : String)
deriving DecidableEq, Repr

namespace SyntaxFault

/-- A fault in words. -/
def message : SyntaxFault → String
  | openComment => "unterminated block comment '/*'"
  | openString text => "unterminated string " ++ text
  | strayStart next => "unexpected " ++ next ++ " at start of statement"
  | strayEnd next => "unexpected " ++ next ++ " after statement"
  | namelessDirective next => "expected directive name after '.', found " ++ next
  | missingValue directive => "expected '<symbol>, <value>' after " ++ directive
  | invalidSymbol symbol directive =>
      "invalid symbol name '" ++ symbol ++ "' in " ++ directive
  | strayInMnemonic next mnemonic =>
      "unexpected " ++ next ++ " in mnemonic '" ++ mnemonic ++ "'"
  | emptyOperand operands => "empty operand in '" ++ operands ++ "'"
  | openAtLineEnd bracket => "unbalanced '" ++ bracket.toString ++ "' at end of line"
  | openAtEnd bracket => "unbalanced '" ++ bracket.toString ++ "' at end of input"
  | unmatched bracket => "unbalanced '" ++ bracket.toString ++ "'"
  | malformed part text => "malformed " ++ part.display ++ " '" ++ text ++ "'"
  | strayInOperand next operand =>
      "unexpected '" ++ next ++ "' in memory operand '" ++ operand ++ "'"
  | other message => message

end SyntaxFault

/-! ### Statements that cannot be sealed -/

/-- The operands that have to be registers. -/
inductive RegisterRole
  | gotDestination
  | transformDestination
  | combineDestination
  | vectorCombineDestination
  | lowPartDestination
  | lowPartSource
  | pageDestination
deriving DecidableEq, Repr

/-- The name of a role in a message. -/
def RegisterRole.display : RegisterRole → String
  | gotDestination => "GOT load destination"
  | transformDestination => "transforming move destination"
  | combineDestination => "combining instruction destination"
  | vectorCombineDestination => "vector combine destination"
  | lowPartDestination => ":lo12: destination"
  | lowPartSource => ":lo12: source"
  | pageDestination => "adrp destination"

/-- Why something that is understood cannot be sealed. -/
inductive Unsupported
  /-- No instruction tells the architecture. -/
  | noArch
  /-- No instruction of the first input tells the architecture. -/
  | noArchOfInput
  /-- There is neither an input nor an architecture. -/
  | noInput
  /-- There is no architecture of this name. -/
  | unknownArch (name : String)
  /-- Zero-initialised storage holds no code. -/
  | instructionInBss
  /-- Common storage is asked for without a name. -/
  | namelessCommon (directive : String)
  /-- A module holds no writable data. -/
  | dataDirective
  /-- A module holds no data that is relocated before it is read. -/
  | relocatedData
  /-- A module holds no writable data. -/
  | dataSection (name : String)
  /-- Every scratch register is in use. -/
  | noScratchRegister
  /-- An operand has to be a register. -/
  | notRegister (role : RegisterRole) (found : String)
  /-- Only branches go through the linkage table. -/
  | linkageOutsideBranch (mnemonic : String)
  /-- A branch through the offset table is not of the known form. -/
  | gotBranch (operand : String)
  /-- A relocation tag is not known. -/
  | unknownTag (tag operand : String)
  /-- The distance to the offset table is not loaded by the known instruction. -/
  | gotDistanceMnemonic
  /-- The distance to the offset table is not the first of two operands. -/
  | gotDistanceForm
  /-- The address of the offset table is not loaded by the known instruction. -/
  | gotAddressMnemonic
  /-- The address of the offset table is not the first of two operands. -/
  | gotAddressForm
  /-- An offset in the table is not loaded by the known instruction. -/
  | gotOffsetMnemonic
  /-- An offset in the table is not the first of two operands. -/
  | gotOffsetForm
  /-- An immediate holds an absolute address. -/
  | absoluteReference (symbol operand : String)
  /-- A load from the table adds an offset. -/
  | gotLoadOffset
  /-- A load from the table is not relative to the instruction pointer. -/
  | gotLoadBase
  /-- A load from the table is not the first operand. -/
  | gotLoadPlace
  /-- A transforming move has no vector to fill. -/
  | transformTarget
  /-- A combination has no general register to change. -/
  | combineTarget
  /-- A vector combination has no vector to change. -/
  | vectorCombineTarget
  /-- A load from the table stands where a result goes. -/
  | gotLoadResult
  /-- No rule says how to load from the table in this instruction. -/
  | gotLoadIn (mnemonic : String)
  /-- An operand has to be a 64-bit register. -/
  | notXRegister (role : RegisterRole) (found : String)
  /-- The low part of a table address belongs into one instruction. -/
  | gotLowPartMnemonic
  /-- A load has no register to fill. -/
  | loadWithoutRegister
  /-- A relocation is not known in a memory operand. -/
  | memoryRelocation (spec : String)
  /-- A relocation is not known in this instruction. -/
  | relocationIn (operand mnemonic : String)
  /-- A page address has not two operands. -/
  | pageArity (operands : Nat)
  /-- A page address of something else than a symbol. -/
  | pageOperand (operand : String)
  /-- A symbol outside the module is loaded with an offset. -/
  | externalOffset (symbol offset : String)
  /-- A reason in words of its own. -/
  | other (message : String)
deriving DecidableEq, Repr

namespace Unsupported

/-- A reason in words. -/
def message : Unsupported → String
  | noArch => "unable to detect architecture"
  | noArchOfInput => "unable to detect architecture from the first input"
  | noInput => "no inputs and no architecture given"
  | unknownArch name => "unknown architecture '" ++ name ++ "'"
  | instructionInBss => "instruction in BSS section"
  | namelessCommon directive => directive ++ " without a symbol"
  | dataDirective => ".data section found in module"
  | relocatedData => ".data.rel.ro section found in module"
  | dataSection name => "data section '" ++ name ++ "' found in module"
  | noScratchRegister => "no free scratch register"
  | notRegister role found =>
      role.display ++ " must be a register, found '" ++ found ++ "'"
  | linkageOutsideBranch mnemonic =>
      "PLT reference in non-branch instruction '" ++ mnemonic ++ "'"
  | gotBranch operand => "cannot rewrite GOT branch '" ++ operand ++ "'"
  | unknownTag tag operand =>
      "unknown relocation section '@" ++ tag ++ "' in '" ++ operand ++ "'"
  | gotDistanceMnemonic => "_GLOBAL_OFFSET_TABLE_ lookup must use movabsq"
  | gotDistanceForm => "unexpected form of _GLOBAL_OFFSET_TABLE_ lookup"
  | gotAddressMnemonic => "_GLOBAL_OFFSET_TABLE_ used outside of leaq"
  | gotAddressForm => "unexpected form of _GLOBAL_OFFSET_TABLE_ address load"
  | gotOffsetMnemonic => "GOT offset must be loaded with movabsq"
  | gotOffsetForm => "unexpected form of GOT offset load"
  | absoluteReference symbol operand =>
      "absolute reference to symbol '" ++ symbol ++ "' in immediate '" ++ operand ++ "'"
  | gotLoadOffset => "loading from the GOT with an offset is unsupported"
  | gotLoadBase => "GOT access must be %rip relative"
  | gotLoadPlace => "GOT access must be the source operand"
  | transformTarget => "transforming moves must target a vector register"
  | combineTarget => "combining instructions must target a general-purpose register"
  | vectorCombineTarget => "vector combine must target a vector register"
  | gotLoadResult => "GOT access must be a source operand"
  | gotLoadIn mnemonic => "cannot rewrite GOTPCREL reference in '" ++ mnemonic ++ "'"
  | notXRegister role found =>
      role.display ++ " must be an x register, found '" ++ found ++ "'"
  | gotLowPartMnemonic => ":got_lo12: may only be used with ldr"
  | loadWithoutRegister => "ldr without a destination register"
  | memoryRelocation spec =>
      "unsupported relocation ':" ++ spec ++ ":' in memory operand"
  | relocationIn operand mnemonic =>
      "cannot rewrite relocation '" ++ operand ++ "' in '" ++ mnemonic ++ "'"
  | pageArity operands => "adrp with " ++ toString operands ++ " operands"
  | pageOperand operand => "unsupported adrp operand '" ++ operand ++ "'"
  | externalOffset symbol offset =>
      "cannot load external symbol '" ++ symbol ++ "' with offset '" ++ offset ++
        "' from the GOT"
  | other message => message

end Unsupported

/-! ### Errors -/

/-- What a run is limited in. -/
inductive Resource
  | sourceBytes
  | statements
  | other (name : String)
deriving DecidableEq, Repr

/-- The name of a resource in a message. -/
def Resource.display : Resource → String
  | sourceBytes => "source size in bytes"
  | statements => "statements"
  | other name => name

/-- The end of a run without a result. -/
inductive Error
  /-- A text is no statement. -/
  | malformed (fault : SyntaxFault) (site : Location)
  /-- A label is defined where its name is taken. -/
  | duplicateSymbol (symbol : String) (site first : Location)
  /-- A statement cannot be sealed. -/
  | unsupported (reason : Unsupported) (site : Location)
  /-- A file cannot be read, unpacked or written. -/
  | io (path detail : String)
  /-- A limit is exceeded. -/
  | limitExceeded (resource : Resource) (bound : Nat)
deriving DecidableEq, Repr

namespace Error

/-- A fault at a place of a text whose file is not known yet. -/
def fault (f : SyntaxFault) (span : Span) : Error :=
  malformed f ⟨"", span⟩

/-- A reason whose place is not known yet. -/
def refusal (r : Unsupported) : Error :=
  unsupported r {}

/-- An error with the file and the span taken from elsewhere where it has none. -/
def located (file : String) (span : Span) : Error → Error
  | malformed f site => malformed f (site.orElse file span)
  | duplicateSymbol s site first => duplicateSymbol s (site.orElse file span) first
  | unsupported r site => unsupported r (site.orElse file span)
  | e => e

/-- Where an error is, if it lies in a text. -/
def location? : Error → Option Location
  | malformed _ site | duplicateSymbol _ site _ | unsupported _ site => some site
  | io .. | limitExceeded .. => none

/-- An error in words. -/
def display : Error → String
  | malformed f site => site.display ++ ": syntax error: " ++ f.message
  | duplicateSymbol s site first =>
      site.display ++ ": duplicate symbol '" ++ s ++ "' (first defined at " ++
        first.display ++ ")"
  | unsupported r site => site.display ++ ": unsupported construct: " ++ r.message
  | io path detail => path ++ ": " ++ detail
  | limitExceeded resource bound =>
      "resource limit exceeded: " ++ resource.display ++ " (limit: " ++ toString bound ++ ")"

/-- The location of a located error is the old one, completed. -/
theorem location?_located (e : Error) (file : String) (span : Span) :
    (e.located file span).location? = e.location?.map (·.orElse file span) := by
  cases e <;> rfl

end Error

/-- A computation after another succeeds exactly if both do. -/
theorem Outcome.bind_eq_ok_iff {ε α β : Type} {x : Except ε α} {f : α → Except ε β} {r : β} :
    x >>= f = .ok r ↔ ∃ a, x = .ok a ∧ f a = .ok r := by
  cases x <;> simp [bind, Except.bind]

end Hermetic

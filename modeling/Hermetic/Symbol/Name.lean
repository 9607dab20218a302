/-
The names of symbols.

A symbol's name is spelled with ASCII letters, digits, `.`, `_` and `$`, and does not start with
a digit or `$`.  The names of a module's symbols, of their aliases and of the helpers that are
written for them all come from one scheme, which is stated here.

* `isSymbolStart`, `isSymbolChar`, `isSymbolName`: the spelling of a name;
* `isNumericReference`: the spelling of a reference to a numeric label;
* `Symbol.isDotLocal`, `Symbol.renamed`, `Symbol.localized`: names that are local to a file,
  and how they are told apart when several files become one;
* `Symbol.localAlias`: the second, local name of every symbol that the module defines;
* `Symbol.redirector`, `Symbol.accessor`, `Symbol.gotHelper`, `Symbol.gotSlot`,
  `Symbol.gotDelta`, `Symbol.gotOffsetSlot`: the names of helpers.
-/
import Hermetic.Text.Blank

namespace Hermetic

/-! ### Spelling -/

/-- The characters that start a name: ASCII letters, `.` and `_`. -/
def isSymbolStart (c : Char) : Bool :=
  c.isAlpha || c == '.' || c == '_'

/-- The characters of a name: ASCII letters and digits, `.`, `_` and `$`. -/
def isSymbolChar (c : Char) : Bool :=
  c.isAlphanum || c == '.' || c == '_' || c == '$'

/-- Whether a text is the name of a symbol. -/
def isSymbolName : List Char → Bool
  | [] => false
  | c :: l => isSymbolStart c && l.all isSymbolChar

theorem isSymbolChar_of_isSymbolStart {c : Char} (h : isSymbolStart c = true) :
    isSymbolChar c = true := by
  simp only [isSymbolStart, isSymbolChar, Char.isAlphanum, Bool.or_eq_true] at h ⊢
  rcases h with (h | h) | h <;> simp [h]

/-- The characters of a numeric label after its first digit. -/
def isNumericChar (c : Char) : Bool :=
  c.isDigit || c == '$'

/-- Whether a text refers to the nearest numeric label before or after: a digit, digits and `$`,
and `b` or `f`. -/
def isNumericReference : List Char → Bool
  | [] => false
  | c :: l =>
    c.isDigit &&
      match l.reverse with
      | [] => false
      | d :: m => (d == 'b' || d == 'f') && m.all isNumericChar

namespace Symbol

/-! ### Local names -/

/-- Whether a name is local to its file: it starts with `.L`. -/
def isDotLocal (name : String) : Bool :=
  Text.startsWith ".L" name

/-- A local name as it is written for the file at a position.  The first file keeps its names. -/
def renamed (name : String) (index : Nat) : String :=
  if index = 0 then name else name ++ "_BCM_" ++ toString index

/-- A name as it is written for the file at a position: local names only are changed. -/
def localized (name : String) (index : Nat) : String :=
  if isDotLocal name then renamed name index else name

@[simp] theorem renamed_zero (name : String) : renamed name 0 = name := rfl

@[simp] theorem localized_zero (name : String) : localized name 0 = name := by
  simp [localized]

/-- The local name under which a module refers to its own symbol. -/
def localAlias (name : String) : String :=
  ".L" ++ name ++ "_local_target"

/-! ### Helpers -/

/-- The marker that a module's boundaries are named after if no other is asked for. -/
def defaultMarker : String := "BORINGSSL_bcm_text"

/-- The helper that jumps to a symbol outside the module. -/
def redirector (name : String) : String :=
  "bcm_redirector_" ++ name

/-- The helper that returns the address of a symbol in zero-initialised storage. -/
def accessor (name : String) : String :=
  name ++ "_bss_get"

/-- Whether a symbol is one that is written here, so that no helper is needed to reach it. -/
def isSynthesized (marker name : String) : Bool :=
  Text.endsWith "_bss_get" name || Text.startsWith marker name

/-- The routine that loads the address of a symbol from the offset table (AArch64). -/
def gotHelper (name : String) : String :=
  ".Lboringssl_loadgot_" ++ name

/-- The word that holds the distance to the table entry of a symbol (x86-64). -/
def gotSlot (name : String) : String :=
  name ++ "_GOTPCREL_external"

/-- The word that holds the distance to the offset table (x86-64). -/
def gotDelta : String := ".Lboringssl_got_delta"

/-- The word that holds the place of a symbol in the offset table, or its distance to the table
(x86-64). -/
def gotOffsetSlot (name : String) (fromTable : Bool) : String :=
  (if fromTable then ".Lboringssl_gotoff_" else ".Lboringssl_got_") ++ name

end Symbol

end Hermetic

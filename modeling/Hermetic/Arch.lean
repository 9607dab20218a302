/-
The two architectures.

* `Arch.ofName`: the architecture that a name stands for, in any case;
* `Arch.leader`: what begins a comment that ends with its line;
* `Arch.detect`: the architecture that a text is written for, told from the first instruction
  whose mnemonic only one of them has.
-/
import Hermetic.Error
import Hermetic.Symbol.Name

namespace Hermetic

/-- An architecture, and with it the dialect of its assembly. -/
inductive Arch
  /-- The 64-bit x86 architecture, in AT&T syntax. -/
  | x86_64
  /-- The 64-bit ARM architecture. -/
  | aarch64
deriving DecidableEq, Repr, Inhabited

namespace Arch

/-- The name of an architecture. -/
def display : Arch → String
  | x86_64 => "x86_64"
  | aarch64 => "aarch64"

/-- The names that an architecture goes by, in lower case. -/
def names : Arch → List String
  | x86_64 => ["x86_64", "x86-64", "amd64", "x64"]
  | aarch64 => ["aarch64", "arm64"]

/-- The architecture that a name stands for. -/
def ofName (name : String) : Except Unsupported Arch :=
  let lower := name.toLower
  if lower ∈ x86_64.names then .ok x86_64
  else if lower ∈ aarch64.names then .ok aarch64
  else .error (.unknownArch lower)

/-- What begins a comment that ends with its line. -/
def leader : Arch → String
  | x86_64 => "#"
  | aarch64 => "//"

/-- The mnemonics that only one architecture has, of those that most code contains. -/
def telling : Arch → List String
  | x86_64 => ["movq", "call", "callq", "leaq", "pushq", "popq", "retq"]
  | aarch64 => ["str", "bl", "ldr", "st1", "stp", "ldp", "adrp"]

/-- The architecture that a mnemonic tells. -/
def ofMnemonic (word : String) : Option Arch :=
  if word ∈ x86_64.telling then some x86_64
  else if word ∈ aarch64.telling then some aarch64
  else none

/-- A line without the label at its start. -/
def withoutLabel (line : List Char) : List Char :=
  match line.span (· != ':') with
  | (head, ':' :: tail) =>
    if !head.isEmpty && head.all isSymbolChar then Text.trimStart tail else line
  | _ => line

/-- Whether a line, taken by its first characters, is empty, a directive or a comment. -/
def isSilent : List Char → Bool
  | [] => true
  | '.' :: _ => true
  | '#' :: _ => true
  | '/' :: '/' :: _ => true
  | _ => false

/-- The architecture that a line tells. -/
def ofLine (line : List Char) : Option Arch :=
  let code := withoutLabel (Text.trim line)
  if isSilent code then none
  else ofMnemonic (String.ofList (code.takeWhile fun c => !Text.isBlank c))

/-- The architecture that a text tells by its first line that tells one. -/
def detect (text : String) : Option Arch :=
  (Text.lines text.toList).findSome? ofLine

end Arch

end Hermetic

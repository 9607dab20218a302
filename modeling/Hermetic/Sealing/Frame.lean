/-
Code around an instruction (x86-64).

An instruction that loads from the offset table is replaced by the computation of an address,
inside of what its family needs: a saved register, a jump around, a combination afterwards.
Each of these is a frame.

* `Frame`, `Frame.wrap`: lines around the rest, or lines in its place;
* the frames of the families, from `Frame.pushResult` to `Frame.afterwards`;
* `Frame.loadAddress`, `Frame.loadFromGot`, `Frame.loadGotOffset`: what takes the place of the
  instruction;
* `Frame.saveRegister`: a scratch register, saved below the red zone.
-/
import Hermetic.Error
import Hermetic.Line

namespace Hermetic.X86

/-- Lines around an instruction, or lines instead of it. -/
inductive Frame
  | around (before after : List Line)
  | instead (lines : List Line)
deriving DecidableEq, Repr

namespace Frame

/-- The lines of a body inside frames, the outermost first. -/
def wrap : List Frame → List Line → List Line
  | [], body => body
  | instead lines :: _, _ => lines
  | around before after :: frames, body => before ++ wrap frames body ++ after

@[simp] theorem wrap_nil (body : List Line) : wrap [] body = body := rfl

/-- What is wrapped by an inner list is wrapped by an outer one as a whole. -/
theorem wrap_append (outer inner : List Frame) (body : List Line) :
    wrap (outer ++ inner) body = wrap outer (wrap inner body) := by
  induction outer with
  | nil => rfl
  | cons f outer ih => cases f <;> simp [wrap, ih]

/-! ### Operands and registers -/

/-- A memory operand some bytes from where the stack ends. -/
def stack (offset : String) : Line.Operand :=
  .memory (.ofRegister "%rsp" offset)

/-- The stack register. -/
def rsp : Line.Operand := .register "%rsp"

/-- The number of bytes below the end of the stack that a function may use. -/
def redZone : String := "128"

/-- Leaves the bytes below the end of the stack alone. -/
def clearRedZone : Line :=
  .spaced "leaq" [stack ("-" ++ redZone), rsp]

/-- Takes them back. -/
def restoreRedZone : Line :=
  .spaced "leaq" [stack redZone, rsp]

/-- The registers that are tried when one is needed. -/
def scratchRegisters : List String :=
  ["%rax", "%rbx", "%rcx", "%rdx"]

/-- The first scratch register that is not in use. -/
def scratch (inUse : List String) : Except Unsupported String :=
  match scratchRegisters.find? fun r => !inUse.contains r with
  | some r => .ok r
  | none => .error .noScratchRegister

/-! ### Frames around a body -/

/-- Computes into `%rax`, which ends up on the stack. -/
def pushResult : Frame :=
  around [.spaced "pushq" [.register "%rax"]]
    [.spaced "xchg" [.register "%rax", stack ""]]

/-- Jumps around the body under a condition. -/
def skipIf (condition : String) : Frame :=
  around [.spaced ("j" ++ condition) [.ofKind (.localLabel "999f")]] [.label "999"]

/-- Saves a register below the red zone. -/
def saveRegister (r : String) : Frame :=
  around [clearRedZone, .spaced "pushq" [.register r]]
    [.spaced "popq" [.register r], restoreRedZone]

/-- Writes a line after the body. -/
def afterwards (line : Line) : Frame :=
  around [] [line]

/-- Copies a general register into a vector register. -/
def moveTo (target : String) (avx : Bool) (source : String) : Frame :=
  afterwards (.spaced (if avx then "vmovq" else "movq") [.register source, .register target])

/-- Pushes a register, and changes a vector by the word that is on the stack then. -/
def combineVector (mnemonic target temp : String) : Frame :=
  around []
    [.spaced "pushq" [.register temp], .spaced mnemonic [stack "", .register target],
      .spaced "leaq" [stack "8", rsp]]

/-! ### Frames instead of a body -/

/-- Computes the address of a symbol of the module. -/
def loadAddress (symbol register : String) : Frame :=
  instead [.tabbed "leaq" [.memory (.ripRelative symbol), .register register]]

/-- Loads the address of a symbol outside the module. -/
def loadFromGot (symbol register : String) (redZoneCleared : Bool) : Frame :=
  let r := Line.Operand.register register
  let pointed := Line.Operand.memory (.ofRegister register)
  let body : List Line :=
    [.spaced "pushf" [],
      .spaced "leaq" [.memory (.ripRelative (Symbol.gotSlot symbol)), r],
      .spaced "addq" [pointed, r],
      .spaced "movq" [pointed, r],
      .spaced "popf" []]
  instead (if redZoneCleared then body else clearRedZone :: body ++ [restoreRedZone])

/-- Loads the word that holds an offset. -/
def loadGotOffset (slot : String) (target : Line.Operand) : Frame :=
  instead [.spaced "movq" [.memory (.ripRelative slot), target]]

end Frame

end Hermetic.X86

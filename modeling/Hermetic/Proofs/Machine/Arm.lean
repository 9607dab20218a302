/-
A machine that runs lines of AArch64.

The machine has thirty-one general registers, a stack register, flags and a memory, and runs the
line that is placed where its program counter points.  It runs the lines that are written for a
load from the offset table and the helper that they call.  What it does not understand, it does
not run.

* `Register`, `Machine`: the state of the machine;
* `Machine.spill`, `Machine.returned`, `afterLoad`: what a load from the offset table leaves;
* `Layout`: where symbols lie and which instruction stands where, which the linker settles;
* `Layout.exec?`: one instruction;
* `Layout.Holds`: lines that are placed one after the other;
* `Layout.run`: some steps of the machine, with `Layout.run_succ`.
-/
import Hermetic.Boundary
import Hermetic.Proofs.Machine.X86
import Hermetic.Sealing.Arm

namespace Hermetic.Arm

open X86 (displacement? operandIn)

/-! ### Registers -/

/-- The registers of 64 bits that operands name: those with a number, the stack register, and the
one that is always zero. -/
inductive Register
  | x (n : Fin 31)
  | sp
  | zero
deriving DecidableEq, Repr

namespace Register

/-- The register that holds the address to return to. -/
def link : Register := x 30

/-- The names of a register. -/
def names : Register → List String
  | x n => ("x" ++ toString n.val) ::
      if n = 29 then ["fp"] else if n = 30 then ["lr"] else []
  | sp => ["sp"]
  | zero => ["xzr"]

/-- All registers. -/
def all : List Register :=
  (List.finRange 31).map x ++ [sp, zero]

/-- The register that a name stands for, in any case. -/
def ofName? (name : String) : Option Register :=
  all.find? fun r => r.names.contains (String.ofList (name.toList.map Char.toLower))

@[simp] lemma ofName?_x0 : ofName? "x0" = some (x 0) := by decide +kernel

@[simp] lemma ofName?_lr : ofName? "lr" = some link := by decide +kernel

@[simp] lemma ofName?_sp : ofName? "sp" = some sp := by decide +kernel

@[simp] lemma ofName?_xzr : ofName? "xzr" = some zero := by decide +kernel

end Register

/-! ### States -/

/-- A state of the machine. -/
structure Machine where
  pc : Word
  registers : Fin 31 → Word
  sp : Word
  flags : BitVec 4
  memory : Memory

namespace Machine

/-- The word in a register. -/
def get (s : Machine) : Register → Word
  | .x n => s.registers n
  | .sp => s.sp
  | .zero => 0

/-- The state with a register set. -/
def set (s : Machine) (r : Register) (w : Word) : Machine :=
  match r with
  | .x n => { s with registers := Function.update s.registers n w }
  | .sp => { s with sp := w }
  | .zero => s

/-- The state before the next instruction. -/
def next (s : Machine) : Machine :=
  { s with pc := s.pc.plus 4 }

/-- The memory after two registers are pushed below the red zone. -/
def spill (s : Machine) : Memory :=
  (s.memory.store (s.sp - 144) (s.registers 0)).store (s.sp - 136) (s.registers 30)

/-- The state after the helper of a load that starts in a state has returned a word. -/
def returned (s : Machine) (w : Word) : Machine :=
  { s with
    pc := s.pc.plus 12
    registers := Function.update (Function.update s.registers 30 (s.pc.plus 12)) 0 w
    sp := s.sp - 144
    memory := s.spill }

end Machine

/-- The registers after a load of a word into the register `n`, which operands call `name`. -/
def afterLoad (name : String) (n : Fin 31) (w : Word) (registers : Fin 31 → Word) :
    Fin 31 → Word :=
  if name = "x0" then Function.update registers 0 w
  else Function.update
    (Function.update (Function.update registers n w) 0 (registers 0)) 30 (registers 30)

/-! ### Instructions -/

/-- What the linker and the assembler settle: the address of every symbol and of its entry in
the offset table, and the instruction at every address. -/
structure Layout where
  address : String → Word
  entry : String → Word
  code : Word → Option Line

/-- The part of an address within its page of 4096 bytes. -/
def low (a : Word) : Word :=
  BitVec.ofNat 64 (a.toNat % 4096)

/-- The address of the page that an address lies in. -/
def page (a : Word) : Word :=
  a - low a

@[simp] lemma page_add_low (a : Word) : page a + low a = a :=
  BitVec.sub_add_cancel a (low a)

/-- The register that an operand names. -/
def register? (o : Operand) : Option Register :=
  o.register?.bind Register.ofName?

/-- The number that an operand is. -/
def constant? (o : Operand) : Option Word :=
  match o.kind with
  | .immediate _ value => displacement? value.display.toList
  | _ => none

namespace Layout

variable (l : Layout)

/-- An instruction with two operands, the first of which is the target. -/
def execTwo? (s : Machine) (mnemonic : String) (target source : Operand) : Option Machine := do
  let r ← register? target
  if mnemonic = "mov" then
    let q ← register? source
    return s.set r (s.get q)
  else
    match source.kind with
    | .relocation ⟨false, "got", symbol, ""⟩ =>
      if mnemonic = "adrp" then return s.set r (page (l.entry symbol)) else none
    | .indexed ⟨base, some (.relocation ⟨false, "got_lo12", symbol, ""⟩), false⟩ =>
      if mnemonic = "ldr" then
        let q ← Register.ofName? base
        return s.set r (s.memory.word (s.get q + low (l.entry symbol)))
      else none
    | _ => none

/-- An instruction that computes from a register and a number. -/
def execSum? (s : Machine) (mnemonic : String) (target source number : Operand) :
    Option Machine := do
  let r ← register? target
  let q ← register? source
  let d ← constant? number
  if mnemonic = "add" then return s.set r (s.get q + d)
  else if mnemonic = "sub" then return s.set r (s.get q - d)
  else none

/-- Two registers are written some bytes from where a third points, which points there then. -/
def execStore? (s : Machine) (first second place : Operand) : Option Machine :=
  match place.kind with
  | .indexed ⟨base, some (.text text), true⟩ => do
    let r ← Register.ofName? base
    let d ← (Text.after? ['#'] text.toList).bind displacement?
    let a := s.get r + d
    let memory := (s.memory.store a (s.get (← register? first))).store (a.plus 8)
      (s.get (← register? second))
    return { s.set r a with memory }
  | _ => none

/-- Two registers are read from where a third points, which points some bytes on then. -/
def execLoad? (s : Machine) (first second place number : Operand) : Option Machine :=
  match place.kind with
  | .indexed ⟨base, none, false⟩ => do
    let r ← Register.ofName? base
    let a := s.get r
    let t := (s.set (← register? first) (s.memory.word a)).set (← register? second)
      (s.memory.word (a.plus 8))
    return t.set r (a + (← constant? number))
  | _ => none

/-- A call: the address after it is kept, and the program goes on at a symbol. -/
def call? (s : Machine) (target : Operand) : Option Machine :=
  match target.kind with
  | .memory m => m.symbol.map fun name =>
      { s.set .link (s.pc.plus 4) with pc := l.address name }
  | _ => none

/-- One instruction. -/
def exec? (s : Machine) (mnemonic : String) : List Operand → Option Machine
  | [] => if mnemonic = "ret" then some { s with pc := s.get .link } else none
  | [a] => if mnemonic = "bl" then l.call? s a else none
  | [a, b] => (l.execTwo? s mnemonic a b).map Machine.next
  | [a, b, c] =>
    (if mnemonic = "stp" then execStore? s a b c else execSum? s mnemonic a b c).map Machine.next
  | [a, b, c, d] =>
    if mnemonic = "ldp" then (execLoad? s a b c d).map Machine.next else none
  | _ => none

/-- One line: an instruction, or the mark of a place that may be branched to. -/
def execLine? (s : Machine) : Line → Option Machine
  | .instruction [] mnemonic _ operands => l.exec? s mnemonic (operands.map operandIn)
  | .landingPad => some s.next
  | _ => none

/-! ### Runs -/

/-- The directives that take no room. -/
def roomless : List String :=
  [".p2align", ".hidden", ".type", ".size", ".cfi_startproc", ".cfi_endproc"]

/-- Lines that are placed one after the other, from an address on. -/
def Holds : Word → List Line → Prop
  | _, [] => True
  | a, .label name :: lines => l.address name = a ∧ Holds a lines
  | a, .directive _ name _ _ :: lines => name ∈ roomless ∧ Holds a lines
  | a, line :: lines => l.code a = some line ∧ Holds (a.plus 4) lines

instance decidableHolds : (a : Word) → (lines : List Line) → Decidable (l.Holds a lines)
  | _, [] => .isTrue trivial
  | a, .label name :: lines =>
    have := decidableHolds a lines
    inferInstanceAs (Decidable (l.address name = a ∧ l.Holds a lines))
  | a, .directive _ name _ _ :: lines =>
    have := decidableHolds a lines
    inferInstanceAs (Decidable (name ∈ roomless ∧ l.Holds a lines))
  | a, .instruction modifiers mnemonic gap operands :: lines =>
    have := decidableHolds (a.plus 4) lines
    inferInstanceAs (Decidable
      (l.code a = some (.instruction modifiers mnemonic gap operands) ∧ l.Holds (a.plus 4) lines))
  | a, .landingPad :: lines =>
    have := decidableHolds (a.plus 4) lines
    inferInstanceAs (Decidable (l.code a = some .landingPad ∧ l.Holds (a.plus 4) lines))

/-- The instructions of lines that are placed one after the other, with their addresses. -/
def placed : Word → List Line → List (Word × Line)
  | _, [] => []
  | a, .label _ :: lines | a, .directive .. :: lines => placed a lines
  | a, line :: lines => (a, line) :: placed (a.plus 4) lines

/-- One step of the machine. -/
def step (s : Machine) : Option Machine :=
  (l.code s.pc).bind (l.execLine? s)

/-- Some steps of the machine. -/
def run : ℕ → Machine → Option Machine
  | 0, s => some s
  | n + 1, s => (l.step s).bind (run n)

variable {l : Layout}

lemma Holds.of_append_left {a : Word} {lines more : List Line}
    (h : l.Holds a (lines ++ more)) : l.Holds a lines := by
  induction lines generalizing a with
  | nil => trivial
  | cons line lines ih => cases line <;> exact ⟨h.1, ih h.2⟩

lemma Holds.of_append_right {a : Word} {lines more : List Line}
    (h : l.Holds a (lines ++ more)) : ∃ b, l.Holds b more := by
  induction lines generalizing a with
  | nil => exact ⟨a, h⟩
  | cons line lines ih => cases line <;> exact ih h.2

/-- Lines among lines that are placed one after the other are placed so. -/
lemma Holds.of_infix {a : Word} {lines more : List Line} (h : l.Holds a more)
    (hpart : lines <:+: more) : ∃ b, l.Holds b lines := by
  obtain ⟨before, after, rfl⟩ := hpart
  obtain ⟨b, hb⟩ := h.of_append_left.of_append_right
  exact ⟨b, hb⟩

lemma run_succ {s t : Machine} {line : Line} (hcode : l.code s.pc = some line)
    (hline : l.execLine? s line = some t) (n : ℕ) : l.run (n + 1) s = l.run n t := by
  rw [run, step, hcode, Option.bind_some, hline, Option.bind_some]

lemma run_add {s t : Machine} {m : ℕ} (h : l.run m s = some t) (n : ℕ) :
    l.run (m + n) s = l.run n t := by
  induction m generalizing s with
  | zero =>
      cases h
      rw [Nat.zero_add]
  | succ m ih =>
      rw [run] at h
      obtain ⟨u, hu, h⟩ := Option.bind_eq_some_iff.mp h
      rw [Nat.succ_add, run, hu, Option.bind_some]
      exact ih h

end Layout

end Hermetic.Arm

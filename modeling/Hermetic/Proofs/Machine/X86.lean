/-
A machine that runs lines of x86-64.

The machine has sixteen general registers, a word of flags and a memory.  It runs the lines that
are written around and instead of loads from the offset table, and the instructions that are
replaced by them.  What it does not understand, it does not run.

* `Register`, `Condition`, `Machine`: the state of the machine and the tests on its flags;
* `Layout`: where symbols lie, which the linker settles;
* `Layout.place?`, `Layout.value?`: what operands denote.  A reference to the table entry of a
  symbol has the symbol's address as its value;
* `Layout.exec?`: one instruction, apart from jumps;
* `Layout.run`: lines one after the other, where a jump goes to the next label of its name;
  `Layout.run_append` puts runs together.
-/
import Hermetic.Line
import Hermetic.Proofs.Machine.Memory
import Mathlib.Logic.Function.Basic

namespace Hermetic.X86

/-! ### Registers -/

/-- The general registers. -/
inductive Register
  | rax | rbx | rcx | rdx | rsi | rdi | rbp | rsp
  | r8 | r9 | r10 | r11 | r12 | r13 | r14 | r15
deriving DecidableEq, Repr

namespace Register

/-- The name of a register as an operand of 64 bits. -/
def name : Register → String
  | rax => "%rax" | rbx => "%rbx" | rcx => "%rcx" | rdx => "%rdx"
  | rsi => "%rsi" | rdi => "%rdi" | rbp => "%rbp" | rsp => "%rsp"
  | r8 => "%r8" | r9 => "%r9" | r10 => "%r10" | r11 => "%r11"
  | r12 => "%r12" | r13 => "%r13" | r14 => "%r14" | r15 => "%r15"

/-- All general registers. -/
def all : List Register :=
  [rax, rbx, rcx, rdx, rsi, rdi, rbp, rsp, r8, r9, r10, r11, r12, r13, r14, r15]

/-- The register that a name stands for. -/
def ofName? (name : String) : Option Register :=
  all.find? fun r => r.name = name

@[simp] lemma ofName?_name (r : Register) : ofName? r.name = some r := by
  cases r <;> decide

lemma name_injective : Function.Injective name := by
  intro r q h
  simpa using congrArg ofName? h

@[simp] lemma name_inj {r q : Register} : r.name = q.name ↔ r = q :=
  name_injective.eq_iff

end Register

/-! ### Flags -/

/-- The flags that tell about a result, by their place in the word of flags. -/
def carryFlag : ℕ := 0
/-- Whether the least byte of a result has an even number of ones. -/
def parityFlag : ℕ := 2
/-- Whether four bits carried. -/
def adjustFlag : ℕ := 4
/-- Whether a result is zero. -/
def zeroFlag : ℕ := 6
/-- Whether a result is negative. -/
def signFlag : ℕ := 7
/-- Whether a result is out of the signed range. -/
def overflowFlag : ℕ := 11

/-- A word with one bit, which may be set. -/
def bit (n : ℕ) (b : Bool) : Word :=
  (BitVec.ofBool b).setWidth 64 <<< n

/-- Whether the least byte of a word has an even number of ones. -/
def parity (w : Word) : Bool :=
  ((List.range 8).countP fun i => w.getLsbD i) % 2 == 0

/-- The flags after a result. -/
def status (old result : Word) (carry adjust overflow : Bool) : Word :=
  (old &&& ~~~(0x8D5 : Word)) ||| bit carryFlag carry ||| bit parityFlag (parity result) |||
    bit adjustFlag adjust ||| bit zeroFlag (result == 0) ||| bit signFlag result.msb |||
    bit overflowFlag overflow

/-- The flags after a sum. -/
def flagsOfAdd (old x y : Word) : Word :=
  status old (x + y) (BitVec.uaddOverflow x y) (15 < x.toNat % 16 + y.toNat % 16)
    (BitVec.saddOverflow x y)

/-- The flags after a difference. -/
def flagsOfSub (old x y : Word) : Word :=
  status old (x - y) (BitVec.usubOverflow x y) (x.toNat % 16 < y.toNat % 16)
    (BitVec.ssubOverflow x y)

/-- The flags after an operation on single bits. -/
def flagsOfLogic (old result : Word) : Word :=
  status old result false false false

/-! ### Conditions -/

/-- The tests on flags that conditions are made of. -/
inductive Test
  | overflow | carry | zero | carryOrZero | sign | parity | less | lessOrEqual
deriving DecidableEq, Repr

/-- Whether flags pass a test. -/
def Test.holds (flags : Word) : Test → Bool
  | overflow => flags.getLsbD overflowFlag
  | carry => flags.getLsbD carryFlag
  | zero => flags.getLsbD zeroFlag
  | carryOrZero => flags.getLsbD carryFlag || flags.getLsbD zeroFlag
  | sign => flags.getLsbD signFlag
  | parity => flags.getLsbD parityFlag
  | less => flags.getLsbD signFlag != flags.getLsbD overflowFlag
  | lessOrEqual =>
      flags.getLsbD zeroFlag || (flags.getLsbD signFlag != flags.getLsbD overflowFlag)

/-- A condition: a test that is passed, or one that is not. -/
structure Condition where
  test : Test
  passed : Bool
deriving DecidableEq, Repr

namespace Condition

/-- Whether flags satisfy a condition. -/
def holds (c : Condition) (flags : Word) : Bool :=
  c.test.holds flags == c.passed

/-- The condition that holds if another does not. -/
def opposite (c : Condition) : Condition :=
  { c with passed := !c.passed }

lemma holds_opposite (c : Condition) (flags : Word) :
    c.opposite.holds flags = !c.holds flags := by
  unfold holds opposite
  cases c.test.holds flags <;> cases c.passed <;> rfl

/-- The names of conditions. -/
def names : List (List String × Condition) :=
  [(["o"], ⟨.overflow, true⟩), (["no"], ⟨.overflow, false⟩),
    (["b", "c", "nae"], ⟨.carry, true⟩), (["ae", "nb", "nc"], ⟨.carry, false⟩),
    (["e", "z"], ⟨.zero, true⟩), (["ne", "nz"], ⟨.zero, false⟩),
    (["be", "na"], ⟨.carryOrZero, true⟩), (["a", "nbe"], ⟨.carryOrZero, false⟩),
    (["s"], ⟨.sign, true⟩), (["ns"], ⟨.sign, false⟩),
    (["p", "pe"], ⟨.parity, true⟩), (["np", "po"], ⟨.parity, false⟩),
    (["l", "nge"], ⟨.less, true⟩), (["ge", "nl"], ⟨.less, false⟩),
    (["le", "ng"], ⟨.lessOrEqual, true⟩), (["g", "nle"], ⟨.lessOrEqual, false⟩)]

/-- The condition that a name stands for. -/
def ofName? (name : String) : Option Condition :=
  (names.find? fun p => p.1.contains name).map Prod.snd

/-- The condition of a conditional move of 64 bits. -/
def ofMove? (mnemonic : String) : Option Condition :=
  ((Text.after? "cmov".toList mnemonic.toList).bind (Text.before? ['q'])).bind
    fun name => ofName? (String.ofList name)

/-- The condition of a conditional jump. -/
def ofJump? (mnemonic : String) : Option Condition :=
  (Text.after? ['j'] mnemonic.toList).bind fun name => ofName? (String.ofList name)

end Condition

/-! ### States -/

/-- A state of the machine. -/
structure Machine where
  registers : Register → Word
  flags : Word
  memory : Memory

namespace Machine

/-- The state with a register set. -/
def set (s : Machine) (r : Register) (w : Word) : Machine :=
  { s with registers := Function.update s.registers r w }

/-- The state with a word pushed on the stack. -/
def push (s : Machine) (w : Word) : Machine :=
  let top := s.registers .rsp - 8
  { s.set .rsp top with memory := s.memory.store top w }

/-- The word on top of the stack. -/
def top (s : Machine) : Word :=
  s.memory.word (s.registers .rsp)

/-- The state without the word on top of the stack. -/
def pop (s : Machine) : Machine :=
  s.set .rsp (s.registers .rsp + 8)

end Machine

/-! ### Operands -/

/-- What the linker and the assembler settle: the address of every symbol and of its entry in
the offset table, and the value of expressions without symbols. -/
structure Layout where
  address : String → Word
  entry : String → Word
  constant : String → Word

/-- The number that a text of decimal digits stands for. -/
def decimal? (l : List Char) : Option ℕ :=
  if l.isEmpty || !l.all Char.isDigit then none
  else some (l.foldl (fun n c => n * 10 + (c.toNat - '0'.toNat)) 0)

/-- The word that an offset stands for: nothing, or a number that may have a sign. -/
def displacement? : List Char → Option Word
  | [] => some 0
  | '-' :: l => (decimal? l).map fun n => 0 - BitVec.ofNat 64 n
  | '+' :: l | l => (decimal? l).map (BitVec.ofNat 64)

/-- Where a word may be: in a register or in memory. -/
inductive Place
  | register (register : Register)
  | cell (address : Word)
deriving DecidableEq, Repr

namespace Machine

/-- The word in a place. -/
def load (s : Machine) : Place → Word
  | .register r => s.registers r
  | .cell a => s.memory.word a

/-- The state with a word put in a place. -/
def save (s : Machine) (w : Word) : Place → Machine
  | .register r => s.set r w
  | .cell a => { s with memory := s.memory.store a w }

end Machine

namespace Layout

variable (l : Layout)

/-- The address that a memory reference without a relocation tag denotes: that of a symbol, or
one some bytes from where a register points. -/
def effective? (s : Machine) (m : MemoryRef) : Option Word :=
  if m.segment.isSome || m.lead.isSome || m.tag.isSome then none
  else
    match displacement? m.offset.toList, m.base with
    | some d, some b =>
      if b.isRipRelative then m.symbol.map fun name => l.address name + d
      else if b.index.isSome || b.scale.isSome || m.symbol.isSome then none
      else (b.base.bind Register.ofName?).map fun r => s.registers r + d
    | _, _ => none

/-- Whether a memory reference is one to the entry of its symbol in the offset table. -/
def isEntry (m : MemoryRef) : Bool :=
  m.tag == some "GOTPCREL" && m.isRipRelative && !m.hasOffset && m.segment.isNone

/-- The place that an operand denotes. -/
def place? (s : Machine) (o : Operand) : Option Place :=
  if o.indirect || !o.decorators.isEmpty then none
  else
    match o.kind with
    | .register name => (Register.ofName? name).map .register
    | .memory m => (l.effective? s m).map .cell
    | _ => none

/-- The word that an operand denotes.  The entry of a symbol in the offset table is read as the
address of the symbol. -/
def value? (s : Machine) (o : Operand) : Option Word :=
  if o.indirect || !o.decorators.isEmpty then none
  else
    match o.kind with
    | .immediate (some '$') e => if e.symbols.isEmpty then some (l.constant e.display) else none
    | .memory m => if isEntry m then m.symbol.map l.address else (l.place? s o).map s.load
    | _ => (l.place? s o).map s.load

/-! ### Instructions -/

/-- The instructions that copy a word. -/
def moves : List String := ["mov", "movq", "vmovq", "movsd", "vmovsd"]

/-- What an operation on the bits of two words computes. -/
def logic? : String → Option (Word → Word → Word)
  | "orq" => some fun x y => x ||| y
  | "andq" => some fun x y => x &&& y
  | "xorq" => some fun x y => x ^^^ y
  | _ => none

/-- What a shift of a word by a number computes. -/
def shift? : String → Option (Word → Word → Word)
  | "sarxq" => some fun w n => w.sshiftRight (n.toNat % 64)
  | "shlxq" => some fun w n => w <<< (n.toNat % 64)
  | "shrxq" => some fun w n => w >>> (n.toNat % 64)
  | _ => none

/-- An instruction without operands. -/
def execNone? (s : Machine) (mnemonic : String) : Option Machine :=
  if mnemonic = "pushf" then some (s.push s.flags)
  else if mnemonic = "popf" then some { s.pop with flags := s.top }
  else none

/-- An instruction with one operand. -/
def execOne? (s : Machine) (mnemonic : String) (a : Operand) : Option Machine :=
  if mnemonic ∈ ["push", "pushq"] then (l.value? s a).map s.push
  else if mnemonic = "popq" then (l.place? s.pop a).map (s.pop.save s.top)
  else none

/-- An instruction that computes from two operands and changes the flags. -/
def execArithmetic? (s : Machine) (mnemonic : String) (x y : Word) (target : Operand) :
    Option Machine :=
  if mnemonic = "cmpq" then some { s with flags := flagsOfSub s.flags y x }
  else if mnemonic = "addq" then
    (l.place? s target).map fun p =>
      { s.save (y + x) p with flags := flagsOfAdd s.flags y x }
  else
    match logic? mnemonic with
    | some f =>
      (l.place? s target).map fun p =>
        { s.save (f y x) p with flags := flagsOfLogic s.flags (f y x) }
    | none => none

/-- An instruction with two operands, the second of which is the target. -/
def execTwo? (s : Machine) (mnemonic : String) (a b : Operand) : Option Machine :=
  if mnemonic ∈ moves then do
    return s.save (← l.value? s a) (← l.place? s b)
  else if mnemonic = "leaq" then
    match a.kind with
    | .memory m => do return s.save (← l.effective? s m) (← l.place? s b)
    | _ => none
  else if mnemonic = "xchg" then do
    let p ← l.place? s a
    let q ← l.place? s b
    return (s.save (s.load q) p).save (s.load p) q
  else
    match Condition.ofMove? mnemonic with
    | some c => do
      let x ← l.value? s a
      let p ← l.place? s b
      return if c.holds s.flags then s.save x p else s
    | none => do l.execArithmetic? s mnemonic (← l.value? s a) (← l.value? s b) b

/-- An instruction with three operands: a number, a word and the target. -/
def execThree? (s : Machine) (mnemonic : String) (a b c : Operand) : Option Machine := do
  let f ← shift? mnemonic
  return s.save (f (← l.value? s b) (← l.value? s a)) (← l.place? s c)

/-- An instruction that is no jump. -/
def exec? (s : Machine) (mnemonic : String) : List Operand → Option Machine
  | [] => execNone? s mnemonic
  | [a] => l.execOne? s mnemonic a
  | [a, b] => l.execTwo? s mnemonic a b
  | [a, b, c] => l.execThree? s mnemonic a b c
  | _ => none

end Layout

/-! ### Lines -/

/-- The condition of a jump, and the name of the label that it goes to, which comes later. -/
def jump? (mnemonic : String) : List Operand → Option (Condition × String)
  | [o] =>
    match o.kind with
    | .localLabel text => do
      let c ← Condition.ofJump? mnemonic
      let label ← Text.before? ['f'] text.toList
      return (c, String.ofList label)
    | _ => none
  | _ => none

/-- The operand that stands in a line. -/
def operandIn : Line.Operand → Operand
  | .copied o | .built o => o

namespace Layout

variable (l : Layout)

/-- The state after some lines.  If a label is sought, what stands before it is passed over. -/
def runFrom : Option String → Machine → List Line → Option Machine
  | none, s, [] => some s
  | some _, _, [] => none
  | sought, s, .label name :: lines =>
    runFrom (if sought = some name then none else sought) s lines
  | some label, s, _ :: lines => runFrom (some label) s lines
  | none, s, .instruction [] mnemonic _ operands :: lines =>
    match jump? mnemonic (operands.map operandIn) with
    | some (c, label) => runFrom (if c.holds s.flags then some label else none) s lines
    | none => (l.exec? s mnemonic (operands.map operandIn)).bind (runFrom none · lines)
  | none, _, _ :: _ => none

/-- The state after some lines. -/
def run (s : Machine) (lines : List Line) : Option Machine :=
  l.runFrom none s lines

variable {l : Layout}

@[simp] lemma run_nil (s : Machine) : l.run s [] = some s := rfl

/-- What runs by itself runs in front of other lines. -/
lemma runFrom_append {sought : Option String} {s t : Machine} {lines : List Line}
    (h : l.runFrom sought s lines = some t) (more : List Line) :
    l.runFrom sought s (lines ++ more) = l.run t more := by
  -- while a label is sought, what is no label is passed
  induction lines generalizing sought s with
  | nil =>
      cases sought with
      | none => cases h; rfl
      | some label => cases h
  | cons line lines ih =>
      cases line with
      | label name =>
          rw [runFrom] at h
          rw [List.cons_append, runFrom]
          exact ih h
      | directive indented name gap arguments =>
          cases sought with
          | none => cases h
          | some label => exact ih h
      | landingPad =>
          cases sought with
          | none => cases h
          | some label => exact ih h
      | instruction modifiers mnemonic gap operands =>
          cases sought with
          | some label => exact ih h
          | none =>
              cases modifiers with
              | cons m ms => cases h
              | nil =>
                  rw [runFrom] at h
                  rw [List.cons_append, runFrom]
                  split at h
                  · exact ih h
                  · obtain ⟨u, hu, h⟩ := Option.bind_eq_some_iff.mp h
                    rw [hu]
                    exact ih h

lemma run_append {s t : Machine} {lines : List Line} (h : l.run s lines = some t)
    (more : List Line) : l.run s (lines ++ more) = l.run t more :=
  runFrom_append h more

/-- Lines that are no labels are passed over. -/
lemma runFrom_passed {label : String} {lines : List Line} (h : Line.labels lines = [])
    (s : Machine) (more : List Line) :
    l.runFrom (some label) s (lines ++ .label label :: more) = l.run s more := by
  induction lines with
  | nil => simp [runFrom, run]
  | cons line lines ih =>
      cases line with
      | label name => simp [Line.labels] at h
      | directive => exact ih h
      | instruction => exact ih h
      | landingPad => exact ih h

/-- An instruction that is no jump is run before what follows it. -/
lemma run_instruction {s t : Machine} {mnemonic : String} {operands : List Line.Operand}
    (gap : String) (hj : jump? mnemonic (operands.map operandIn) = none)
    (he : l.exec? s mnemonic (operands.map operandIn) = some t) (lines : List Line) :
    l.run s (.instruction [] mnemonic gap operands :: lines) = l.run t lines := by
  rw [run, runFrom, hj, he]
  rfl

/-! ### Operands that are written -/

@[simp] lemma operandIn_ofKind (kind : Operand.Kind) :
    operandIn (Line.Operand.ofKind kind) = .ofKind kind := rfl

@[simp] lemma place?_register (s : Machine) (r : Register) :
    l.place? s (.ofKind (.register r.name)) = some (.register r) := by
  simp [place?, Operand.ofKind]

@[simp] lemma value?_register (s : Machine) (r : Register) :
    l.value? s (.ofKind (.register r.name)) = some (s.registers r) := by
  simp [value?, place?, Operand.ofKind, Machine.load]

@[simp] lemma effective?_ripRelative (s : Machine) (name : String) :
    l.effective? s (.ripRelative name) = some (l.address name) := by
  simp [effective?, MemoryRef.ripRelative, displacement?]

lemma effective?_ofRegister (s : Machine) (r : Register) {offset : String} {d : Word}
    (hd : displacement? offset.toList = some d) :
    l.effective? s (.ofRegister r.name offset) = some (s.registers r + d) := by
  have hr : (BaseIndex.ofRegister r.name).isRipRelative = false := by
    cases r <;> decide
  simp only [effective?, MemoryRef.ofRegister, hd, hr]
  simp [BaseIndex.ofRegister]

end Layout

end Hermetic.X86

/-
Loads of addresses into vector registers, on a machine that has them.

An address is computed into a general register that is saved below the red zone, and brought to
the vector from there.

* `VectorRegister`: the vector registers and their names;
* `VectorUnit`, `VectorMachine`, `Layout.runVector`: a machine with vectors, where it is left open
  what an instruction makes of the vector that it writes;
* `run_addressOf_unlinked`, `Machine.restored_saved`: an address, or anything else, is loaded into
  a register that is saved and taken back;
* `runVector_copyLines`, `runVector_spread`, `runVector_combineLines`: what the lines do for each
  family of instructions;
* `transfer?`: the vector register between which and a general one a line copies a word;
* `vectorLoaded?`: the vector register that an instruction loads an address into;
* `sealInstruction_vector`: the lines of a load change nothing but the vector and the memory below
  the red zone, and copy a word to no other vector register;
* `exists_transfer_wide`: they name the vector register at its full width.
-/
import Hermetic.Proofs.Machine.Flags

namespace Hermetic.X86

/-! ### Vector registers -/

/-- The widths at which a vector register may be named. -/
inductive VectorWidth
  | xmm | ymm | zmm
deriving DecidableEq, Repr

/-- The name of a width. -/
def VectorWidth.name : VectorWidth → String
  | xmm => "xmm"
  | ymm => "ymm"
  | zmm => "zmm"

lemma VectorWidth.name_injective : Function.Injective name := by
  intro w u h
  cases w <;> cases u <;> simp_all [name]

/-- A vector register at some width. -/
structure VectorRegister where
  width : VectorWidth
  number : Fin 32
deriving DecidableEq, Repr

namespace VectorRegister

/-- The name of a vector register as an operand. -/
def name (v : VectorRegister) : String :=
  "%" ++ v.width.name ++ toString v.number.val

/-- All vector registers. -/
def all : List VectorRegister :=
  [.xmm, .ymm, .zmm].flatMap fun width => (List.finRange 32).map fun number => ⟨width, number⟩

/-- The vector register that a name stands for. -/
def ofName? (name : String) : Option VectorRegister :=
  all.find? fun v => v.name = name

lemma mem_all (v : VectorRegister) : v ∈ all := by
  obtain ⟨width, number⟩ := v
  refine List.mem_flatMap.mpr ⟨width, ?_, List.mem_map_of_mem (List.mem_finRange number)⟩
  cases width <;> decide

lemma name_injective : Function.Injective name := by
  intro v u h
  rw [VectorRegister.mk.injEq]
  have hlist := congrArg String.toList h
  simp only [name, String.toList_append, List.append_assoc, List.append_cancel_left_eq] at hlist
  -- the names of all widths are equally long
  have hlength (width : VectorWidth) : width.name.toList.length = 3 := by
    cases width <;> rfl
  have hnumbers : ∀ m n : Fin 32, toString m.val = toString n.val → m = n := by decide +kernel
  obtain ⟨hwidth, hnumber⟩ := List.append_inj hlist ((hlength _).trans (hlength _).symm)
  exact ⟨VectorWidth.name_injective (String.toList_inj.mp hwidth),
    hnumbers _ _ (String.toList_inj.mp hnumber)⟩

@[simp] lemma ofName?_name (v : VectorRegister) : ofName? v.name = some v := by
  cases hfound : ofName? v.name with
  | none => exact absurd (decide_eq_true rfl) (List.find?_eq_none.mp hfound v (mem_all v))
  | some u =>
      have hname : u.name = v.name := by simpa using List.find?_some hfound
      rw [name_injective hname]

/-- No address is computed into a vector register. -/
lemma holdsAddress_name (v : VectorRegister) : holdsAddress v.name = false := by
  have hall : ∀ v ∈ all, holdsAddress v.name = false := by decide +kernel
  exact hall v (mem_all v)

/-- The name of a general register is not that of a vector register. -/
@[simp] lemma ofName?_general (r : Register) : ofName? r.name = none := by
  cases r <;> decide +kernel

@[simp] lemma general_ofName? (v : VectorRegister) : Register.ofName? v.name = none := by
  have hall : ∀ v ∈ all, Register.ofName? v.name = none := by decide +kernel
  exact hall v (mem_all v)

end VectorRegister

/-! ### A machine with vectors -/

/-- A state of a machine with vectors, each of which has its number at all widths. -/
structure VectorMachine where
  machine : Machine
  vectors : Fin 32 → BitVec 512

/-- What instructions make of the vector that they write: from a word, or from another vector, and
from what it held before. -/
structure VectorUnit where
  fill : String → VectorRegister → Word → BitVec 512 → BitVec 512
  spread : String → VectorRegister → BitVec 512 → BitVec 512 → BitVec 512

/-- The instructions that write a vector from a word. -/
def fills : List String :=
  ["movq", "vmovq", "movlps", "movhps", "movlpd", "movhpd"]

/-- The vector register that an operand is. -/
def vector? (o : Operand) : Option VectorRegister :=
  if o.indirect || !o.decorators.isEmpty then none else o.register?.bind VectorRegister.ofName?

/-- The mnemonic, the source and the target of a line that writes a vector. -/
def writesVector? : Line → Option (String × Operand × VectorRegister)
  | .instruction [] mnemonic _ [a, b] =>
    (vector? (operandIn b)).map fun v => (mnemonic, operandIn a, v)
  | _ => none

namespace VectorMachine

/-- The state with a vector changed. -/
def write (s : VectorMachine) (v : VectorRegister) (x : BitVec 512) : VectorMachine :=
  { s with vectors := Function.update s.vectors v.number x }

lemma vectors_write (s : VectorMachine) {v : VectorRegister} {n : Fin 32} (hn : n ≠ v.number)
    (x : BitVec 512) : (s.write v x).vectors n = s.vectors n := by
  simp [write, hn]

end VectorMachine

namespace Layout

variable (l : Layout) (unit : VectorUnit)

/-- One line that writes a vector. -/
def execVector? (s : VectorMachine) (mnemonic : String) (a : Operand) (v : VectorRegister) :
    Option VectorMachine :=
  let old := s.vectors v.number
  if mnemonic ∈ fills then
    (l.value? s.machine a).map fun w => s.write v (unit.fill mnemonic v w old)
  else if mnemonic = "vpbroadcastq" then
    (vector? a).map fun u => s.write v (unit.spread mnemonic v (s.vectors u.number) old)
  else none

/-- One line: one that writes a vector, or one that does not touch them. -/
def stepVector? (s : VectorMachine) (line : Line) : Option VectorMachine :=
  match writesVector? line with
  | some (mnemonic, a, v) => l.execVector? unit s mnemonic a v
  | none => (l.run s.machine [line]).map fun machine => { s with machine }

/-- The state after some lines. -/
def runVector (s : VectorMachine) (lines : List Line) : Option VectorMachine :=
  lines.foldlM (l.stepVector? unit) s

variable {l unit} {s t : VectorMachine} {lines more : List Line}

lemma runVector_append (h : l.runVector unit s lines = some t) (more : List Line) :
    l.runVector unit s (lines ++ more) = l.runVector unit t more := by
  rw [runVector, List.foldlM_append]
  change l.runVector unit s lines >>= _ = _
  rw [h]
  rfl

lemma runVector_cons {line : Line} (h : l.stepVector? unit s line = some t) (lines : List Line) :
    l.runVector unit s (line :: lines) = l.runVector unit t lines := by
  rw [runVector, List.foldlM_cons, h]
  rfl

/-- Whether a line is an instruction that does not jump, nor write a vector. -/
def isScalar : Line → Bool
  | .instruction [] mnemonic gap operands =>
    (jump? mnemonic (operands.map operandIn)).isNone &&
      (writesVector? (.instruction [] mnemonic gap operands)).isNone
  | _ => false

/-- Lines that do not touch vectors run as they do without. -/
lemma runVector_of_run (hscalar : ∀ line ∈ lines, isScalar line = true) {m : Machine}
    (h : l.run s.machine lines = some m) :
    l.runVector unit s lines = some { s with machine := m } := by
  -- by the lines, none of which has a label or jumps
  induction lines generalizing s with
  | nil =>
      cases h
      rfl
  | cons line lines ih =>
      obtain ⟨hline, hlines⟩ := List.forall_mem_cons.mp hscalar
      unfold isScalar at hline
      split at hline
      · next mnemonic gap operands =>
          rw [Bool.and_eq_true, Option.isNone_iff_eq_none, Option.isNone_iff_eq_none] at hline
          obtain ⟨hjump, hvector⟩ := hline
          cases he : l.exec? s.machine mnemonic (operands.map operandIn) with
          | none =>
              rw [run, runFrom, hjump] at h
              dsimp only at h
              rw [he] at h
              cases h
          | some u =>
              rw [run_instruction gap hjump he] at h
              have hstep : l.stepVector? unit s (.instruction [] mnemonic gap operands) =
                  some { s with machine := u } := by
                rw [stepVector?, hvector]
                dsimp only
                rw [run_instruction gap hjump he, run_nil, Option.map_some]
              rw [runVector_cons hstep]
              exact ih hlines h
      · cases hline

end Layout

/-! ### Lines around a vector -/

section Scratch

variable (l : Layout) (scope : Scope) (symbol : String)

/-- A word ends up in a register, whatever the linker has laid down for the symbol.  Nothing else
changes but a word where the stack ends. -/
lemma run_addressOf_unlinked {s : Machine} {r : Register} (hr : r ≠ .rsp) {top : Word} {k : ℕ}
    (hk : k + 8 ≤ 144) (hsp : s.registers .rsp = top - BitVec.ofNat 64 k) :
    ∃ w m, s.memory.SameOutside top k (k + 8) m ∧ ∀ lines,
      l.run s (Frame.wrap [(addressOf scope symbol r.name true).1] [] ++ lines) =
        l.run { s.set r w with memory := m } lines := by
  unfold addressOf
  cases scope.inside? symbol with
  | some name =>
      exact ⟨l.address name, s.memory, Memory.SameOutside.refl _ _ _ _, fun lines =>
        Layout.run_leaq (Layout.effective?_ripRelative s name) "\t" r lines⟩
  | none =>
      exact ⟨_, _, Machine.sameOutside_push hk hsp s.flags,
        Layout.run_loadFromGot_word hr symbol rfl⟩

/-- A register that was saved, and used since, is taken back. -/
lemma Machine.restored_saved (s : Machine) {r : Register} (hr : r ≠ .rsp) (w : Word) {m : Memory}
    (hm : (s.saved r).memory.SameOutside (s.registers .rsp) 136 144 m) :
    ({ (s.saved r).set r w with memory := m } : Machine).restored r = { s with memory := m } := by
  have hsaved : m.word (s.registers .rsp - 136) = s.registers r := by
    have hword : m.word (s.registers .rsp - 136) =
        (s.saved r).memory.word (s.registers .rsp - 136) :=
      hm.word_eq (k := 136) (by omega) (by omega)
    rw [hword, Machine.saved, Memory.word_store]
  have hadd : s.registers .rsp - 136 + 136 = s.registers .rsp := by bv_omega
  rw [Machine.mk.injEq]
  refine ⟨?_, rfl, rfl⟩
  simp only [Machine.restored, Machine.saved, Machine.set, Machine.top, Function.update_self,
    Function.update_of_ne (Ne.symm hr), hsaved, hadd]
  rw [Function.update_idem, Function.update_comm hr, Function.update_idem,
    Function.update_eq_self, Function.update_eq_self]

end Scratch

/-! ### Loads into a vector -/

/-- The lines that bring the address of a symbol to the first scratch register, which is saved. -/
def intoScratch (scope : Scope) (symbol : String) : List Line :=
  Frame.clearRedZone :: .spaced "pushq" [.register "%rax"] ::
    Frame.wrap [(addressOf scope symbol "%rax" true).1] []

/-- The lines that take the scratch register back. -/
def takeScratch : List Line :=
  [.spaced "popq" [.register "%rax"], Frame.restoreRedZone]

/-- A state with vectors that is like another except for one vector, and for the memory right below
the red zone. -/
structure ChangesOnly (v : VectorRegister) (s t : VectorMachine) : Prop where
  registers : t.machine.registers = s.machine.registers
  flags : t.machine.flags = s.machine.flags
  memory : s.machine.memory.SameOutside (s.machine.registers .rsp) 128 144 t.machine.memory
  vectors : ∀ n, n ≠ v.number → t.vectors n = s.vectors n

section Loads

variable (l : Layout) (unit : VectorUnit) (scope : Scope) (symbol : String)

lemma isScalar_addressOf : ∀ line ∈ Frame.wrap [(addressOf scope symbol "%rax" true).1] [],
    Layout.isScalar line = true := by
  have hrax : VectorRegister.ofName? "%rax" = none := VectorRegister.ofName?_general .rax
  have hleaq (gap name : String) : Layout.isScalar
      (.instruction [] "leaq" gap [.memory (.ripRelative name), .register "%rax"]) = true := by
    simp [Layout.isScalar, jump?, writesVector?, vector?, operandIn, Line.Operand.register,
      Line.Operand.ofKind, Operand.ofKind, Operand.register?, hrax]
  unfold addressOf
  cases scope.inside? symbol with
  | some name => exact List.forall_mem_singleton.mpr (hleaq "\t" name)
  | none =>
      refine List.forall_mem_cons.mpr ⟨by decide +kernel, List.forall_mem_cons.mpr
        ⟨hleaq " " _, ?_⟩⟩
      decide +kernel

/-- The state with a word in the scratch register, which is saved, and with other memory below
it. -/
def Machine.scratched (s : Machine) (w : Word) (m : Memory) : Machine :=
  { (s.saved .rax).set .rax w with memory := m }

/-- Memory that is like that of a state, but for the words below the one where the scratch register
is saved. -/
def KeepsSaved (s : Machine) (m : Memory) : Prop :=
  (s.saved .rax).memory.SameOutside (s.registers .rsp) 136 144 m

lemma runVector_intoScratch (s : VectorMachine) : ∃ w m, KeepsSaved s.machine m ∧
    l.runVector unit s (intoScratch scope symbol) =
      some { s with machine := s.machine.scratched w m } := by
  have hrax : Register.rax ≠ .rsp := by decide
  have hrsp : (s.machine.saved .rax).registers .rsp =
      s.machine.registers .rsp - BitVec.ofNat 64 136 := by
    simp [Machine.saved]
  obtain ⟨w, m, hm, hrun⟩ := run_addressOf_unlinked l scope symbol hrax (by omega) hrsp
  refine ⟨w, m, hm, Layout.runVector_of_run ?_ ?_⟩
  · exact List.forall_mem_cons.mpr ⟨by decide +kernel,
      List.forall_mem_cons.mpr ⟨by decide +kernel, isScalar_addressOf scope symbol⟩⟩
  · have hlines := hrun []
    rw [List.append_nil] at hlines
    exact (Layout.run_saveRegister s.machine hrax _).trans hlines

variable {l unit scope symbol}

/-- A line that does not touch vectors, in front of others. -/
lemma runVector_scalar {s : VectorMachine} {line : Line} (hline : Layout.isScalar line = true)
    {m : Machine} (h : l.run s.machine [line] = some m) (lines : List Line) :
    l.runVector unit s (line :: lines) = l.runVector unit { s with machine := m } lines :=
  Layout.runVector_append (Layout.runVector_of_run (List.forall_mem_singleton.mpr hline) h) lines

lemma runVector_takeScratch {s t : VectorMachine} {w : Word} {m : Memory}
    (hm : KeepsSaved s.machine m) (ht : t.machine = s.machine.scratched w m) :
    l.runVector unit t takeScratch = some { t with machine := { s.machine with memory := m } } := by
  refine Layout.runVector_of_run (by decide +kernel) ?_
  rw [ht]
  refine (Layout.run_takeRegister _ (r := .rax) (by decide) []).trans ?_
  rw [Layout.run_nil, Machine.scratched, Machine.restored_saved _ (by decide) w hm]

lemma changesOnly_of_keepsSaved {s t : VectorMachine} {v : VectorRegister} {m : Memory}
    (hm : KeepsSaved s.machine m)
    (hmachine : t.machine = { s.machine with memory := m })
    (hvectors : ∀ n, n ≠ v.number → t.vectors n = s.vectors n) : ChangesOnly v s t where
  registers := by rw [hmachine]
  flags := by rw [hmachine]
  memory := by
    have hsaved : s.machine.memory.SameOutside (s.machine.registers .rsp) 128 144
        (s.machine.saved .rax).memory :=
      Memory.sameOutside_store _ _ _ (k := 136) (by omega) (by omega) (by omega)
    rw [hmachine]
    exact hsaved.trans (hm.mono (by omega) (by omega))
  vectors := hvectors

/-! ### The families -/

/-- The lines that copy the address of a symbol to a vector. -/
def copyLines (scope : Scope) (symbol : String) (avx : Bool) (v : VectorRegister) : List Line :=
  intoScratch scope symbol ++
    .spaced (if avx then "vmovq" else "movq") [.register "%rax", .register v.name] :: takeScratch

lemma vector?_register (v : VectorRegister) : vector? (.ofKind (.register v.name)) = some v := by
  simp [vector?, Operand.ofKind, Operand.register?]

lemma writesVector?_register (mnemonic gap : String) (a : Line.Operand) (v : VectorRegister) :
    writesVector? (.instruction [] mnemonic gap [a, .register v.name]) =
      some (mnemonic, operandIn a, v) := by
  change (vector? (.ofKind (.register v.name))).map _ = _
  rw [vector?_register, Option.map_some]

/-- A line that writes a vector from a word. -/
lemma stepVector?_fill {s : VectorMachine} {mnemonic : String} {a : Line.Operand} {w : Word}
    (hm : mnemonic ∈ fills) (ha : l.value? s.machine (operandIn a) = some w)
    (v : VectorRegister) : l.stepVector? unit s (.spaced mnemonic [a, .register v.name]) =
      some (s.write v (unit.fill mnemonic v w (s.vectors v.number))) := by
  rw [Layout.stepVector?, Line.spaced, writesVector?_register]
  dsimp only
  rw [Layout.execVector?, if_pos hm, ha, Option.map_some]

/-- A line that fills a vector with one of its parts. -/
lemma stepVector?_spread (s : VectorMachine) (v : VectorRegister) :
    l.stepVector? unit s (.spaced "vpbroadcastq" [.register v.name, .register v.name]) =
      some (s.write v
        (unit.spread "vpbroadcastq" v (s.vectors v.number) (s.vectors v.number))) := by
  rw [Layout.stepVector?, Line.spaced, writesVector?_register]
  dsimp only
  rw [Layout.execVector?, if_neg (by decide), if_pos rfl, Line.Operand.register,
    Layout.operandIn_ofKind, vector?_register, Option.map_some]

lemma ChangesOnly.write {s t : VectorMachine} {v : VectorRegister} (h : ChangesOnly v s t)
    (x : BitVec 512) : ChangesOnly v s (t.write v x) where
  registers := h.registers
  flags := h.flags
  memory := h.memory
  vectors n hn := (t.vectors_write hn x).trans (h.vectors n hn)

/-- The scratch register as a source. -/
lemma value?_scratched (s : Machine) (w : Word) (m : Memory) :
    l.value? (s.scratched w m) (operandIn (.register "%rax")) = some w := by
  refine (Layout.value?_register (s.scratched w m) .rax).trans (congrArg some ?_)
  exact Function.update_self Register.rax w (s.saved .rax).registers

/-- An address is copied to a vector. -/
lemma runVector_copyLines (s : VectorMachine) (avx : Bool) (v : VectorRegister) :
    ∃ t, l.runVector unit s (copyLines scope symbol avx v) = some t ∧ ChangesOnly v s t := by
  obtain ⟨w, m, hm, hrun⟩ := runVector_intoScratch l unit scope symbol s
  have hfill : (if avx then "vmovq" else "movq") ∈ fills := by
    cases avx <;> decide
  let filled : VectorMachine :=
    { s with machine := s.machine.scratched w m }.write v
      (unit.fill (if avx then "vmovq" else "movq") v w (s.vectors v.number))
  refine ⟨{ filled with machine := { s.machine with memory := m } }, ?_, ?_⟩
  · rw [copyLines, Layout.runVector_append hrun,
      Layout.runVector_cons (stepVector?_fill hfill (value?_scratched s.machine w m) v)]
    exact runVector_takeScratch hm rfl
  · exact changesOnly_of_keepsSaved hm rfl fun _ hn => s.vectors_write hn _

/-- An address is copied to a vector, which is filled with it. -/
lemma runVector_spread (s : VectorMachine) (avx : Bool) (v : VectorRegister) :
    ∃ t, l.runVector unit s (copyLines scope symbol avx v ++
      [.spaced "vpbroadcastq" [.register v.name, .register v.name]]) = some t ∧
        ChangesOnly v s t := by
  obtain ⟨t, hrun, ht⟩ := runVector_copyLines s avx v
  refine ⟨t.write v (unit.spread "vpbroadcastq" v (t.vectors v.number) (t.vectors v.number)), ?_,
    ht.write _⟩
  rw [Layout.runVector_append hrun, Layout.runVector_cons (stepVector?_spread t v)]
  rfl

/-- A word that was pushed is dropped. -/
lemma run_dropped (s : Machine) (w : Word) :
    l.run (s.push w) [.spaced "leaq" [Frame.stack "8", Frame.rsp]] =
      some { s with memory := s.memory.store (s.registers .rsp - 8) w } := by
  have hrsp : (s.push w).registers .rsp = s.registers .rsp - 8 := by
    simp [Machine.push, Machine.set]
  have hadd : s.registers .rsp - 8 + 8 = s.registers .rsp := by bv_omega
  have heffective : l.effective? (s.push w) (.ofRegister Register.rsp.name "8") =
      some ((s.push w).registers .rsp + 8) :=
    Layout.effective?_ofRegister (s.push w) .rsp (by decide)
  rw [hrsp, hadd] at heffective
  refine (Layout.run_leaq heffective " " .rsp []).trans ?_
  rw [Layout.run_nil, Machine.push, Machine.set, Machine.set]
  simp only [Function.update_idem, Function.update_eq_self]

/-- The lines that put the word of the scratch register into a part of a vector. -/
def combineLine (mnemonic : String) (v : VectorRegister) : List Line :=
  [.spaced "pushq" [.register "%rax"], .spaced mnemonic [Frame.stack "", .register v.name],
    .spaced "leaq" [Frame.stack "8", Frame.rsp]]

variable (l unit) in
/-- A vector is filled from a word that is pushed for that. -/
lemma runVector_combineLine (s : VectorMachine) {mnemonic : String} (hm : mnemonic ∈ fills)
    (v : VectorRegister) : ∃ x, l.runVector unit s (combineLine mnemonic v) =
      some { s.write v x with machine := { s.machine with
        memory := s.machine.memory.store (s.machine.registers .rsp - 8)
          (s.machine.registers .rax) } } := by
  let w := s.machine.registers .rax
  let pushed : VectorMachine := { s with machine := s.machine.push w }
  let filled := pushed.write v (unit.fill mnemonic v w (s.vectors v.number))
  have hpush : l.run s.machine [.spaced "pushq" [.register "%rax"]] = some (s.machine.push w) :=
    Layout.run_pushq s.machine .rax []
  have hvalue : l.value? pushed.machine (operandIn (Frame.stack "")) = some w :=
    (Layout.value?_ofRegister pushed.machine .rsp).trans
      (congrArg some (Layout.top_push s.machine w))
  have hdrop : l.run filled.machine [.spaced "leaq" [Frame.stack "8", Frame.rsp]] = some _ :=
    run_dropped s.machine w
  refine ⟨unit.fill mnemonic v w (s.vectors v.number), ?_⟩
  rw [combineLine, runVector_scalar (by decide +kernel) hpush,
    Layout.runVector_cons (stepVector?_fill hm hvalue v)]
  exact runVector_scalar (by decide +kernel) hdrop []

/-- The lines that put the address of a symbol into a part of a vector. -/
def combineLines (scope : Scope) (symbol mnemonic : String) (v : VectorRegister) : List Line :=
  intoScratch scope symbol ++ (combineLine mnemonic v ++ takeScratch)

/-- An address is put into a part of a vector. -/
lemma runVector_combineLines (s : VectorMachine) {mnemonic : String} (hmnemonic : mnemonic ∈ fills)
    (v : VectorRegister) : ∃ t, l.runVector unit s (combineLines scope symbol mnemonic v) = some t ∧
      ChangesOnly v s t := by
  obtain ⟨w, m, hm, hrun⟩ := runVector_intoScratch l unit scope symbol s
  let scratched : VectorMachine := { s with machine := s.machine.scratched w m }
  obtain ⟨x, hfilled⟩ := runVector_combineLine l unit scratched hmnemonic v
  -- what is pushed lies below the register that is saved
  have hrsp : scratched.machine.registers .rsp - 8 = s.machine.registers .rsp - 144 := by
    have h : scratched.machine.registers .rsp = s.machine.registers .rsp - 136 := by
      simp [scratched, Machine.scratched, Machine.set, Machine.saved]
    rw [h]
    bv_omega
  rw [hrsp] at hfilled
  let again := m.store (s.machine.registers .rsp - 144) (scratched.machine.registers .rax)
  have hagain : KeepsSaved s.machine again :=
    hm.trans (Memory.sameOutside_store _ _ _ (k := 144) (by omega) (by omega) (by omega))
  refine ⟨{ s.write v x with machine := { s.machine with memory := again } }, ?_,
    changesOnly_of_keepsSaved hagain rfl fun _ hn => s.vectors_write hn x⟩
  rw [combineLines, Layout.runVector_append hrun, Layout.runVector_append hfilled]
  exact runVector_takeScratch hagain rfl

end Loads

/-! ### Words copied between registers and vectors -/

/-- The general register that an operand is. -/
def general? (o : Operand) : Option Register :=
  o.register?.bind Register.ofName?

/-- The vector register between which and a general one a line copies a word. -/
def transfer? : Line → Option VectorRegister
  | .instruction _ mnemonic _ [a, b] =>
    if mnemonic ∈ ["movq", "vmovq"] then
      if (general? (operandIn a)).isSome then vector? (operandIn b)
      else if (general? (operandIn b)).isSome then vector? (operandIn a)
      else none
    else none
  | _ => none

section Transfers

variable {scope : Scope} {symbol mnemonic : String} {v : VectorRegister}

lemma transfers_intoScratch (scope : Scope) (symbol : String) :
    (intoScratch scope symbol).filterMap transfer? = [] := by
  have hload : (Frame.wrap [(addressOf scope symbol "%rax" true).1] []).filterMap transfer? =
      [] := by
    have hleaq (gap : String) (operands : List Line.Operand) :
        transfer? (.instruction [] "leaq" gap operands) = none := by
      unfold transfer?
      split
      · next hline =>
          cases hline
          rw [if_neg (by decide)]
      · rfl
    unfold addressOf
    cases scope.inside? symbol with
    | some name => exact List.filterMap_cons_none (hleaq ..)
    | none =>
        refine (List.filterMap_cons_none rfl).trans ((List.filterMap_cons_none (hleaq ..)).trans ?_)
        decide +kernel
  have hsave : [Frame.clearRedZone, .spaced "pushq" [.register "%rax"]].filterMap transfer? =
      [] := by
    decide +kernel
  change ([_, _] ++ Frame.wrap _ []).filterMap transfer? = []
  rw [List.filterMap_append, hsave, hload, List.append_nil]

lemma transfers_takeScratch : takeScratch.filterMap transfer? = [] := by
  decide +kernel

lemma transfers_copyLines (avx : Bool) :
    (copyLines scope symbol avx v).filterMap transfer? = [v] := by
  have hcopy : transfer? (.spaced (if avx then "vmovq" else "movq")
      [.register "%rax", .register v.name]) = some v := by
    have hmnemonic : (if avx then "vmovq" else "movq") ∈ ["movq", "vmovq"] := by
      cases avx <;> decide
    have hrax : (general? (operandIn (.register "%rax"))).isSome = true := by decide +kernel
    rw [Line.spaced, transfer?, if_pos hmnemonic, if_pos hrax]
    exact vector?_register v
  rw [copyLines, List.filterMap_append, transfers_intoScratch, List.filterMap_cons_some hcopy,
    transfers_takeScratch, List.nil_append]

lemma transfers_combineLines :
    (combineLines scope symbol mnemonic v).filterMap transfer? = [] := by
  have hcombine : transfer? (.spaced mnemonic [Frame.stack "", .register v.name]) = none := by
    have hstack : general? (operandIn (Frame.stack "")) = none := rfl
    have hvector : general? (operandIn (.register v.name)) = none := v.general_ofName?
    rw [Line.spaced, transfer?, hstack, hvector]
    exact ite_self _
  rw [combineLines, List.filterMap_append, List.filterMap_append, transfers_intoScratch,
    transfers_takeScratch, combineLine, List.filterMap_cons_none (by decide +kernel),
    List.filterMap_cons_none hcombine]
  decide +kernel

end Transfers

/-! ### Instructions -/

section Instructions

variable {scope : Scope} {insn : Instruction} {a b : Operand} {m : MemoryRef}
variable {v : VectorRegister}

/-- The vector register into which an instruction loads an address from the offset table. -/
def vectorLoaded? (insn : Instruction) : Option VectorRegister :=
  match Family.of insn with
  | .move a b | .transform a b | .combineVector a b =>
    if isLoad a then b.register?.bind VectorRegister.ofName? else none
  | _ => none

lemma exists_of_vectorLoaded? (h : vectorLoaded? insn = some v) :
    ∃ a b m, (Family.of insn = .move a b ∨ Family.of insn = .transform a b ∨
        Family.of insn = .combineVector a b) ∧
      a.kind = .memory m ∧ m.tag = some "GOTPCREL" ∧ b.register? = some v.name := by
  have hof {a b : Operand}
      (h : (if isLoad a then b.register?.bind VectorRegister.ofName? else none) = some v) :
      ∃ m, a.kind = .memory m ∧ m.tag = some "GOTPCREL" ∧ b.register? = some v.name := by
    split at h
    · next hload =>
        obtain ⟨name, hname, hv⟩ := Option.bind_eq_some_iff.mp h
        have hv : v.name = name := by simpa using List.find?_some hv
        unfold isLoad at hload
        split at hload
        · next m hm => exact ⟨m, hm, by simpa using hload, by rw [hname, hv]⟩
        · cases hload
    · cases h
  unfold vectorLoaded? at h
  split at h
  · next a b hfamily =>
      obtain ⟨m, hm⟩ := hof h
      exact ⟨a, b, m, .inl hfamily, hm⟩
  · next a b hfamily =>
      obtain ⟨m, hm⟩ := hof h
      exact ⟨a, b, m, .inr (.inl hfamily), hm⟩
  · next a b hfamily =>
      obtain ⟨m, hm⟩ := hof h
      exact ⟨a, b, m, .inr (.inr hfamily), hm⟩
  · cases h

/-- What is written for a load by the first operand. -/
lemma exists_gotLoad {s : Statement} {e : Emission} {os : List Operand}
    (hops : insn.operands = a :: os) (hjump : (Family.of insn).isJump = false)
    (hkind : a.kind = .memory m) (htag : m.tag = some "GOTPCREL")
    (h : sealInstruction scope s insn = .ok e) :
    ∃ frames helpers, gotLoad scope insn 0 m = .ok (frames, helpers) ∧
      e.lines = Frame.wrap frames [] := by
  have hload : isLoad a = true := by simp [isLoad, hkind, htag]
  -- the first operand is the load and ends the frames, whatever comes after it
  have hsealed {change : OperandChange} (hchange : OperandSealed scope insn 0 a change) :
      ∃ frames helpers, gotLoad scope insn 0 m = .ok (frames, helpers) ∧
        change = { operand := .copied a, frames, helpers, last := true } := by
    cases hchange with
    | @load m' frames helpers hkind' _ hload =>
        rw [hkind] at hkind'
        cases hkind'
        exact ⟨frames, helpers, hload, rfl⟩
    | branch _ _ hj =>
        rw [hjump] at hj
        cases hj
    | _ => simp_all
  obtain ⟨changes, hchanges, hlines⟩ := sealInstruction_eq_ok h
  rw [hops] at hchanges
  cases hchanges with
  | cons hchange hlast =>
      rw [hchange.last_eq, hload, hjump] at hlast
      cases hlast
  | last hchange =>
      obtain ⟨frames, helpers, hgot, rfl⟩ := hsealed hchange
      obtain ⟨-, -, -, first, plan, -, -, hframes, -⟩ := gotLoad_eq_ok hgot
      refine ⟨frames, helpers, hgot, ?_⟩
      rcases hlines with ⟨hany, -⟩ | ⟨-, rfl⟩
      · cases hany
      · rw [Emission.lines_replace, changedLines, List.flatMap_singleton, hframes]
        exact wrap_addressOf ..

/-- The mnemonics of the instructions that fill a vector, or change a part of it. -/
lemma mnemonic_of_family (insn : Instruction) :
    (∀ a b, Family.of insn = .transform a b → insn.mnemonic = "vpbroadcastq") ∧
      ∀ a b, Family.of insn = .combineVector a b → insn.mnemonic ∈ fills := by
  unfold Family.of
  split
  · grind [Family.ofOne]
  · grind [Family.ofTwo, fills]
  · grind [Family.ofThree]
  · grind

/-- The lines of a load that copies an address to a vector, inside the frames of its family. -/
lemma wrap_viaGeneral {symbol mnemonic : String} {first plan : LoadPlan}
    (htarget : first.target = v.name) (h : viaGeneral mnemonic first = .ok plan) :
    Frame.wrap (plan.frames ++ [(addressOf scope symbol plan.target plan.redZoneCleared).1]) [] =
      Frame.wrap first.frames (copyLines scope symbol (Text.startsWith "v" mnemonic) v) := by
  rw [viaGeneral, htarget, v.holdsAddress_name, if_neg Bool.false_ne_true] at h
  cases h
  rw [List.append_assoc, Frame.wrap_append]
  simp [copyLines, intoScratch, takeScratch, Frame.wrap, Frame.saveRegister, Frame.moveTo,
    Frame.afterwards]

/-- The lines of a load that changes a part of a vector. -/
lemma wrap_combineVector (scope : Scope) (symbol mnemonic : String) (v : VectorRegister) :
    Frame.wrap [.saveRegister "%rax", .combineVector mnemonic v.name "%rax",
      (addressOf scope symbol "%rax" true).1] [] = combineLines scope symbol mnemonic v := by
  simp [combineLines, combineLine, intoScratch, takeScratch, Frame.wrap, Frame.saveRegister,
    Frame.combineVector]

/-- The lines that are written for a load into a vector. -/
lemma lines_eq {s : Statement} {e : Emission} (h : vectorLoaded? insn = some v)
    (hseal : sealInstruction scope s insn = .ok e) : ∃ symbol,
      (e.lines = copyLines scope symbol (Text.startsWith "v" insn.mnemonic) v ∧
        ∃ a b, Family.of insn = .move a b) ∨
      (e.lines = copyLines scope symbol (Text.startsWith "v" insn.mnemonic) v ++
          [.spaced "vpbroadcastq" [.register v.name, .register v.name]] ∧
        ∃ a b, Family.of insn = .transform a b) ∨
      (e.lines = combineLines scope symbol insn.mnemonic v ∧ insn.mnemonic ∈ fills ∧
        ∃ a b, Family.of insn = .combineVector a b) := by
  obtain ⟨a, b, m, hfamily, hkind, htag, hb⟩ := exists_of_vectorLoaded? h
  have hops : insn.operands = [a, b] ∧ (Family.of insn).isJump = false := by
    have hknown := known_of insn
    rcases hfamily with h | h | h
    all_goals
      rw [h] at hknown ⊢
      cases hknown
      exact ⟨‹_›, rfl⟩
  obtain ⟨frames, helpers, hgot, hlines⟩ := exists_gotLoad hops.1 hops.2 hkind htag hseal
  obtain ⟨-, -, -, first, plan, hfirst, hplan, rfl, -⟩ := gotLoad_eq_ok hgot
  have hregister (role : RegisterRole) : registerIn role b = .ok v.name := by
    rw [registerIn, hb]
  refine ⟨m.symbol.getD "", ?_⟩
  -- a vector is moved, transformed or combined, and each is planned in its own way
  rcases hfamily with h | h | h
  · rw [h, loadPlan, hregister] at hfirst
    cases hfirst
    exact .inl ⟨hlines.trans (wrap_viaGeneral rfl hplan), a, b, h⟩
  · rw [h, loadPlan, hregister] at hfirst
    obtain ⟨target, htarget, hfirst⟩ := Outcome.bind_eq_ok_iff.mp hfirst
    cases htarget
    simp only [v.holdsAddress_name, Bool.false_eq_true, if_false] at hfirst
    cases hfirst
    have hlines := hlines.trans (wrap_viaGeneral rfl hplan)
    rw [(mnemonic_of_family insn).1 a b h] at hlines ⊢
    exact .inr (.inl ⟨hlines, a, b, h⟩)
  · rw [h, loadPlan, hregister] at hfirst
    obtain ⟨target, htarget, hfirst⟩ := Outcome.bind_eq_ok_iff.mp hfirst
    cases htarget
    simp only [v.holdsAddress_name] at hfirst
    cases hfirst
    rw [viaGeneral_name (r := .rax) rfl] at hplan
    cases hplan
    exact .inr (.inr ⟨hlines.trans (wrap_combineVector ..), (mnemonic_of_family insn).2 a b h,
      a, b, h⟩)

/-- The lines that are written for a load into a vector change nothing but the vector, and the
memory below the red zone.  What they copy between a general and a vector register stands in the
low part of the vector exactly if the vector was named so, or the word goes by the stack. -/
theorem sealInstruction_vector {s : Statement} {e : Emission} (h : vectorLoaded? insn = some v)
    (hseal : sealInstruction scope s insn = .ok e) :
    ((∀ u ∈ e.lines.filterMap transfer?, u.width = .xmm) ↔
        v.width = .xmm ∨ ∃ a b, Family.of insn = .combineVector a b) ∧
      ∀ (l : Layout) (unit : VectorUnit) (state : VectorMachine),
        ∃ t, l.runVector unit state e.lines = some t ∧ ChangesOnly v state t := by
  have hspread : transfer? (.spaced "vpbroadcastq" [.register v.name, .register v.name]) =
      none := by
    rw [Line.spaced, transfer?, if_neg (by decide)]
  obtain ⟨symbol, ⟨hlines, a, b, hfamily⟩ | ⟨hlines, a, b, hfamily⟩ |
    ⟨hlines, hfill, a, b, hfamily⟩⟩ := lines_eq h hseal
  · refine ⟨?_, fun l unit state => hlines ▸ runVector_copyLines state _ v⟩
    rw [hlines, transfers_copyLines, hfamily]
    simp
  · refine ⟨?_, fun l unit state => hlines ▸ runVector_spread state _ v⟩
    rw [hlines, List.filterMap_append, transfers_copyLines, List.filterMap_cons_none hspread,
      hfamily]
    simp
  · refine ⟨?_, fun l unit state => hlines ▸ runVector_combineLines state hfill v⟩
    rw [hlines, transfers_combineLines, hfamily]
    simp

/-- The address of a symbol outside the module in the low part of a vector. -/
theorem sealInstruction_vector_low :
    ∃ s insn e, Statement.parse .x86_64 "\tvmovq foo@GOTPCREL(%rip), %xmm1\n" = .ok [s] ∧
      s.kind = .instruction insn ∧ sealInstruction Comparison.emptyScope s insn = .ok e ∧
        (∀ u ∈ e.lines.filterMap transfer?, u.width = .xmm) ∧
          ∀ (l : Layout) (unit : VectorUnit) (state : VectorMachine),
            ∃ t, l.runVector unit state e.lines = some t ∧ ChangesOnly ⟨.xmm, 1⟩ state t := by
  have hseals : Seals Comparison.emptyScope "\tvmovq foo@GOTPCREL(%rip), %xmm1\n"
      (fun insn _ => vectorLoaded? insn = some ⟨.xmm, 1⟩) = true := by
    decide +kernel
  obtain ⟨s, insn, e, hs, hkind, he, hp⟩ := exists_of_seals hseals
  have hvector := sealInstruction_vector (of_decide_eq_true hp) he
  exact ⟨s, insn, e, hs, hkind, he, hvector.1.mpr (.inl rfl), hvector.2⟩

/-- A whole vector is named where a word is copied to its low part. -/
theorem exists_transfer_wide :
    ∃ s insn e, Statement.parse .x86_64 "\tvpbroadcastq foo@GOTPCREL(%rip), %zmm1\n" = .ok [s] ∧
      s.kind = .instruction insn ∧ vectorLoaded? insn = some ⟨.zmm, 1⟩ ∧
        sealInstruction Comparison.emptyScope s insn = .ok e ∧
          ∃ u ∈ e.lines.filterMap transfer?, u.width ≠ .xmm := by
  have hseals : Seals Comparison.emptyScope "\tvpbroadcastq foo@GOTPCREL(%rip), %zmm1\n"
      (fun insn e => vectorLoaded? insn = some ⟨.zmm, 1⟩ ∧
        ∃ u ∈ e.lines.filterMap transfer?, u.width ≠ .xmm) = true := by
    decide +kernel
  obtain ⟨s, insn, e, hs, hkind, he, hp⟩ := exists_of_seals hseals
  obtain ⟨hloaded, hwide⟩ := of_decide_eq_true (p := _ ∧ _) hp
  exact ⟨s, insn, e, hs, hkind, hloaded, he, hwide⟩

end Instructions

end Hermetic.X86

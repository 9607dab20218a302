/-
Helpers by name: which are defined, and which names lines are made with.

* `Helper.name`, `Helper.lines`: the name that a helper defines, and the lines that define it;
* `Helpers.Holds`, `Helpers.holds_requestAll`: exactly the helpers that were asked for are there;
* `Helpers.lines_infix`, `Helpers.exists_of_label`: what is there is written after a module, and
  nothing else is defined there;
* `Line.mentions`: the symbols of the operands of a line that are put together, not copied.
-/
import Hermetic.Boundary
import Hermetic.Sealing.Scope
import Mathlib.Tactic.Lemma

namespace Hermetic

/-- Lines define the names of their labels. -/
lemma Line.mem_labels_iff {lines : List Line} {name : String} :
    name ∈ Line.labels lines ↔ .label name ∈ lines := by
  unfold Line.labels
  rw [List.mem_filterMap]
  constructor
  · rintro ⟨line, hmem, hline⟩
    cases line <;> cases hline
    exact hmem
  · intro hmem
    exact ⟨_, hmem, rfl⟩

/-! ### Helpers -/

namespace Helper

/-- The name that a helper defines. -/
def name (arch : Arch) : Helper → String
  | redirector s => Symbol.redirector s
  | accessor s _ => Symbol.accessor s
  | gotEntry s =>
    match arch with
    | .x86_64 => Symbol.gotSlot s
    | .aarch64 => Symbol.gotHelper s
  | gotOffset s fromTable => Symbol.gotOffsetSlot s fromTable
  | gotDelta => Symbol.gotDelta

/-- The lines of a helper.  On AArch64 there are none for offsets in the table. -/
def lines : Arch → Helper → List Line
  | .x86_64, redirector s => Boundary.x86Redirector s
  | .x86_64, accessor s target => Boundary.x86Accessor s target
  | .x86_64, gotEntry s => Boundary.x86GotEntry s
  | .x86_64, gotOffset s fromTable => Boundary.x86GotOffset fromTable s
  | .x86_64, gotDelta => Boundary.x86GotDelta
  | .aarch64, redirector s => Boundary.armRedirector s
  | .aarch64, accessor s target => Boundary.armAccessor s target
  | .aarch64, gotEntry s => Boundary.armGotEntry s
  | .aarch64, gotOffset .. | .aarch64, gotDelta => []

/-- Whether an architecture has lines for a helper. -/
def Known : Arch → Helper → Prop
  | .aarch64, gotOffset .. | .aarch64, gotDelta => False
  | _, _ => True

/-- Whether later helpers leave a helper as it is. -/
def Lasting : Helper → Prop
  | accessor .. => False
  | _ => True

/-- The lines of a helper define its name, and nothing else. -/
lemma labels_lines {arch : Arch} {h : Helper} (hh : h.Known arch) :
    Line.labels (h.lines arch) = [h.name arch] := by
  cases arch with
  | x86_64 => cases h <;> rfl
  | aarch64 =>
      cases h with
      | gotOffset => exact hh.elim
      | gotDelta => exact hh.elim
      | _ => rfl

end Helper

namespace Helpers

/-- Whether a helper is among those that were asked for. -/
def Holds (hs : Helpers) : Helper → Prop
  | .redirector s => s ∈ hs.redirectors
  | .accessor s target => (s, target) ∈ hs.accessors.toList
  | .gotEntry s => s ∈ hs.gotEntries
  | .gotOffset s false => s ∈ hs.gotOffsets
  | .gotOffset s true => s ∈ hs.tableOffsets
  | .gotDelta => hs.gotDelta = true

/-- Of what was asked for, exactly the helpers that were there or that are asked for are there.
Accessors are left out, since a later one takes the place of an earlier one. -/
lemma holds_requestAll {hs : Helpers} {l : List Helper} {h : Helper} (hh : h.Lasting) :
    (hs.requestAll l).Holds h ↔ hs.Holds h ∨ h ∈ l := by
  unfold requestAll
  induction l generalizing hs with
  | nil => simp
  | cons a l ih =>
      have hstep : (hs.request a).Holds h ↔ hs.Holds h ∨ h = a := by
        rcases h with s | ⟨s, t⟩ | s | ⟨s, _ | _⟩ | _
        case accessor => exact hh.elim
        all_goals
          rcases a with s' | ⟨s', t'⟩ | s' | ⟨s', _ | _⟩ | _ <;> simp [Holds, request, or_comm]
      rw [List.foldl_cons, ih, hstep, List.mem_cons, or_assoc]

/-- What is there is written. -/
lemma lines_infix {arch : Arch} {hs : Helpers} {h : Helper} (hh : hs.Holds h) :
    h.lines arch <:+: Boundary.helperLines arch hs := by
  have hpart {α : Type} (f : α → List Line) {l : List α} {a : α} (ha : a ∈ l) :
      f a <:+: l.flatMap f := by
    obtain ⟨before, after, rfl⟩ := List.append_of_mem ha
    exact ⟨before.flatMap f, after.flatMap f, by simp⟩
  have hfirst {a b c : List Line} (h : a <:+: b) : a <:+: b ++ c :=
    h.trans (List.prefix_append b c).isInfix
  have hlast {a b c : List Line} (h : a <:+: c) : a <:+: b ++ c :=
    h.trans (List.suffix_append b c).isInfix
  -- the lists of helpers stand one after another, and each by the name of its own
  cases arch with
  | x86_64 =>
      rcases h with s | ⟨s, t⟩ | s | ⟨s, _ | _⟩ | _
      case redirector =>
        exact hfirst (hfirst (hfirst (hfirst (hfirst (hpart Boundary.x86Redirector hh)))))
      case accessor =>
        exact hfirst (hfirst (hfirst (hfirst (hlast
          (hpart (fun p : String × String => Boundary.x86Accessor p.1 p.2) hh)))))
      case gotEntry => exact hfirst (hfirst (hfirst (hlast (hpart Boundary.x86GotEntry hh))))
      case gotOffset.false => exact hfirst (hlast (hpart (Boundary.x86GotOffset false) hh))
      case gotOffset.true => exact hlast (hpart (Boundary.x86GotOffset true) hh)
      case gotDelta =>
        have hdelta : hs.gotDelta = true := hh
        refine hfirst (hfirst (hlast ?_))
        rw [if_pos hdelta]
        exact List.infix_rfl
  | aarch64 =>
      cases h with
      | redirector s => exact hfirst (hfirst (hpart Boundary.armRedirector hh))
      | accessor s t =>
          have h := hpart (fun p : String × String => Boundary.armAccessor p.1 p.2) hh
          rw [Helper.lines, Boundary.helperLines, Boundary.armHelpers]
          exact hfirst (hlast h)
      | gotEntry s => exact hlast (hpart Boundary.armGotEntry hh)
      | gotOffset s fromTable => exact List.nil_infix
      | gotDelta => exact List.nil_infix

/-- Nothing else is written. -/
lemma exists_of_mem_helperLines {arch : Arch} {hs : Helpers} {line : Line}
    (hl : line ∈ Boundary.helperLines arch hs) :
    ∃ h : Helper, hs.Holds h ∧ h.Known arch ∧ line ∈ h.lines arch := by
  cases arch with
  | x86_64 =>
      unfold Boundary.helperLines Boundary.x86Helpers at hl
      simp only [List.mem_append, List.mem_flatMap] at hl
      rcases hl with ((((⟨s, hs, hl⟩ | ⟨p, hp, hl⟩) | ⟨s, hs, hl⟩) | hl) | ⟨s, hs, hl⟩) |
        ⟨s, hs, hl⟩
      · exact ⟨.redirector s, hs, trivial, hl⟩
      · exact ⟨.accessor p.1 p.2, hp, trivial, hl⟩
      · exact ⟨.gotEntry s, hs, trivial, hl⟩
      · split at hl
        · next hdelta => exact ⟨.gotDelta, hdelta, trivial, hl⟩
        · cases hl
      · exact ⟨.gotOffset s false, hs, trivial, hl⟩
      · exact ⟨.gotOffset s true, hs, trivial, hl⟩
  | aarch64 =>
      unfold Boundary.helperLines Boundary.armHelpers at hl
      simp only [List.mem_append, List.mem_flatMap] at hl
      rcases hl with (⟨s, hs, hl⟩ | ⟨p, hp, hl⟩) | ⟨s, hs, hl⟩
      · exact ⟨.redirector s, hs, trivial, hl⟩
      · exact ⟨.accessor p.1 p.2, hp, trivial, hl⟩
      · exact ⟨.gotEntry s, hs, trivial, hl⟩

/-- The labels among the helpers of a module are the names of those that are there. -/
lemma exists_of_mem_labels {arch : Arch} {hs : Helpers} {name : String}
    (hn : name ∈ Line.labels (Boundary.helperLines arch hs)) :
    ∃ h : Helper, hs.Holds h ∧ h.Known arch ∧ name = h.name arch := by
  obtain ⟨h, hh, hknown, hline⟩ := exists_of_mem_helperLines (Line.mem_labels_iff.mp hn)
  refine ⟨h, hh, hknown, ?_⟩
  rw [← Line.mem_labels_iff, Helper.labels_lines hknown, List.mem_singleton] at hline
  exact hline

end Helpers

/-! ### Names that lines are made with -/

/-- The symbols that an operand mentions. -/
def Operand.Kind.symbols : Operand.Kind → List String
  | memory m => m.symbol.toList
  | immediate _ value => value.symbols
  | gotDistance anchor => [anchor]
  | gotOffset symbol _ => [symbol]
  | relocation r => [r.symbol]
  | indexed x =>
    match x.rest with
    | some (.relocation r) => [r.symbol]
    | _ => []
  | _ => []

/-- The symbols that the operands of an instruction mention. -/
def Instruction.symbols (insn : Instruction) : List String :=
  insn.operands.flatMap (·.kind.symbols)

lemma Instruction.mem_symbols {insn : Instruction} {o : Operand} {symbol : String}
    (ho : o ∈ insn.operands) (h : symbol ∈ o.kind.symbols) : symbol ∈ insn.symbols :=
  List.mem_flatMap.mpr ⟨o, ho, h⟩

lemma Operand.mem_symbols_of_memory {o : Operand} {m : MemoryRef} {symbol : String}
    (hkind : o.kind = .memory m) (hsymbol : m.symbol = some symbol) : symbol ∈ o.kind.symbols := by
  rw [hkind, Operand.Kind.symbols, hsymbol]
  exact List.mem_singleton.mpr rfl

/-- The symbols that an operand is put together with. -/
def Line.Operand.mentions : Line.Operand → List String
  | built o => o.kind.symbols
  | copied _ => []

/-- The symbols that the operands of a line are put together with. -/
def Line.mentions : Line → List String
  | instruction _ _ _ operands => operands.flatMap Operand.mentions
  | _ => []

/-- The symbols that lines in the place of a statement are put together with. -/
def Emission.mentions (e : Emission) : List String :=
  e.chunks.flatMap fun
    | .line l => l.mentions
    | _ => []

lemma Emission.mentions_replace (s : Statement) (lines : List Line) (helpers : List Helper) :
    (Emission.replace s lines helpers).mentions = lines.flatMap Line.mentions := by
  simp [Emission.mentions, Emission.replace, List.flatMap_map]

/-- The lines that are written, without the comments. -/
def Emission.lines (e : Emission) : List Line :=
  e.chunks.filterMap fun
    | .line line => some line
    | _ => none

@[simp] lemma Emission.lines_replace (s : Statement) (lines : List Line)
    (helpers : List Helper) : (Emission.replace s lines helpers).lines = lines := by
  rw [Emission.lines, Emission.replace, List.filterMap_cons_none rfl, List.filterMap_map]
  exact List.filterMap_some

/-- A name under which an operand of an instruction may be reached without leaving the
module. -/
def Scope.Reached (scope : Scope) (insn : Instruction) (name : String) : Prop :=
  ∃ o ∈ insn.operands, ∃ symbol ∈ o.kind.symbols,
    name = scope.inside symbol ∨ name = scope.localized symbol

/-- The name under which a symbol is reached: the alias of a symbol of the module, a local name as
it is written for its file, or the symbol itself. -/
lemma Scope.inside_cases (scope : Scope) (symbol : String) :
    scope.defines symbol = true ∧ scope.inside symbol = Symbol.localAlias symbol ∨
      Symbol.isDotLocal symbol = true ∧
        scope.inside symbol = Symbol.renamed symbol scope.index ∨
      scope.defines symbol = false ∧ Symbol.isDotLocal symbol = false ∧
        scope.inside symbol = symbol := by
  unfold inside inside?
  cases hdefines : scope.defines symbol with
  | true => exact .inl ⟨rfl, rfl⟩
  | false =>
      cases hlocal : Symbol.isDotLocal symbol with
      | true => exact .inr (.inl ⟨rfl, rfl⟩)
      | false =>
          refine .inr (.inr ⟨rfl, rfl, ?_⟩)
          cases Symbol.isSynthesized scope.marker symbol <;> rfl

/-- A branch goes to a name inside the module, or to a redirector that is asked for. -/
lemma Scope.branchTarget_fst (scope : Scope) (symbol : String) :
    (scope.branchTarget symbol).1 = scope.inside symbol ∨
      .redirector symbol ∈ (scope.branchTarget symbol).2 ∧
        (scope.branchTarget symbol).1 = Symbol.redirector symbol := by
  unfold branchTarget inside
  cases scope.inside? symbol with
  | some target => exact .inl rfl
  | none => exact .inr ⟨List.mem_cons_self, rfl⟩

/-- A branch goes to the helper that it asks for. -/
lemma Scope.branchTarget_fst_of_mem {scope : Scope} {symbol : String} {h : Helper}
    (hh : h ∈ (scope.branchTarget symbol).2) (arch : Arch) :
    (scope.branchTarget symbol).1 = h.name arch := by
  unfold branchTarget at hh ⊢
  cases hi : scope.inside? symbol with
  | some target =>
      rw [hi] at hh
      cases hh
  | none =>
      rw [hi] at hh
      rw [List.mem_singleton.mp hh]
      rfl

end Hermetic

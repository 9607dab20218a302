/-
A line feed at the end of an input.

The end of an input ends its last statement, and so should a line feed.

* `CodeModule.endLine`: a module with a line feed at the end of an input;
* `SameLive`: two texts have the same live statements, or neither is read;
* `AtEnd`: what is written up to the end of an input, and what is written after that;
* `Separated`: the output does not stand in the middle of a statement there, or what follows starts
  a line;
* `sealed_endLine`: the module with the line feed is sealed unless it has too many statements, and
  the two texts have the same live statements where the input is separated from what follows;
* `exists_endLine_differs`: a statement that is not ended runs into the first one of the next input.
-/
import Hermetic.Proofs.Module.LabelNames
import Hermetic.Proofs.Module.Separate
import Hermetic.Proofs.Sealing.LastLine

namespace Hermetic

open Statement (Kind LineAdded)

variable {arch : Arch}

/-! ### Inputs -/

/-- The input with a line feed at its end. -/
def Input.endLine (input : Input) : Input where
  path := input.path
  text := input.text ++ "\n"

/-- The module with a line feed at the end of an input. -/
def CodeModule.endLine (m : CodeModule) (n : ℕ) : CodeModule :=
  { m with inputs := m.inputs.modify n Input.endLine }

/-- The line feed does not tell an architecture. -/
lemma CodeModule.arch_endLine (m : CodeModule) (n : ℕ) : (m.endLine n).arch = m.arch := by
  obtain ⟨given, limits, marker, inputs, sourceBytes⟩ := m
  cases given with
  | some arch => rfl
  | none =>
      cases inputs with
      | nil => cases n <;> rfl
      | cons first inputs =>
          cases n with
          | zero =>
              simp only [arch, endLine, List.modify_zero_cons, Input.endLine, Arch.detect_line]
          | succ n => rfl

/-- A file, and the file with a line feed at the end of its text. -/
structure SourceFile.LineAdded (arch : Arch) (file file' : SourceFile) : Prop where
  index : file'.index = file.index
  statements : Statement.LineAdded arch file.statements file'.statements

/-- Inputs are read with a line feed at the end of one of them. -/
lemma ReadAs.exists_endLine {index n : ℕ} {inputs : List Input} {files : List SourceFile}
    (h : ReadAs arch index inputs files) (hn : n < inputs.length) :
    ∃ front file file' back, files = front ++ file :: back ∧ front.length = n ∧
      file.LineAdded arch file' ∧
        ReadAs arch index (inputs.modify n Input.endLine) (front ++ file' :: back) := by
  induction h generalizing n with
  | nil => cases hn
  | @cons index input inputs statements files hparse hread ih =>
      cases n with
      | zero =>
          obtain ⟨statements', hparse', hadded⟩ := Statement.exists_parse_line hparse
          refine ⟨[], _, ⟨input.path, index, statements'⟩, files, rfl, rfl, ⟨rfl, hadded⟩, ?_⟩
          exact @ReadAs.cons arch index input.endLine inputs statements' files hparse' hread
      | succ n =>
          obtain ⟨front, file, file', back, rfl, hlength, hadded, hread'⟩ :=
            ih (Nat.lt_of_succ_lt_succ hn)
          exact ⟨_ :: front, file, file', back, rfl, congrArg (· + 1) hlength, hadded,
            .cons hparse hread'⟩

/-! ### Files -/

namespace SourceFile.LineAdded

variable {file file' : SourceFile} {front back : List SourceFile}

lemma publicLabels_eq (h : file.LineAdded arch file') : file'.publicLabels = file.publicLabels :=
  h.statements.filterMap_eq
    (fun s t hkind => by rw [Statement.publicLabel?, Statement.publicLabel?, hkind])
    fun t hblank => by rw [Statement.publicLabel?, hblank]

lemma localLabels_eq (h : file.LineAdded arch file') : file'.localLabels = file.localLabels :=
  h.statements.filterMap_eq
    (fun s t hkind => by rw [Statement.localLabel?, Statement.localLabel?, hkind])
    fun t hblank => by rw [Statement.localLabel?, hblank]

/-- The line feed defines no names. -/
lemma ofFiles_eq_ok {symbols : SymbolTable} (h : file.LineAdded arch file')
    (hdefined : SymbolTable.ofFiles (front ++ file :: back) = .ok symbols) :
    SymbolTable.ofFiles (front ++ file' :: back) = .ok symbols := by
  have hnames : file'.statements.filterMap Statement.publicName? =
      file.statements.filterMap Statement.publicName? :=
    h.statements.filterMap_eq
      (fun s t hkind => by rw [Statement.publicName?, Statement.publicName?, hkind])
      fun t hblank => by rw [Statement.publicName?, hblank]
  have hfold (names : NameSet) (statements : List Statement) :
      statements.foldl SymbolTable.Scopes.addName names =
        (statements.filterMap Statement.publicName?).foldl (fun names name => names.insert name)
          names := by
    rw [List.foldl_filterMap]
    refine congrArg (fun f => statements.foldl f names) (funext₂ fun names s => ?_)
    rw [SymbolTable.Scopes.addName]
    cases s.publicName? <;> rfl
  obtain ⟨hpublics, hlocals, rfl⟩ := SymbolTable.ofFiles_eq_ok_iff.mp hdefined
  refine SymbolTable.ofFiles_eq_ok_iff.mpr ⟨?_, ?_, ?_⟩
  · rw [List.flatMap_append, List.flatMap_cons] at hpublics ⊢
    rwa [h.publicLabels_eq]
  · rw [List.forall_mem_append, List.forall_mem_cons] at hlocals ⊢
    rwa [h.localLabels_eq]
  · simp only [SymbolTable.ofNames, hfold, List.flatMap_append, List.flatMap_cons,
      List.filterMap_append, hnames]

/-- The line feed lists no source file. -/
lemma debugFile_eq (h : file.LineAdded arch file') :
    CodeModule.debugFile (front ++ file' :: back) =
      CodeModule.debugFile (front ++ file :: back) := by
  have hmap := h.statements.map_eq (f := CodeModule.fileNumber)
    fun s t hkind => by rw [CodeModule.fileNumber, CodeModule.fileNumber, hkind]
  simp only [CodeModule.debugFile, List.flatMap_append, List.flatMap_cons, List.map_append]
  rcases hmap with heq | ⟨t, hblank, heq⟩
  · rw [heq]
  · have hnumber : CodeModule.fileNumber t = (0, false) := by rw [CodeModule.fileNumber, hblank]
    rw [heq, hnumber]
    simp only [List.map_append, List.foldl_append, List.any_append, List.map_cons, List.map_nil,
      List.foldl_cons, List.foldl_nil, List.any_cons, List.any_nil, Nat.max_zero, Bool.or_false]

end SourceFile.LineAdded

/-! ### Texts -/

/-- Whether two texts have the same live statements, or neither is read. -/
def SameLive (arch : Arch) (text text' : String) : Prop :=
  (liveKinds arch text).toOption = (liveKinds arch text').toOption

instance {text text' : String} : Decidable (SameLive arch text text') :=
  inferInstanceAs (Decidable ((liveKinds arch text).toOption = (liveKinds arch text').toOption))

lemma SameLive.of_eq {text text' : String} (h : text = text') : SameLive arch text text' :=
  congrArg (fun t => (liveKinds arch t).toOption) h

/-- A text whose last line is ended is read exactly if it is made of statements. -/
lemma liveKinds_eq_ok_iff {text : String} {kinds : List Kind}
    (hline : text.toList.getLast? = some '\n') :
    liveKinds arch text = .ok kinds ↔ Says arch text.toList kinds := by
  refine ⟨fun h => ?_, liveKinds_of_says⟩
  obtain ⟨statements, hparse, rfl⟩ := Outcome.map_eq_ok_iff.mp h
  have hlisted := Statement.parse_eq_ok_iff.mp hparse
  exact ⟨_, (Statement.reads_of_listed hlisted (.inr hline)).1, rfl⟩

lemma sameLive_of_says_iff {text text' : String} (hline : text.toList.getLast? = some '\n')
    (hline' : text'.toList.getLast? = some '\n')
    (h : ∀ kinds, Says arch text'.toList kinds ↔ Says arch text.toList kinds) :
    SameLive arch text text' := by
  have hok (x : Except Error (List Kind)) (kinds : List Kind) :
      x.toOption = some kinds ↔ x = .ok kinds := by
    cases x <;> simp [Except.toOption]
  refine Option.ext fun kinds => ?_
  rw [hok, hok, liveKinds_eq_ok_iff hline, liveKinds_eq_ok_iff hline', h]

/-- What follows two texts does not hide that they are read differently. -/
lemma not_sameLive_append {l l' u : String} {kinds kinds' more : List Kind}
    (hline : l.toList.getLast? = some '\n') (hline' : l'.toList.getLast? = some '\n')
    (hl : liveKinds arch l = .ok kinds) (hl' : liveKinds arch l' = .ok kinds')
    (hu : Says arch u.toList more) (hne : kinds ≠ kinds') :
    ¬ SameLive arch (l ++ u) (l' ++ u) := by
  have hsays {t : String} {ks : List Kind} (hline : t.toList.getLast? = some '\n')
      (ht : liveKinds arch t = .ok ks) : liveKinds arch (t ++ u) = .ok (ks ++ more) := by
    refine liveKinds_of_says ?_
    rw [String.toList_append]
    exact ((liveKinds_eq_ok_iff hline).mp ht).append hu
  intro hsame
  rw [SameLive, hsays hline hl, hsays hline' hl'] at hsame
  exact hne (List.append_cancel_right (Option.some.inj hsame))

lemma exists_says_textAll {lines : List Line}
    (h : ∀ line ∈ lines, ∃ kinds, Says arch line.text.toList kinds) :
    ∃ kinds, Says arch (Line.textAll lines).toList kinds := by
  induction lines with
  | nil => exact ⟨[], .nil⟩
  | cons line lines ih =>
      obtain ⟨hline, hlines⟩ := List.forall_mem_cons.mp h
      obtain ⟨kinds, hkinds⟩ := hline
      obtain ⟨more, hmore⟩ := ih hlines
      refine ⟨kinds ++ more, ?_⟩
      rw [Line.textAll, List.map_cons, String.join_cons, String.toList_append]
      exact hkinds.append hmore

/-- After a text that is settled, a line feed makes no difference. -/
lemma Settled.sameLive {l u : String} (h : Settled arch l.toList)
    (hu : u.toList.getLast? = some '\n') : SameLive arch (l ++ u) (l ++ "\n" ++ u) := by
  have hne : u.toList ≠ [] := by
    intro hnil
    rw [hnil] at hu
    cases hu
  have hlast (t : String) : (t ++ u).toList.getLast? = some '\n' := by
    rw [String.toList_append, List.getLast?_append_of_ne_nil _ hne, hu]
  refine sameLive_of_says_iff (hlast l) (hlast _) fun kinds => ?_
  have htext : (l ++ "\n" ++ u).toList = l.toList ++ '\n' :: u.toList := by
    rw [String.toList_append, String.toList_append, List.append_assoc]
    rfl
  rw [htext, String.toList_append]
  exact h.says_iff hne

/-! ### Outputs -/

variable {o : Output} {rest : List Chunk} {b : Boundary} {helpers : Helpers}

/-- A module ends with a line feed. -/
lemma Boundary.getLast?_closing (b : Boundary) (helpers : Helpers) :
    (Line.textAll (b.closing helpers)).toList.getLast? = some '\n' := by
  have hlast : (b.closing helpers).getLast? = some (.plain ".byte" ["0x00"]) := by
    rw [closing, hashLines, List.getLast?_append, List.getLast?_append, List.getLast?_replicate]
    rfl
  obtain ⟨lines, hlines⟩ := List.getLast?_eq_some_iff.mp hlast
  rw [hlines, Line.textAll, List.map_append, String.join_append, String.toList_append]
  exact List.getLast?_append_of_ne_nil _ (by decide)

lemma sameLive_of_settled (h : Settled arch o.text.toList) :
    SameLive arch (b.finish helpers (o.addAll arch rest)).text
      (b.finish helpers ((o.put "\n").addAll arch rest)).text := by
  have hfinish : b.finish helpers ((o.put "\n").addAll arch rest) =
        b.finish helpers (o.addAll arch rest) ∨
      Output.EndAlike arch b helpers o (o.put "\n") rest :=
    Output.finish_put_newline_or_endAlike o rest
  rcases hfinish with heq | ⟨t, ht, ht'⟩
  · rw [heq]
    rfl
  · rw [ht, ht']
    refine h.sameLive ?_
    have hlast := b.getLast?_closing helpers
    have hne : (Line.textAll (b.closing helpers)).toList ≠ [] := by
      intro hnil
      rw [hnil] at hlast
      cases hlast
    rw [String.toList_append, List.getLast?_append_of_ne_nil _ hne, hlast]

/-- What was written before is separated from what follows: a line feed between them makes no
difference. -/
inductive Separated (arch : Arch) (o : Output) (rest : List Chunk) : Prop
  /-- A comment that quotes a statement follows, or the end of the module: they start a line. -/
  | line : o.atLineStart = false → (∀ c, rest.head? = some c → c.isQuoted = true) →
      Separated arch o rest
  /-- The output does not stand in the middle of a statement. -/
  | settled : Settled arch o.text.toList → Separated arch o rest
  /-- What follows is copied, and starts with a line feed. -/
  | fed {text : String} {more : List Chunk} : rest = .copied ("\n" ++ text) :: more →
      Settled arch (o.text.toList ++ ['\n']) → Separated arch o rest

lemma Separated.sameLive (h : Separated arch o rest) :
    SameLive arch (b.finish helpers (o.addAll arch rest)).text
      (b.finish helpers ((o.put "\n").addAll arch rest)).text := by
  cases h with
  | line hstart hnext =>
      rw [Output.finish_put_newline hstart hnext]
      rfl
  | settled hsettled => exact sameLive_of_settled hsettled
  | @fed text more hrest hsettled =>
      subst hrest
      rw [Alike.copied "\n" text o, Alike.copied "\n" text (o.put "\n")]
      have hput : Settled arch (o.put "\n").text.toList := by
        rw [Output.text_put, String.toList_append]
        exact hsettled
      exact @sameLive_of_settled arch (o.put "\n") (.copied text :: more) b helpers hput

/-- What is written for a file with one more line feed at its end is read alike, if the line feed
separates nothing. -/
lemma LineWritten.sameLive {statements : List Statement} {own : List Emission}
    {chunks lead tail : List Chunk} (h : LineWritten arch statements own chunks)
    (hseparated : ∀ before after, BreaksAt arch statements own before after →
      Separated arch (o.addAll arch (lead ++ before)) (after ++ tail)) :
    SameLive arch
      (b.finish helpers (o.addAll arch (lead ++ (own.flatMap (·.chunks) ++ tail)))).text
      (b.finish helpers (o.addAll arch (lead ++ (chunks ++ tail)))).text := by
  have hall {chunks' : List Chunk} (halike : Alike arch chunks chunks') :
      o.addAll arch (lead ++ (chunks ++ tail)) = o.addAll arch (lead ++ (chunks' ++ tail)) :=
    ((Alike.refl lead).append (halike.append (.refl tail))) o
  cases h with
  -- the line feed is gone, or part of a text that was there
  | same halike => exact .of_eq (by rw [hall halike])
  -- the line feed is a text of its own, between what is before it and what follows
  | @fed before after hbreaks halike =>
      have hapart : SameLive arch
          (b.finish helpers ((o.addAll arch (lead ++ before)).addAll arch (after ++ tail))).text
          (b.finish helpers
            (((o.addAll arch (lead ++ before)).put "\n").addAll arch (after ++ tail))).text :=
        (hseparated before after hbreaks).sameLive
      have hwithout : o.addAll arch (lead ++ (own.flatMap (·.chunks) ++ tail)) =
          (o.addAll arch (lead ++ before)).addAll arch (after ++ tail) := by
        rw [hbreaks.chunks_eq, ← Output.addAll_append, List.append_assoc, List.append_assoc]
      have hwith : o.addAll arch (lead ++ (chunks ++ tail)) =
          ((o.addAll arch (lead ++ before)).put "\n").addAll arch (after ++ tail) :=
        calc o.addAll arch (lead ++ (chunks ++ tail))
            = o.addAll arch (lead ++ ((before ++ .copied "\n" :: after) ++ tail)) := hall halike
          _ = o.addAll arch ((lead ++ before) ++ .copied "\n" :: (after ++ tail)) := by
                rw [List.append_assoc, List.append_assoc, List.cons_append]
          _ = (o.addAll arch (lead ++ before)).addAll arch (.copied "\n" :: (after ++ tail)) :=
                Output.addAll_append ..
      rwa [hwithout, hwith]

/-! ### Modules -/

namespace CodeModule

variable {m : CodeModule} {r : Sealed} {n : ℕ}

/-- What is written up to the end of an input, where a line feed at its end would be written, and
what is written after that. -/
inductive AtEnd (m : CodeModule) (r : Sealed) (n : ℕ) : Output → List Chunk → Prop
  | intro {front back : List SourceFile} {file : SourceFile} {symbols : SymbolTable}
      {first own last : List Emission} {before after : List Chunk} : front.length = n →
      SealedFrom m r (front ++ file :: back) symbols (first ++ (own ++ last)) →
      EmitsAll r.arch symbols m.marker front first →
      Emits r.arch ⟨symbols, m.marker, file.index⟩ false file.statements own →
      EmitsAll r.arch symbols m.marker back last →
      BreaksAt r.arch file.statements own before after →
        AtEnd m r n
          ((Boundary.begin ⟨r.arch, m.marker, debugFile (front ++ file :: back)⟩ {}).addAll r.arch
            (first.flatMap (·.chunks) ++ before))
          (after ++ last.flatMap (·.chunks))

/-- A module is sealed with a line feed at the end of an input, if it is read. -/
lemma SealedFrom.exists_sealed_endLine {front back : List SourceFile} {file file' : SourceFile}
    {symbols : SymbolTable} {emissions : List Emission}
    (h : SealedFrom m r (front ++ file :: back) symbols emissions)
    (hadded : file.LineAdded r.arch file')
    (hread : (m.endLine front.length).files r.arch = .ok (front ++ file' :: back)) :
    ∃ r', (m.endLine front.length).sealed = .ok r' ∧ r'.arch = r.arch ∧ r'.helpers = r.helpers ∧
      ((∀ o rest, AtEnd m r front.length o rest → Separated r.arch o rest) →
        SameLive r.arch r.text r'.text) := by
  obtain ⟨first, others, hfirst, hothers, rfl⟩ := h.emits.exists_of_append
  cases hothers with
  | @cons _ _ own last hown hlast =>
      -- only the emissions of the file itself are other ones, with the same helpers
      obtain ⟨own', hown', hhelpers, hwritten⟩ := hown.exists_line hadded.statements
      let boundary : Boundary := ⟨r.arch, m.marker, debugFile (front ++ file :: back)⟩
      let output (chunks : List Chunk) : Output :=
        boundary.finish r.helpers ((boundary.begin {}).addAll r.arch chunks)
      have htext (emissions : List Emission) :
          (boundary.finish r.helpers (({ output := boundary.begin {} } : Progress).addAll r.arch
            emissions).output).text = (output (emissions.flatMap (·.chunks))).text := by
        rw [Progress.output_addAll]
      let r' : Sealed := ⟨(output ((first ++ (own' ++ last)).flatMap (·.chunks))).text, r.arch,
        r.helpers⟩
      -- the new module is sealed from the same files but for this one
      have hfrom : SealedFrom (m.endLine front.length) r' (front ++ file' :: back) symbols
          (first ++ (own' ++ last)) := by
        refine ⟨(m.arch_endLine _).trans h.detected, hread, hadded.ofFiles_eq_ok h.defined,
          hfirst.append (.cons ?_ hlast), ?_, ?_⟩
        · rw [hadded.index]
          exact hown'
        · rw [h.requested]
          simp only [List.flatMap_append, hhelpers]
        · dsimp only
          rw [hadded.debugFile_eq]
          exact (htext _).symm
      refine ⟨r', hfrom.sealed_eq, rfl, rfl, fun hseparated => ?_⟩
      have hlive : SameLive r.arch (output ((first ++ (own ++ last)).flatMap (·.chunks))).text
          (output ((first ++ (own' ++ last)).flatMap (·.chunks))).text := by
        simp only [List.flatMap_append]
        exact hwritten.sameLive fun before after hbreaks =>
          hseparated _ _ (.intro rfl h hfirst hown hlast hbreaks)
      rwa [← htext, ← h.written] at hlive

/-- A module with a line feed at the end of an input is sealed, unless it has too many statements.
The helpers are the same, and so are the live statements where the input is separated from what
follows. -/
theorem sealed_endLine (h : m.sealed = .ok r) (hn : n < m.inputs.length) :
    ((m.endLine n).sealed = .error (.limitExceeded .statements m.limits.statements) ∧
        ∃ files, m.files r.arch = .ok files ∧
          (files.flatMap (·.statements)).length = m.limits.statements) ∨
      ∃ r', (m.endLine n).sealed = .ok r' ∧ r'.arch = r.arch ∧ r'.helpers = r.helpers ∧
        ((∀ o rest, AtEnd m r n o rest → Separated r.arch o rest) →
          SameLive r.arch r.text r'.text) := by
  obtain ⟨files, symbols, emissions, hfrom⟩ := exists_sealedFrom h
  obtain ⟨front, file, file', back, rfl, rfl, hadded, hread'⟩ :=
    (readAs_of_readFrom hfrom.read).exists_endLine hn
  -- the architecture is told by the first input, and a line feed does not change it
  have harch : (m.endLine front.length).arch = .ok r.arch :=
    (m.arch_endLine front.length).trans hfrom.detected
  have hfiles := readFrom_of_readAs hread' (Nat.zero_le m.limits.statements)
  split at hfiles
  · next hroom => exact .inr (hfrom.exists_sealed_endLine hadded hfiles)
  · next hfull =>
      refine .inl ⟨?_, _, hfrom.read, ?_⟩
      · rw [CodeModule.sealed, harch]
        dsimp only [bind, Except.bind]
        rw [show (m.endLine front.length).files r.arch = _ from hfiles]
      · -- one more statement is one too many only where there is no room for any
        have hle := length_le_of_readFrom hfrom.read (Nat.zero_le _)
        have hone := hadded.statements.length_le
        simp only [List.flatMap_append, List.flatMap_cons, List.length_append] at hle hfull ⊢
        omega

/-- A return without a line feed, and a call in the next file, which is quoted. -/
theorem sealed_endLine_call :
    let m := together ["\tret", "\tcall g@PLT\n"]
    ∃ r r', m.sealed = .ok r ∧ (m.endLine 0).sealed = .ok r' ∧ r'.helpers = r.helpers ∧
      SameLive r.arch r.text r'.text := by
  intro m
  let ret : Statement := ⟨.instruction { mnemonic := "ret" }, "\tret", ⟨1, 2, 1, 3⟩⟩
  let call : Statement := ⟨.instruction { mnemonic := "call", operands := [{
    text := "g@PLT", kind := .memory { symbol := some "g", tag := some "PLT" } }] },
    "\tcall g@PLT\n", ⟨1, 2, 1, 11⟩⟩
  let files : List SourceFile := [⟨"a.s", 0, [ret]⟩, ⟨"a.s", 1, [call]⟩]
  have hsealed : m.sealed.toOption.any (fun r => r.arch = .x86_64) = true := by decide +kernel
  have hread : (m.files .x86_64).toOption = some files := by decide +kernel
  obtain ⟨⟨text, arch, helpers⟩, hr, harch⟩ := Outcome.exists_of_any hsealed
  obtain rfl : arch = .x86_64 := of_decide_eq_true harch
  have hopen (o : Output) : (o.put "\tret").atLineStart = false := by
    have hlast : "\tret".toList.getLast? = some 't' := by decide
    rw [Output.put, Output.leavesLineStart, hlast]
    rfl
  -- at the end of the first file stands the return, and the first piece after it is a comment
  have hseparated : ∀ o rest, AtEnd m ⟨text, .x86_64, helpers⟩ 0 o rest →
      Separated .x86_64 o rest := by
    rintro o rest ⟨hlength, hfrom, hfirst, hown, hlast, hbreaks⟩
    obtain rfl := List.length_eq_zero_iff.mp hlength
    rw [hfrom.read] at hread
    obtain ⟨rfl, rfl⟩ := List.cons_eq_cons.mp (Option.some.inj hread)
    obtain rfl := (SymbolTable.ofFiles_eq_ok_iff.mp hfrom.defined).2.2
    have hret : ret.emission .x86_64 ⟨.ofNames files, m.marker, 0⟩ false = .ok (.copy ret) := rfl
    have hcall : (call.emission .x86_64 ⟨.ofNames files, m.marker, 1⟩ false).toOption.any
        (fun e => e.chunks.head?.any Chunk.isQuoted) = true := by decide +kernel
    obtain ⟨quote, hquote, hquoted⟩ := Outcome.exists_of_any hcall
    cases hfirst
    cases hown with
    | cons he hnil =>
        cases hnil
        obtain rfl := Except.ok.inj (hret.symm.trans he)
        cases hlast with
        | cons hsecond hnil =>
            cases hnil
            cases hsecond with
            | cons he hnil =>
                cases hnil
                obtain rfl := Except.ok.inj (hquote.symm.trans he)
                have hnext : ∀ c, quote.chunks.head? = some c → c.isQuoted = true := by
                  intro c hc
                  rwa [hc] at hquoted
                cases hbreaks with
                | copied _ hcopy =>
                    cases hcopy
                    refine .line (hopen _) ?_
                    simpa using hnext
                | cons _ hbreaks =>
                    cases hbreaks
                    refine .line (hopen _) ?_
                    simpa using hnext
  rcases sealed_endLine hr (n := 0) (by decide) with
    ⟨-, files', hfiles', hfull⟩ | ⟨r', hr', -, hhelpers, hlive⟩
  · rw [hfiles'] at hread
    obtain rfl := Option.some.inj hread
    exact absurd hfull (by decide)
  · exact ⟨_, r', hr, hr', hhelpers, hlive hseparated⟩

/-- A return without a line feed runs into the statement that is copied from the next file. -/
theorem exists_endLine_differs :
    let m := together ["\tret", "\tnop\n"]
    ∃ r r', m.sealed = .ok r ∧ (m.endLine 0).sealed = .ok r' ∧
      ¬ SameLive r.arch r.text r'.text := by
  intro m
  let boundary : Boundary := ⟨.x86_64, m.marker, none⟩
  let opening := Line.textAll boundary.opening
  let closing := Line.textAll (boundary.closing {})
  -- the two texts, and how many statements the start of each has
  have hsealed : m.sealed.toOption.any (fun r => r.arch = .x86_64 ∧
      r.text = opening ++ "\tret\tnop\n" ++ closing) = true := by decide +kernel
  have hsealed' : (m.endLine 0).sealed.toOption.any (fun r =>
      r.text = opening ++ "\tret\n\tnop\n" ++ closing) = true := by decide +kernel
  have hone : (liveKinds .x86_64 (opening ++ "\tret\tnop\n")).toOption.any
      (fun kinds => kinds.length = 3) = true := by decide +kernel
  have htwo : (liveKinds .x86_64 (opening ++ "\tret\n\tnop\n")).toOption.any
      (fun kinds => kinds.length = 4) = true := by decide +kernel
  have hclosing : (boundary.closing {}).all (fun line =>
      line.text.toList.getLast? = some '\n' ∧
        (liveKinds .x86_64 line.text).isOk = true) = true := by decide +kernel
  obtain ⟨r, hr, htext⟩ := Outcome.exists_of_any hsealed
  obtain ⟨r', hr', htext'⟩ := Outcome.exists_of_any hsealed'
  obtain ⟨harch, htext⟩ := of_decide_eq_true (p := _ ∧ _) htext
  obtain ⟨kinds, hkinds, hthree⟩ := Outcome.exists_of_any hone
  obtain ⟨kinds', hkinds', hfour⟩ := Outcome.exists_of_any htwo
  refine ⟨r, r', hr, hr', ?_⟩
  rw [harch, htext, of_decide_eq_true htext']
  have hsays : ∃ more, Says .x86_64 closing.toList more := exists_says_textAll fun line hline => by
    obtain ⟨hlast, hread⟩ :=
      of_decide_eq_true (p := _ ∧ _) (List.all_eq_true.mp hclosing line hline)
    cases hkinds : liveKinds .x86_64 line.text with
    | error e =>
        rw [hkinds] at hread
        cases hread
    | ok more => exact ⟨more, (liveKinds_eq_ok_iff hlast).mp hkinds⟩
  obtain ⟨more, hmore⟩ := hsays
  -- what follows is read alike, so that the number of statements differs
  refine not_sameLive_append (by decide +kernel) (by decide +kernel) hkinds hkinds' hmore ?_
  rintro rfl
  rw [of_decide_eq_true hthree] at hfour
  cases hfour

end CodeModule

end Hermetic

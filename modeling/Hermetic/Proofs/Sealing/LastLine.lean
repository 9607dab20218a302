/-
What is written for the statements of a text, with and without the line feed at its end.

* `BetweenStatements`, `Settled`: texts after which a line feed makes no difference, with
  `Settled.says_iff`;
* `Alike`: pieces that are written alike, whatever was written before;
* `Output.finish_put_newline`, `Output.finish_put_newline_or_endAlike`: a line feed in the output is
  put anyway, or it is one more;
* `BreaksAt`: where the line feed at the end of a file would be written;
* `Emits.exists_line`: what is written for a file with the line feed at its end.
-/
import Hermetic.Boundary
import Hermetic.Proofs.Module.Walk
import Hermetic.Proofs.Sealing.Statements
import Hermetic.Proofs.Statement.LastLine

namespace Hermetic

open Statement (Kind Same LineAdded Reads Shape)

variable {arch : Arch}

/-! ### Between statements -/

section Says

variable {l r : List Char} {kinds all : List Kind}

lemma says_append_iff (hl : Says arch l kinds) :
    Says arch (l ++ r) all ↔ ∃ more, all = kinds ++ more ∧ Says arch r more := by
  constructor
  · rintro ⟨read, hread, rfl⟩
    obtain ⟨first, hfirst, rfl⟩ := hl
    obtain ⟨rest, rfl, hrest⟩ := hfirst.exists_of_append hread
    exact ⟨rest.filter (·.isLive), List.filter_append .., rest, hrest, rfl⟩
  · rintro ⟨more, rfl, hmore⟩
    exact hl.append hmore

lemma says_spacing_append_iff (hl : Spacing l) (hr : r ≠ []) :
    Says arch (l ++ r) all ↔ Says arch r all :=
  exists_congr fun _ => and_congr_left fun _ => Statement.reads_spacing_append_iff hl hr

/-- Texts that are read as statements, perhaps with blanks and comments after them. -/
def BetweenStatements (arch : Arch) (l : List Char) : Prop :=
  ∃ front gap kinds, l = front ++ gap ∧ Says arch front kinds ∧ Spacing gap

/-- Between statements, a line feed makes no difference. -/
lemma BetweenStatements.says_iff (h : BetweenStatements arch l) (hr : r ≠ []) :
    Says arch (l ++ '\n' :: r) all ↔ Says arch (l ++ r) all := by
  obtain ⟨front, gap, kinds, rfl, hfront, hgap⟩ := h
  have hnewline {more : List Kind} : Says arch ('\n' :: r) more ↔ Says arch r more := by
    refine (says_append_iff says_newline).trans ⟨?_, fun h => ⟨more, rfl, h⟩⟩
    rintro ⟨_, rfl, h⟩
    exact h
  rw [List.append_assoc, List.append_assoc, says_append_iff hfront, says_append_iff hfront]
  refine exists_congr fun more => and_congr_right fun _ => ?_
  rw [says_spacing_append_iff hgap (List.cons_ne_nil _ _), says_spacing_append_iff hgap hr,
    hnewline]

/-- Texts that do not end in the middle of a statement: they are read as statements, or no text that
starts with them is. -/
def Settled (arch : Arch) (l : List Char) : Prop :=
  BetweenStatements arch l ∨ ∀ r kinds, ¬ Says arch (l ++ r) kinds

lemma Settled.says_iff (h : Settled arch l) (hr : r ≠ []) :
    Says arch (l ++ '\n' :: r) all ↔ Says arch (l ++ r) all := by
  rcases h with hbetween | hunread
  · exact hbetween.says_iff hr
  · exact iff_of_false (hunread _ _) (hunread _ _)

end Says

/-! ### Pieces that are written alike -/

/-- Pieces that are written alike, whatever was written before. -/
def Alike (arch : Arch) (chunks chunks' : List Chunk) : Prop :=
  ∀ o : Output, o.addAll arch chunks = o.addAll arch chunks'

lemma Output.addAll_append (o : Output) (chunks more : List Chunk) :
    o.addAll arch (chunks ++ more) = (o.addAll arch chunks).addAll arch more :=
  List.foldl_append

namespace Alike

variable {chunks chunks' more more' : List Chunk} {s t : Statement}

lemma refl (chunks : List Chunk) : Alike arch chunks chunks :=
  fun _ => rfl

lemma append (h : Alike arch chunks chunks') (h' : Alike arch more more') :
    Alike arch (chunks ++ more) (chunks' ++ more') := by
  intro o
  rw [Output.addAll_append, Output.addAll_append, h o, h' _]

/-- Statements on one line are quoted alike. -/
lemma quoted (h : s.oneLine = t.oneLine) : Alike arch (.quoted s :: more) (.quoted t :: more) := by
  intro o
  have hadd : o.add arch (.quoted s) = o.add arch (.quoted t) := by
    rw [Output.add, Output.add, h]
  change (o.add arch (.quoted s)).addAll arch more = (o.add arch (.quoted t)).addAll arch more
  rw [hadd]

/-- What is copied may be copied in two parts. -/
lemma copied (text text' : String) :
    Alike arch (.copied (text ++ text') :: more) (.copied text :: .copied text' :: more) := by
  intro o
  change (o.put (text ++ text')).addAll arch more = ((o.put text).put text').addAll arch more
  rw [Output.put_append]

end Alike

/-! ### A line feed in the output -/

namespace Output

variable {o p : Output} {chunks : List Chunk}

lemma atLineStart_put (h : p.atLineStart = o.atLineStart) (text : String) :
    (p.put text).atLineStart = (o.put text).atLineStart :=
  congrArg (leavesLineStart · text) h

lemma exists_freshLine (h : p.atLineStart = o.atLineStart) :
    ∃ t, o.freshLine.text = o.text ++ t ∧ p.freshLine.text = p.text ++ t ∧
      p.freshLine.atLineStart = o.freshLine.atLineStart := by
  rw [freshLine, freshLine, h]
  split
  · exact ⟨"", String.append_empty.symm, String.append_empty.symm, h⟩
  · exact ⟨"\n", rfl, rfl, atLineStart_put h _⟩

/-- To outputs that stand alike at the start of a line, or not, the same text is added. -/
lemma exists_add (h : p.atLineStart = o.atLineStart) (c : Chunk) :
    ∃ t, (o.add arch c).text = o.text ++ t ∧ (p.add arch c).text = p.text ++ t ∧
      (p.add arch c).atLineStart = (o.add arch c).atLineStart := by
  cases c with
  | copied text => exact ⟨text, rfl, rfl, atLineStart_put h _⟩
  | line l => exact ⟨l.text, rfl, rfl, atLineStart_put h _⟩
  | openLabel name => exact ⟨_, rfl, rfl, atLineStart_put h _⟩
  | quoted s =>
      obtain ⟨t, hot, hpt, hstart⟩ := exists_freshLine h
      refine ⟨t ++ (arch.leader ++ " WAS " ++ s.oneLine ++ "\n"), ?_, ?_, atLineStart_put hstart _⟩
      · rw [add, text_put, hot, String.append_assoc]
      · rw [add, text_put, hpt, String.append_assoc]

lemma exists_addAll (h : p.atLineStart = o.atLineStart) (chunks : List Chunk) :
    ∃ t, (o.addAll arch chunks).text = o.text ++ t ∧ (p.addAll arch chunks).text = p.text ++ t ∧
      (p.addAll arch chunks).atLineStart = (o.addAll arch chunks).atLineStart := by
  induction chunks generalizing o p with
  | nil => exact ⟨"", String.append_empty.symm, String.append_empty.symm, h⟩
  | cons c chunks ih =>
      obtain ⟨t, hot, hpt, hstart⟩ := exists_add h c
      obtain ⟨u, hou, hpu, hend⟩ := ih hstart
      refine ⟨t ++ u, hou.trans ?_, hpu.trans ?_, hend⟩
      · rw [hot, String.append_assoc]
      · rw [hpt, String.append_assoc]

/-- The same text is added to two outputs, and then the end of a module. -/
def EndAlike (arch : Arch) (b : Boundary) (helpers : Helpers) (o p : Output)
    (chunks : List Chunk) : Prop :=
  ∃ t, (b.finish helpers (o.addAll arch chunks)).text =
      o.text ++ (t ++ Line.textAll (b.closing helpers)) ∧
    (b.finish helpers (p.addAll arch chunks)).text =
      p.text ++ (t ++ Line.textAll (b.closing helpers))

variable {b : Boundary} {helpers : Helpers}

lemma endAlike (h : p.atLineStart = o.atLineStart) (chunks : List Chunk) :
    EndAlike arch b helpers o p chunks := by
  obtain ⟨t, hot, hpt, hend⟩ := exists_addAll h chunks
  obtain ⟨u, hou, hpu, -⟩ := exists_freshLine hend
  refine ⟨t ++ u, ?_, ?_⟩
  · rw [Boundary.finish, text_put, hou, hot, String.append_assoc, String.append_assoc,
      String.append_assoc]
  · rw [Boundary.finish, text_put, hpu, hpt, String.append_assoc, String.append_assoc,
      String.append_assoc]

lemma EndAlike.cons {c : Chunk} {text : String} (hc : ∀ q : Output, q.add arch c = q.put text)
    (h : EndAlike arch b helpers (o.put text) (p.put text) chunks) :
    EndAlike arch b helpers o p (c :: chunks) := by
  obtain ⟨t, hot, hpt⟩ := h
  have hadd (q : Output) : q.addAll arch (c :: chunks) = (q.put text).addAll arch chunks :=
    congrArg (fun q : Output => q.addAll arch chunks) (hc q)
  refine ⟨text ++ t, ?_, ?_⟩
  · rw [hadd, hot, text_put, String.append_assoc, String.append_assoc]
  · rw [hadd, hpt, text_put, String.append_assoc, String.append_assoc]

/-- Before a comment that quotes a statement, and at the end, a line feed is put anyway. -/
lemma finish_put_newline (hstart : o.atLineStart = false)
    (hnext : ∀ c, chunks.head? = some c → c.isQuoted = true) :
    b.finish helpers ((o.put "\n").addAll arch chunks) =
      b.finish helpers (o.addAll arch chunks) := by
  have hfresh : (o.put "\n").freshLine = o.freshLine := by
    rw [freshLine, freshLine, hstart]
    rfl
  cases chunks with
  | nil => exact congrArg (fun q : Output => q.put _) hfresh
  | cons c chunks =>
      cases c with
      | quoted s =>
          have hadd : (o.put "\n").add arch (.quoted s) = o.add arch (.quoted s) :=
            congrArg (fun q : Output => q.put _) hfresh
          change b.finish helpers (((o.put "\n").add arch (.quoted s)).addAll arch chunks) = _
          rw [hadd]
          rfl
      | copied | line | openLabel => cases hnext _ rfl

lemma put_empty (o : Output) : o.put "" = o := by
  rw [put, String.append_empty]
  rfl

/-- A line feed is put anyway, or it is one more, and the same text follows it. -/
lemma finish_put_newline_or_endAlike (o : Output) (chunks : List Chunk) :
    b.finish helpers ((o.put "\n").addAll arch chunks) =
        b.finish helpers (o.addAll arch chunks) ∨
      EndAlike arch b helpers o (o.put "\n") chunks := by
  induction chunks generalizing o with
  | nil =>
      cases hstart : o.atLineStart with
      | true => exact .inr (endAlike hstart.symm [])
      | false => exact .inl (finish_put_newline hstart (by simp))
  | cons c chunks ih =>
      cases hstart : o.atLineStart with
      | true => exact .inr (endAlike hstart.symm (c :: chunks))
      | false =>
          have hput (text : String) (hc : ∀ q : Output, q.add arch c = q.put text) :
              b.finish helpers ((o.put "\n").addAll arch (c :: chunks)) =
                  b.finish helpers (o.addAll arch (c :: chunks)) ∨
                EndAlike arch b helpers o (o.put "\n") (c :: chunks) := by
            cases hlast : text.toList.getLast? with
            | none =>
                -- a piece that is empty changes nothing
                obtain rfl : text = "" := by
                  rw [← String.toList_inj, List.getLast?_eq_none_iff.mp hlast]
                  rfl
                have hadd (q : Output) : q.addAll arch (c :: chunks) = q.addAll arch chunks := by
                  change (q.add arch c).addAll arch chunks = _
                  rw [hc, put_empty]
                rw [EndAlike, hadd, hadd]
                exact ih o
            | some ch =>
                have hsame : ((o.put "\n").put text).atLineStart = (o.put text).atLineStart := by
                  simp only [put, leavesLineStart, hlast]
                exact .inr (.cons hc (endAlike hsame chunks))
          cases c with
          | copied text => exact hput text fun _ => rfl
          | line l => exact hput l.text fun _ => rfl
          | openLabel name => exact hput _ fun _ => rfl
          | quoted s => exact .inl (finish_put_newline hstart (by rintro _ ⟨⟩; rfl))

end Output

/-! ### Statements -/

variable {scope : Scope} {s t : Statement} {e : Emission} {inBss : Bool}

/-- What is written for two statements of one kind: one is copied or quoted as the other is. -/
inductive Relined (s t : Statement) : Emission → Emission → Prop
  | copied {more : List Chunk} {helpers : List Helper} :
      Relined s t ⟨.copied s.text :: more, helpers⟩ ⟨.copied t.text :: more, helpers⟩
  | quoted {more : List Chunk} {helpers : List Helper} :
      Relined s t ⟨.quoted s :: more, helpers⟩ ⟨.quoted t :: more, helpers⟩

lemma Relined.copy : Relined s t (.copy s) (.copy t) :=
  .copied

lemma Relined.replace (lines : List Line) (helpers : List Helper) :
    Relined s t (.replace s lines helpers) (.replace t lines helpers) :=
  .quoted

lemma Relined.helpers_eq {e' : Emission} (h : Relined s t e e') : e'.helpers = e.helpers := by
  cases h <;> rfl

lemma X86.exists_relined {insn : Instruction} (h : X86.sealInstruction scope s insn = .ok e) :
    ∃ e', X86.sealInstruction scope t insn = .ok e' ∧ Relined s t e e' := by
  obtain ⟨changes, hchanges, h⟩ := Outcome.bind_eq_ok_iff.mp h
  split at h
  · next hany =>
      cases h
      exact ⟨_, Outcome.bind_eq_ok_iff.mpr ⟨changes, hchanges, if_pos hany⟩, .replace _ _⟩
  · next hany =>
      cases h
      exact ⟨_, Outcome.bind_eq_ok_iff.mpr ⟨changes, hchanges, if_neg hany⟩, .copy⟩

namespace Arm

variable {insn : Instruction}

lemma exists_relined_pageAddress (h : pageAddress scope s insn = .ok e) :
    ∃ e', pageAddress scope t insn = .ok e' ∧ Relined s t e e' := by
  unfold pageAddress at h ⊢
  split at h
  · next target source =>
      obtain ⟨register, hregister, h⟩ := Outcome.bind_eq_ok_iff.mp h
      simp only [hregister, bind, Except.bind]
      split at h
      · cases h
      · next symbol offset hsymbol =>
          split at h
          · next name hname =>
              cases h
              exact ⟨_, rfl, .replace _ _⟩
          · next hnone =>
              split at h
              · next hempty =>
                  cases h
                  rw [if_pos hempty]
                  exact ⟨_, rfl, .replace _ _⟩
              · cases h
  · cases h

lemma exists_relined_sealFrom {written : List Line.Operand} {changed : Bool}
    {helpers : List Helper} {i : ℕ} {os : List Operand}
    (h : sealFrom scope s insn written changed helpers i os = .ok e) :
    ∃ e', sealFrom scope t insn written changed helpers i os = .ok e' ∧ Relined s t e e' := by
  induction os generalizing i written changed helpers with
  | nil =>
      rw [sealFrom] at h ⊢
      cases h
      cases changed with
      | true => exact ⟨_, rfl, .replace _ _⟩
      | false => exact ⟨_, rfl, .copy⟩
  | cons o os ih =>
      rw [sealFrom] at h ⊢
      obtain ⟨change, hchange, h⟩ := Outcome.bind_eq_ok_iff.mp h
      simp only [hchange, bind, Except.bind]
      cases change with
      | replace lines =>
          cases h
          exact ⟨_, rfl, .replace _ _⟩
      | keep operand change more => exact ih h

lemma exists_relined (h : sealInstruction scope s insn = .ok e) :
    ∃ e', sealInstruction scope t insn = .ok e' ∧ Relined s t e e' := by
  unfold sealInstruction at h ⊢
  dsimp only at h ⊢
  split at h
  · next hfree =>
      cases h
      rw [if_pos hfree]
      exact ⟨_, rfl, .copy⟩
  · next hfree =>
      rw [if_neg hfree]
      split at h
      · next hpage =>
          rw [if_pos hpage]
          exact exists_relined_pageAddress h
      · next hpage =>
          rw [if_neg hpage]
          exact exists_relined_sealFrom h

end Arm

namespace Statement

lemma exists_relined_sealCommon {directive arguments : String}
    (h : sealCommon scope s directive arguments = .ok e) :
    ∃ e', sealCommon scope t directive arguments = .ok e' ∧ Relined s t e e' := by
  unfold sealCommon at h ⊢
  split at h
  · cases h
  · next p hp =>
      cases h
      refine ⟨_, rfl, ?_⟩
      dsimp only
      split
      · exact .copied
      · exact .replace _ _

lemma exists_relined_sealSection {arguments : String} (h : sealSection s arguments = .ok e) :
    ∃ e', sealSection t arguments = .ok e' ∧ Relined s t e e' := by
  unfold sealSection at h ⊢
  dsimp only at h ⊢
  split at h
  · cases h
  · next hrelocated =>
      rw [if_neg hrelocated]
      split at h
      · cases h
        exact ⟨_, rfl, .replace _ _⟩
      · cases h
        exact ⟨_, rfl, .replace _ _⟩
      · cases h
      · cases h
        exact ⟨_, rfl, .copy⟩

lemma exists_relined_sealDirective {directive arguments : String}
    (h : sealDirective scope s directive arguments = .ok e) :
    ∃ e', sealDirective scope t directive arguments = .ok e' ∧ Relined s t e e' := by
  unfold sealDirective at h ⊢
  dsimp only at h ⊢
  split at h
  · next hcommon =>
      rw [if_pos hcommon]
      exact exists_relined_sealCommon h
  · next hcommon =>
      rw [if_neg hcommon]
      split at h
      · cases h
      · next hdata =>
          rw [if_neg hdata]
          split at h
          · next hsection =>
              rw [if_pos hsection]
              exact exists_relined_sealSection h
          · next hsection =>
              cases h
              rw [if_neg hsection]
              exact ⟨_, rfl, .copy⟩

lemma relined_sealBinding (directive name : String) (value : Expr) :
    Relined s t (sealBinding scope s directive name value)
      (sealBinding scope t directive name value) := by
  unfold sealBinding
  dsimp only
  split
  · split
    · exact .copied
    · exact .quoted
  · split
    · exact .copy
    · exact .replace _ _

/-- What is written for a statement that is no label depends on its kind, but for the text that is
copied or quoted. -/
lemma exists_relined (hkind : t.kind = s.kind) (hlabel : ∀ label, s.kind ≠ .label label)
    (h : s.emission arch scope inBss = .ok e) :
    ∃ e', t.emission arch scope inBss = .ok e' ∧ Relined s t e e' := by
  -- by the kind, which both statements have
  have hcode (h : s.sealCode arch scope = .ok e) :
      ∃ e', t.sealCode arch scope = .ok e' ∧ Relined s t e e' := by
    unfold sealCode at h ⊢
    rw [hkind]
    cases hs : s.kind with
    | label label => exact absurd hs (hlabel label)
    | blank | comment | visibility | lineInfo =>
        rw [hs] at h
        cases h
        exact ⟨_, rfl, .copy⟩
    | symbolic directive arguments =>
        rw [hs] at h
        cases h
        refine ⟨_, rfl, ?_⟩
        unfold sealData
        dsimp only
        split
        · exact .copy
        · exact .replace _ _
    | binding directive name value =>
        rw [hs] at h
        cases h
        exact ⟨_, rfl, relined_sealBinding ..⟩
    | directive name arguments =>
        rw [hs] at h
        exact exists_relined_sealDirective h
    | instruction insn =>
        rw [hs] at h
        cases arch with
        | x86_64 => exact X86.exists_relined h
        | aarch64 => exact Arm.exists_relined h
  unfold emission at h ⊢
  rw [hkind]
  split at h
  · next hs => exact absurd hs (hlabel _)
  · cases h
  · next hbss hinsn => exact hcode h

/-- What is written for a label depends on its text. -/
lemma emission_of_label {label : Label} (hlabel : s.kind = .label label) (h : Same s t) :
    t.emission arch scope inBss = s.emission arch scope inBss := by
  unfold emission sealCode
  rw [h.kind, hlabel]
  cases label <;> cases inBss <;>
    simp only [sealLabel, sealBssLabel, Emission.copy, h.text]

/-- The same is written for statements that differ in their places only. -/
lemma exists_alike (hsame : Same s t) (h : s.emission arch scope inBss = .ok e) :
    ∃ e', t.emission arch scope inBss = .ok e' ∧ e'.helpers = e.helpers ∧
      Alike arch e'.chunks e.chunks := by
  by_cases hlabel : ∃ label, s.kind = .label label
  · obtain ⟨label, hlabel⟩ := hlabel
    exact ⟨e, (emission_of_label hlabel hsame).trans h, rfl, .refl _⟩
  · obtain ⟨e', he', hrelined⟩ := exists_relined hsame.kind (not_exists.mp hlabel) h
    refine ⟨e', he', hrelined.helpers_eq, ?_⟩
    cases hrelined with
    | copied =>
        rw [hsame.text]
        exact .refl _
    | quoted => exact .quoted (by rw [oneLine, oneLine, hsame.text])

lemma oneLine_append_newline (htext : t.text = s.text ++ "\n") : t.oneLine = s.oneLine := by
  have hlist : t.text.toList = s.text.toList ++ ['\n'] := by
    rw [htext]
    exact String.toList_append
  rw [oneLine, oneLine, hlist, Text.trim_append_newline]

/-- The line feed at the end of a statement is copied, or it plays no role. -/
lemma exists_longer (hshape : Shape arch t.text.toList s.kind) (hkind : t.kind = s.kind)
    (htext : t.text = s.text ++ "\n") (h : s.emission arch scope inBss = .ok e) :
    ∃ e', t.emission arch scope inBss = .ok e' ∧ e'.helpers = e.helpers ∧
      (Alike arch e'.chunks e.chunks ∨ ∃ more, e.chunks = .copied s.text :: more ∧
        Alike arch e'.chunks (.copied s.text :: .copied "\n" :: more)) := by
  have hlabel (label : Label) : s.kind ≠ .label label := by
    intro hlabel
    rw [hlabel] at hshape
    have hlast := hshape.getLast?_of_label
    rw [htext, String.toList_append, List.getLast?_append_of_ne_nil _ (by decide)] at hlast
    exact absurd hlast (by decide)
  obtain ⟨e', he', hrelined⟩ := exists_relined hkind hlabel h
  refine ⟨e', he', hrelined.helpers_eq, ?_⟩
  cases hrelined with
  | copied =>
      refine .inr ⟨_, rfl, ?_⟩
      rw [htext]
      exact .copied _ _
  | quoted => exact .inl (.quoted (oneLine_append_newline htext))

end Statement

/-! ### Files -/

/-- What is written for the statements of a file up to where a line feed at its end would be
written, and what is written for its last statement after that. -/
inductive BreaksAt (arch : Arch) :
    List Statement → List Emission → List Chunk → List Chunk → Prop
  | nil : BreaksAt arch [] [] [] []
  | copied {s : Statement} {e : Emission} {more : List Chunk} :
      ¬ Shape arch s.text.toList s.kind → e.chunks = .copied s.text :: more →
        BreaksAt arch [s] [e] [.copied s.text] more
  | cons {s : Statement} {e : Emission} {statements : List Statement} {emissions : List Emission}
      {front more : List Chunk} : Shape arch s.text.toList s.kind →
      BreaksAt arch statements emissions front more →
        BreaksAt arch (s :: statements) (e :: emissions) (e.chunks ++ front) more

lemma BreaksAt.chunks_eq {statements : List Statement} {emissions : List Emission}
    {front more : List Chunk} (h : BreaksAt arch statements emissions front more) :
    emissions.flatMap (·.chunks) = front ++ more := by
  induction h with
  | nil => rfl
  | copied _ he => rw [List.flatMap_singleton, he, List.singleton_append]
  | cons _ _ ih => rw [List.flatMap_cons, ih, List.append_assoc]

/-- What is written for a file with one more line feed at its end: the same, or a line feed more. -/
inductive LineWritten (arch : Arch) (statements : List Statement) (emissions : List Emission)
    (chunks : List Chunk) : Prop
  | same : Alike arch chunks (emissions.flatMap (·.chunks)) →
      LineWritten arch statements emissions chunks
  | fed {front more : List Chunk} : BreaksAt arch statements emissions front more →
      Alike arch chunks (front ++ .copied "\n" :: more) →
        LineWritten arch statements emissions chunks

/-- Something is written for a file with one more line feed at its end. -/
lemma Emits.exists_line {statements statements' : List Statement} {emissions : List Emission}
    (h : Emits arch scope inBss statements emissions)
    (hadded : LineAdded arch statements statements') :
    ∃ emissions', Emits arch scope inBss statements' emissions' ∧
      emissions'.flatMap (·.helpers) = emissions.flatMap (·.helpers) ∧
      LineWritten arch statements emissions (emissions'.flatMap (·.chunks)) := by
  -- along the statements in front, up to the last one
  induction hadded generalizing inBss emissions with
  | @blank t hkind htext =>
      cases h
      have hcopy : t.emission arch scope inBss = .ok (.copy t) := by
        unfold Statement.emission Statement.sealCode
        rw [hkind]
        cases inBss <;> rfl
      refine ⟨[.copy t], .cons hcopy .nil, rfl, .fed .nil ?_⟩
      change Alike arch [.copied t.text] [.copied "\n"]
      rw [htext]
      exact .refl _
  -- the line feed ends the last statement, or becomes part of what is copied of it
  | @longer s t hopen hshape hkind htext =>
      cases h with
      | cons he hnil =>
          cases hnil
          obtain ⟨e', he', hhelpers, hchunks⟩ := Statement.exists_longer hshape hkind htext he
          refine ⟨[e'], .cons he' .nil, ?_, ?_⟩
          · rw [List.flatMap_singleton, List.flatMap_singleton, hhelpers]
          · rw [List.flatMap_singleton]
            rcases hchunks with halike | ⟨more, hcopied, halike⟩
            · refine .same ?_
              rwa [List.flatMap_singleton]
            · exact .fed (.copied hopen hcopied) halike
  | @cons s t ss ts hshape hsame _ ih =>
      cases h with
      | cons he hrest =>
          obtain ⟨e', he', hhelpers, halike⟩ := Statement.exists_alike hsame he
          have hbss : Statement.bssAfter inBss t = Statement.bssAfter inBss s := by
            rw [Statement.bssAfter, Statement.bssAfter, hsame.kind]
          obtain ⟨emissions', hemits, hall, hwritten⟩ := ih hrest
          refine ⟨e' :: emissions', .cons he' (hbss ▸ hemits), ?_, ?_⟩
          · rw [List.flatMap_cons, List.flatMap_cons, hhelpers, hall]
          · rw [List.flatMap_cons]
            cases hwritten with
            | same h =>
                refine .same ?_
                rw [List.flatMap_cons]
                exact halike.append h
            | fed hbreaks h =>
                refine .fed (.cons hshape hbreaks) ?_
                rw [List.append_assoc]
                exact halike.append h

end Hermetic

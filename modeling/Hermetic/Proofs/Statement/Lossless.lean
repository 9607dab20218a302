/-
Statements keep their text and know their place.

* `Begins`: a statement with its spacing, and where it begins, told by the text before it;
* `begins_of_ofCursor`: this holds of every statement that is read;
* `parse_lossless`: the texts of the statements of a text make up the text, and each statement
  begins where its span says.
-/
import Hermetic.Proofs.Source.Spacing
import Hermetic.Proofs.Statement.Listing

namespace Hermetic.Statement

open Cursor Text

/-- A statement that follows `before` in a text.  Its text starts with the spacing `lead`, after
which its span begins, and they end together. -/
structure Begins (before lead : List Char) (s : Statement) : Prop where
  spacing : Spacing lead
  text : ∃ body, s.text.toList = lead ++ body
  offset : s.span.offset = byteLength (before ++ lead)
  stop : s.span.offset + s.span.len = byteLength (before ++ s.text.toList)
  line : s.span.line = 1 + (before ++ lead).count '\n'
  column : s.span.col = 1 + byteLength (lastLine (before ++ lead))

variable {arch : Arch}

/-- What follows the spacing before a statement lies further on. -/
lemma reaches_of_kindAt {c d : Cursor Char} {kind : Kind}
    (h : kindAt arch c = .ok (kind, d)) : c.Reaches d := by
  by_cases hc : c.rest = []
  · have hn : c.next? = none := by simp [next?, hc]
    simp only [kindAt, hn, Except.ok.injEq, Prod.mk.injEq] at h
    exact h.2 ▸ Reaches.refl c
  · exact (reaches_bump c).trans (bump_reaches_of_kindAt hc h)

/-- The parts of a statement that is read: spacing, and what follows it. -/
lemma ofCursor_eq_ok {c d : Cursor Char} {s : Statement} (h : ofCursor arch c = .ok (s, d)) :
    ∃ start lead body, Spacing lead ∧ c.Between lead start ∧ AtWord start.rest ∧
      start.Between body d ∧ kindAt arch start = .ok (s.kind, d) ∧
      s.text = String.ofList (lead ++ body) ∧ s.span = start.spanTo d := by
  obtain ⟨⟨_, start⟩, hs, h⟩ := Outcome.bind_eq_ok_iff.mp h
  obtain ⟨⟨kind, stop⟩, hk, h⟩ := Outcome.bind_eq_ok_iff.mp h
  cases h
  obtain ⟨lead, hlead, hstart, hword⟩ := spacing_of_skipSpace (settle_eq_ok_iff.mp hs)
  obtain ⟨body, hbody⟩ := (reaches_of_kindAt hk).between
  exact ⟨start, lead, body, hlead, hstart, hword, hbody, hk, (hstart.trans hbody).textTo_eq, rfl⟩

/-- A statement that is read is the text between two cursors. -/
lemma between_of_ofCursor {c d : Cursor Char} {s : Statement}
    (h : ofCursor arch c = .ok (s, d)) : c.Between s.text.toList d := by
  obtain ⟨start, lead, body, -, hstart, -, hbody, -, htext, -⟩ := ofCursor_eq_ok h
  rw [htext, String.toList_ofList]
  exact hstart.trans hbody

/-- A statement that is read begins where its span says. -/
lemma begins_of_ofCursor {before whole : List Char} {c d : Cursor Char} {s : Statement}
    (hbefore : Between ⟨whole, {}⟩ before c) (h : ofCursor arch c = .ok (s, d)) :
    ∃ lead, Begins before lead s := by
  obtain ⟨start, lead, body, hlead, hstart, -, hbody, -, htext, hspan⟩ := ofCursor_eq_ok h
  have hpos : start.position = Position.after {} (before ++ lead) :=
    (hbefore.trans hstart).position
  have hoffset : start.position.offset = byteLength (before ++ lead) := by
    rw [hpos, Position.offset_after]
    exact Nat.zero_add _
  have hlen : s.span.len = byteLength body := by rw [hspan, hbody.len_spanTo]
  have hfirst : s.span.offset = byteLength (before ++ lead) := by
    rw [hspan]
    exact hoffset
  refine ⟨lead, hlead, ⟨body, by rw [htext, String.toList_ofList]⟩, hfirst, ?_, ?_, ?_⟩
  · rw [hfirst, hlen, htext, String.toList_ofList, ← List.append_assoc,
      byteLength_append (before ++ lead)]
  · rw [hspan]
    change start.position.line = _
    rw [hpos, Position.line_after]
  · rw [hspan]
    change start.position.offset - start.position.lineStart + 1 = _
    rw [hpos, Position.offset_after_sub_lineStart, Nat.add_comm]

/-- Listed statements make up the text that is left, and begin where their spans say. -/
lemma lossless_of_listed {before whole : List Char} {c : Cursor Char}
    {statements : List Statement} (hbefore : Between ⟨whole, {}⟩ before c)
    (h : Listed arch c statements) :
    statements.flatMap (·.text.toList) = c.rest ∧
      ∀ i s, statements[i]? = some s → s.text ≠ "" ∧
        ∃ lead, Begins (before ++ (statements.take i).flatMap (·.text.toList)) lead s := by
  -- along the statements, with the text in front of them
  induction h generalizing before with
  | nil hc => exact ⟨hc.symm, fun i s hi => by simp at hi⟩
  | @cons c d s statements hc hs _ ih =>
      have hbetween := between_of_ofCursor hs
      obtain ⟨htext, hrest⟩ := ih (hbefore.trans hbetween)
      refine ⟨by rw [List.flatMap_cons, htext, hbetween.rest], fun i t hi => ?_⟩
      cases i with
      | zero =>
          cases hi
          refine ⟨fun hempty => ?_, ?_⟩
          · have hlt := length_lt_of_ofCursor hc hs
            rw [hbetween.rest, hempty] at hlt
            exact Nat.lt_irrefl _ hlt
          · rw [List.take_zero, List.flatMap_nil, List.append_nil]
            exact begins_of_ofCursor hbefore hs
      | succ i =>
          rw [List.take_succ_cons, List.flatMap_cons, ← List.append_assoc]
          exact hrest i t hi

/-- The texts of the statements of a text make up the text, none of them is empty, and each
statement begins, after blanks and block comments, where its span says. -/
theorem parse_lossless {text : String} {statements : List Statement}
    (h : parse arch text = .ok statements) :
    String.join (statements.map Statement.text) = text ∧
      ∀ i s, statements[i]? = some s → s.text ≠ "" ∧
        ∃ lead, Begins ((statements.take i).flatMap (·.text.toList)) lead s := by
  have hstart : Between ⟨(ofString text : Cursor Char).rest, {}⟩ [] (ofString text) :=
    Between.refl _
  obtain ⟨htext, hplace⟩ := lossless_of_listed hstart (parse_eq_ok_iff.mp h)
  refine ⟨?_, hplace⟩
  rw [← String.toList_inj, String.toList_join, List.flatMap_map, htext]
  rfl

/-- A label, and an instruction after a comment. -/
theorem parse_lossless_comment : ∃ statements,
    parse .x86_64 "a:\n/* b\n */ ret\n" = .ok statements ∧
      String.join (statements.map Statement.text) = "a:\n/* b\n */ ret\n" ∧
        ∀ i s, statements[i]? = some s → s.text ≠ "" ∧
          ∃ lead, Begins ((statements.take i).flatMap (·.text.toList)) lead s := by
  have hok : (parse .x86_64 "a:\n/* b\n */ ret\n").isOk = true := by decide +kernel
  cases h : parse .x86_64 "a:\n/* b\n */ ret\n" with
  | error e =>
      rw [h] at hok
      cases hok
  | ok statements => exact ⟨statements, rfl, parse_lossless h⟩

end Hermetic.Statement

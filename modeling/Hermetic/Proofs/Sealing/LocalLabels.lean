/-
Local labels, and what is written for them.

A local label is written with its name for the file.  The name is exchanged where it occurs first
in the text of the statement, which starts with the blanks and comments before the label.

* `Statement.shape_of_label`: a label that is read is spelled as one, whatever the text ends with;
* `Statement.emission_dotLocal`: what is written is the label with its new name, after the same
  blanks and comments, if these do not mention the name;
* `Statement.exists_label_not_renamed`: the label keeps its name if a comment before it has the
  name.
-/
import Hermetic.Proofs.Sealing.Statements
import Hermetic.Proofs.Statement.Lossless
import Hermetic.Proofs.Statement.Operands

namespace Hermetic.Statement

variable {arch : Arch}

/-! ### Labels that are read -/

/-- A label is read after its name and a colon. -/
lemma body_of_label {c d : Cursor Char} {label : Label}
    (h : kindAt arch c = .ok (.label label, d)) :
    ∃ l, Body arch l (.label label) ∧ c.Between l d := by
  rcases kindAt_eq_ok h with h | h | ⟨label', h, hlabel⟩ | ⟨stop, h | h⟩
  · cases h
  · cases h
  · cases h
    obtain ⟨name, hname, rfl, hbetween⟩ := labelName_of_label? hlabel
    exact ⟨_, .label hname, hbetween⟩
  · obtain ⟨name, args, hkind⟩ := exists_directiveKind_of_directive h
    cases isDirective_of_directiveKind hkind
  · obtain ⟨insn, hinsn, -⟩ := exists_operand_of_instruction h
    cases hinsn

/-- A label that is read is spelled as one: no more of the text is needed to tell. -/
lemma shape_of_label {text : String} {statements : List Statement} {s : Statement} {label : Label}
    (h : parse arch text = .ok statements) (hs : s ∈ statements) (hkind : s.kind = .label label) :
    Shape arch s.text.toList (.label label) := by
  obtain ⟨c, d, hread⟩ := (parse_eq_ok_iff.mp h).exists_ofCursor hs
  obtain ⟨start, lead, body, hlead, -, -, hbody, hat, htext, -⟩ := ofCursor_eq_ok hread
  rw [hkind] at hat
  obtain ⟨body', hbody', hbetween⟩ := body_of_label hat
  obtain rfl : body = body' := List.append_cancel_right (hbody.rest.symm.trans hbetween.rest)
  rw [htext, String.toList_ofList]
  exact ⟨lead, body, hlead, hbody', rfl⟩

/-! ### Labels that are written -/

/-- The text of a local label after some blanks and comments. -/
def labelText (lead : List Char) (name : String) : String :=
  String.ofList (lead ++ (name.toList ++ [':']))

lemma labelText_injective {lead lead' : List Char} {name : String}
    (h : labelText lead name = labelText lead' name) : lead = lead' :=
  List.append_cancel_right (String.ofList_injective h)

/-- The name of a local label is exchanged if the blanks and comments before it do not mention it,
or if it keeps its name. -/
lemma replaceFirst_labelText {lead : List Char} {name : String} (hlead : Spacing lead)
    (hname : IsName name) {index : ℕ} (hclear : index = 0 ∨ ¬ name.toList <:+: lead) :
    Text.replaceFirst name (Symbol.renamed name index) (labelText lead name) =
      labelText lead (Symbol.renamed name index) := by
  rw [← String.toList_inj, labelText, labelText, String.toList_ofList]
  rcases toList_replaceFirst_label (Symbol.renamed name index) hlead hname
    String.toList_ofList with ⟨-, hput⟩ | ⟨-, a, c, hsplit, hput⟩
  · exact hput
  · rcases hclear with rfl | hclear
    · rw [hput, Symbol.renamed_zero, hsplit, List.append_assoc (a ++ name.toList)]
    · exact (hclear ⟨a, c, hsplit.symm⟩).elim

lemma emission_of_dotLocal {s : Statement} {name : String} {scope : Scope} {inBss : Bool}
    (hkind : s.kind = .label (.dotLocal name)) :
    emission arch scope inBss s = .ok (sealLabel scope s (.dotLocal name)) := by
  rw [emission.eq_def, hkind]
  cases inBss <;> simp only [sealCode, hkind]

/-- What is written for a local label is one statement, the label with its name for the file, after
the same blanks and comments: if it is in the first file, or if these do not mention its name. -/
theorem emission_dotLocal {text : String} {statements : List Statement} {s : Statement}
    {name : String} (h : parse arch text = .ok statements) (hs : s ∈ statements)
    (hkind : s.kind = .label (.dotLocal name)) (scope : Scope) (inBss : Bool) :
    ∃ lead, Spacing lead ∧ s.text = labelText lead name ∧
      (scope.index = 0 ∨ ¬ name.toList <:+: lead →
        emission arch scope inBss s =
            .ok { chunks := [.copied (labelText lead (Symbol.renamed name scope.index))] } ∧
          ∃ t, parse arch (labelText lead (Symbol.renamed name scope.index)) = .ok [t] ∧
            t.kind = .label (.dotLocal (Symbol.renamed name scope.index))) := by
  obtain ⟨lead, hlead, hname, hlocal, htext⟩ :=
    exists_of_shape_dotLocal (shape_of_label h hs hkind)
  have hlabel : s.text = labelText lead name := by
    rw [labelText, ← htext, String.ofList_toList]
  refine ⟨lead, hlead, hlabel, fun hclear => ⟨?_, ?_⟩⟩
  · rw [emission_of_dotLocal hkind, sealLabel, hlabel, replaceFirst_labelText hlead hname hclear]
  · have hshape : Shape arch (labelText lead (Symbol.renamed name scope.index)).toList
        (.label (.dotLocal (Symbol.renamed name scope.index))) := by
      rw [labelText, String.toList_ofList]
      exact shape_dotLocal hlead (Symbol.isName_renamed hname _)
        (Symbol.isDotLocal_renamed hlocal _)
    exact exists_parse_of_shape hshape

/-- The second file of a module without symbols. -/
def secondScope : Scope where
  symbols := ⟨.empty⟩
  marker := Symbol.defaultMarker
  index := 1

/-- A text is read as one statement, a local label. -/
def IsLabel (text name : String) (s : Statement) : Prop :=
  parse .x86_64 text = .ok [s] ∧ s.text = text ∧ s.kind = .label (.dotLocal name)

lemma exists_isLabel (text name : String)
    (h : (parse .x86_64 text).toOption.any (fun statements =>
      statements.map (fun s => (s.text, s.kind)) = [(text, .label (.dotLocal name))]) = true) :
    ∃ s, IsLabel text name s := by
  cases hparse : parse .x86_64 text with
  | error e =>
      rw [hparse] at h
      cases h
  | ok statements =>
      rw [hparse] at h
      have hmap := of_decide_eq_true h
      obtain ⟨s, rfl⟩ := List.length_eq_one_iff.mp (by simpa using congrArg List.length hmap)
      obtain ⟨htext, hkind⟩ := Prod.mk.inj (List.head_eq_of_cons_eq hmap)
      exact ⟨s, hparse, htext, hkind⟩

/-- A label of a second file, after a comment. -/
theorem emission_dotLocal_comment : ∃ s t,
    IsLabel (labelText "/* a */ ".toList ".L1") ".L1" s ∧
      emission .x86_64 secondScope false s =
        .ok { chunks := [.copied (labelText "/* a */ ".toList ".L1_BCM_1")] } ∧
      parse .x86_64 (labelText "/* a */ ".toList ".L1_BCM_1") = .ok [t] ∧
      t.kind = .label (.dotLocal ".L1_BCM_1") := by
  obtain ⟨s, hs⟩ := exists_isLabel (labelText "/* a */ ".toList ".L1") ".L1" (by decide +kernel)
  have ⟨hparse, htext, hkind⟩ := hs
  obtain ⟨lead, -, hlabel, hwritten⟩ :=
    emission_dotLocal hparse List.mem_cons_self hkind secondScope false
  obtain rfl : lead = "/* a */ ".toList := labelText_injective (hlabel.symm.trans htext)
  have hclear : ¬ ".L1".toList <:+: "/* a */ ".toList := by decide +kernel
  obtain ⟨hemission, t, ht, htkind⟩ := hwritten (.inr hclear)
  exact ⟨s, t, hs, hemission, ht, htkind⟩

/-- A label of a second file whose name stands in a comment before it: the comment is changed, and
the label keeps its name. -/
theorem exists_label_not_renamed : ∃ s t,
    IsLabel (labelText "/* .L1 */ ".toList ".L1") ".L1" s ∧
      emission .x86_64 secondScope false s =
        .ok { chunks := [.copied (labelText "/* .L1_BCM_1 */ ".toList ".L1")] } ∧
      parse .x86_64 (labelText "/* .L1_BCM_1 */ ".toList ".L1") = .ok [t] ∧
      t.kind ≠ .label (.dotLocal (Symbol.renamed ".L1" secondScope.index)) := by
  obtain ⟨s, hs⟩ := exists_isLabel (labelText "/* .L1 */ ".toList ".L1") ".L1" (by decide +kernel)
  obtain ⟨t, ht⟩ := exists_isLabel (labelText "/* .L1_BCM_1 */ ".toList ".L1") ".L1"
    (by decide +kernel)
  have hput : Text.replaceFirst ".L1" (Symbol.renamed ".L1" secondScope.index)
      (labelText "/* .L1 */ ".toList ".L1") = labelText "/* .L1_BCM_1 */ ".toList ".L1" := by
    decide +kernel
  refine ⟨s, t, hs, ?_, ht.1, ?_⟩
  · rw [emission_of_dotLocal hs.2.2, sealLabel, hs.2.1, hput]
  · rw [ht.2.2]
    decide +kernel

end Hermetic.Statement

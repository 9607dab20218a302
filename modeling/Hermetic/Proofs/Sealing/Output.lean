/-
What is added to an output, statement by statement.

* `Statement.Kind.isLive`: the kinds of statement that are no blanks and no comments;
* `Says`: the live statements of a text, by their kinds;
* `Chunk.Adds`, `AddsAll`: the live statements that pieces add, whatever was written before;
* `Writes`: the live statements that pieces write, with `Writes.addsAll`: they are added, and
  `Writes.filter`: the comments that quote statements play no role.
-/
import Hermetic.Emission
import Hermetic.Proofs.Statement.Lines

namespace Hermetic

open Statement (Kind Reads)

/-! ### Live statements -/

/-- Whether statements of a kind do anything: blanks and comments do not. -/
def Statement.Kind.isLive : Kind → Bool
  | blank | comment => false
  | _ => true

/-- The live statements of a text, by their kinds. -/
def Says (arch : Arch) (l : List Char) (kinds : List Kind) : Prop :=
  ∃ all, Reads arch l all ∧ all.filter (·.isLive) = kinds

variable {arch : Arch} {l r : List Char} {kinds more : List Kind}

lemma Says.nil : Says arch [] [] :=
  ⟨[], .nil, rfl⟩

lemma Says.append (hl : Says arch l kinds) (hr : Says arch r more) :
    Says arch (l ++ r) (kinds ++ more) := by
  obtain ⟨all, hall, rfl⟩ := hl
  obtain ⟨all', hall', rfl⟩ := hr
  exact ⟨all ++ all', hall.append hall', List.filter_append ..⟩

lemma says_newline : Says arch ['\n'] [] :=
  ⟨_, .single Statement.shape_newline, rfl⟩

lemma startsComment_leader : StartsComment arch true arch.leader.toList := by
  cases arch
  · exact .inl ⟨rfl, .inl rfl⟩
  · exact .inr ⟨rfl, rfl⟩

lemma says_comment (h : '\n' ∉ l) : Says arch (arch.leader.toList ++ (l ++ ['\n'])) [] :=
  ⟨_, .single (Statement.shape_comment startsComment_leader h), rfl⟩

/-! ### Pieces -/

/-- The live statements that a piece adds, whatever was written before. -/
def Chunk.Adds (arch : Arch) (c : Chunk) (kinds : List Kind) : Prop :=
  ∀ o : Output, ∃ t, (o.add arch c).text = o.text ++ t ∧ Says arch t.toList kinds

/-- The live statements that some pieces add, whatever was written before. -/
def AddsAll (arch : Arch) (chunks : List Chunk) (kinds : List Kind) : Prop :=
  ∀ o : Output, ∃ t, (o.addAll arch chunks).text = o.text ++ t ∧ Says arch t.toList kinds

namespace Chunk

/-- Whether a piece is a comment that quotes a statement. -/
def isQuoted : Chunk → Bool
  | quoted _ => true
  | _ => false

lemma adds_copied {text : String} (h : Says arch text.toList kinds) :
    (copied text).Adds arch kinds :=
  fun _ => ⟨text, rfl, h⟩

lemma adds_of_shape {text : String} {kind : Kind} (h : Statement.Shape arch text.toList kind) :
    (copied text).Adds arch ([kind].filter (·.isLive)) :=
  adds_copied ⟨_, .single h, rfl⟩

lemma adds_line {line : Line} (h : Says arch line.text.toList kinds) :
    (Chunk.line line).Adds arch kinds :=
  fun _ => ⟨line.text, rfl, h⟩

/-- The comment that quotes a statement adds nothing that is live. -/
lemma adds_quoted (s : Statement) : (quoted s).Adds arch [] := by
  intro o
  have hcomment : Says arch (arch.leader ++ " WAS " ++ s.oneLine ++ "\n").toList [] := by
    have htext : (arch.leader ++ " WAS " ++ s.oneLine ++ "\n").toList =
        arch.leader.toList ++ ((" WAS ".toList ++ s.oneLine.toList) ++ ['\n']) := by
      simp
    rw [htext]
    refine says_comment fun hline => ?_
    rcases List.mem_append.mp hline with hline | hline
    · exact absurd hline (by decide)
    · exact Statement.newline_notMem_oneLine s hline
  cases hstart : o.atLineStart with
  | true =>
      refine ⟨_, ?_, hcomment⟩
      simp [Output.add, Output.freshLine, hstart]
  | false =>
      refine ⟨"\n" ++ (arch.leader ++ " WAS " ++ s.oneLine ++ "\n"), ?_, ?_⟩
      · simp [Output.add, Output.freshLine, hstart, String.append_assoc]
      · rw [String.toList_append]
        exact says_newline.append hcomment

end Chunk

/-- The live statements that pieces write: comments that quote statements are none. -/
inductive Writes (arch : Arch) : List Chunk → List Kind → Prop
  | nil : Writes arch [] []
  | quoted {s : Statement} {chunks : List Chunk} {kinds : List Kind} : Writes arch chunks kinds →
      Writes arch (.quoted s :: chunks) kinds
  | cons {c : Chunk} {chunks : List Chunk} {kinds more : List Kind} : c.isQuoted = false →
      c.Adds arch kinds → Writes arch chunks more → Writes arch (c :: chunks) (kinds ++ more)

lemma AddsAll.nil : AddsAll arch [] [] :=
  fun o => ⟨"", by simp [Output.addAll], .nil⟩

lemma AddsAll.cons {c : Chunk} {chunks : List Chunk} (hc : c.Adds arch kinds)
    (h : AddsAll arch chunks more) : AddsAll arch (c :: chunks) (kinds ++ more) := by
  intro o
  obtain ⟨t, ht, hsays⟩ := hc o
  obtain ⟨u, hu, hsays'⟩ := h (o.add arch c)
  refine ⟨t ++ u, ?_, ?_⟩
  · change ((o.add arch c).addAll arch chunks).text = _
    rw [hu, ht, String.append_assoc]
  · rw [String.toList_append]
    exact hsays.append hsays'

namespace Writes

variable {chunks others : List Chunk}

/-- What is written is added, whatever was written before. -/
lemma addsAll (h : Writes arch chunks kinds) : AddsAll arch chunks kinds := by
  induction h with
  | nil => exact .nil
  | quoted _ ih => exact .cons (Chunk.adds_quoted _) ih
  | cons _ hc _ ih => exact .cons hc ih

/-- The comments that quote statements play no role. -/
lemma filter (h : Writes arch chunks kinds) :
    Writes arch (chunks.filter (!·.isQuoted)) kinds := by
  induction h with
  | nil => exact .nil
  | quoted _ ih => rwa [List.filter_cons_of_neg (by simp [Chunk.isQuoted])]
  | cons hquoted hc _ ih =>
      rw [List.filter_cons_of_pos (by simp [hquoted])]
      exact .cons hquoted hc ih

lemma append (h : Writes arch chunks kinds) (h' : Writes arch others more) :
    Writes arch (chunks ++ others) (kinds ++ more) := by
  induction h with
  | nil => exact h'
  | quoted _ ih => exact .quoted ih
  | cons hquoted hc _ ih =>
      rw [List.append_assoc]
      exact .cons hquoted hc ih

lemma copied {text : String} {kind : Kind} (h : Statement.Shape arch text.toList kind) :
    Writes arch [.copied text] ([kind].filter (·.isLive)) := by
  have hcons := cons (c := .copied text) rfl (Chunk.adds_of_shape h) .nil
  rwa [List.append_nil] at hcons

lemma line {line : Line} (h : Says arch line.text.toList kinds) :
    Writes arch [.line line] kinds := by
  have hcons := cons (c := .line line) rfl (Chunk.adds_line h) .nil
  rwa [List.append_nil] at hcons

end Writes

lemma exists_writes_lines {lines : List Line}
    (h : ∀ line ∈ lines, ∃ kinds, Says arch line.text.toList kinds) :
    ∃ kinds, Writes arch (lines.map .line) kinds := by
  induction lines with
  | nil => exact ⟨[], .nil⟩
  | cons line lines ih =>
      obtain ⟨kinds, hline⟩ := h line List.mem_cons_self
      obtain ⟨more, hlines⟩ := ih fun l hl => h l (List.mem_cons_of_mem _ hl)
      exact ⟨kinds ++ more, (Writes.line hline).append hlines⟩

end Hermetic

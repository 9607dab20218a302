/-
The last line of a text, with and without the line feed that ends it.

The end of a text ends a statement.  A line feed at the end of a text belongs to its last statement,
or it is a statement of its own, if the last one has ended before.

* `LineAdded`: the statements of a text without the line feed, and of the text with it, with
  `LineAdded.map_eq`: what depends on their kinds;
* `exists_parse_line`: a text that is read is read with the line feed, as such statements;
* `detect_line`: the line feed does not tell an architecture.
-/
import Hermetic.Proofs.Statement.Spelled

namespace Hermetic

namespace Text

lemma lines_append_newline (l : List Char) : lines (l ++ ['\n']) = lines l ++ [[]] := by
  have hsplit : (l ++ ['\n']).splitOnP (· == '\n') =
      l.splitOnP (· == '\n') ++ [].splitOnP (· == '\n') :=
    List.splitOnP_append_cons l [] (beq_self_eq_true '\n')
  rw [List.splitOnP_nil] at hsplit
  exact hsplit

lemma trimEnd_append_newline (l : List Char) : trimEnd (l ++ ['\n']) = trimEnd l := by
  rw [trimEnd, trimEnd, List.reverse_append, List.reverse_singleton, List.singleton_append,
    List.dropWhile_cons_of_pos (by decide)]

lemma trim_append_newline (l : List Char) : trim (l ++ ['\n']) = trim l := by
  rw [trim, trim, trimStart, trimStart, List.dropWhile_append]
  split
  · next hempty =>
      rw [List.isEmpty_iff.mp hempty]
      rfl
  · exact trimEnd_append_newline _

end Text

/-- The line feed at the end of a text does not tell an architecture. -/
lemma Arch.detect_line (text : String) : detect (text ++ "\n") = detect text := by
  have hempty : [[]].findSome? ofLine = none := by decide +kernel
  have htext : (text ++ "\n").toList = text.toList ++ ['\n'] := String.toList_append
  rw [detect, detect, htext, Text.lines_append_newline, List.findSome?_append, hempty,
    Option.or_none]

namespace Statement

open Cursor

variable {arch : Arch} {statements : List Statement}

/-- Statements that differ in their places only. -/
structure Same (s t : Statement) : Prop where
  kind : t.kind = s.kind
  text : t.text = s.text

/-- The statements of a text, and those of the text with one more line feed at its end. -/
inductive LineAdded (arch : Arch) : List Statement → List Statement → Prop
  /-- The line feed is a statement of its own. -/
  | blank {t : Statement} : t.kind = .blank → t.text = "\n" → LineAdded arch [] [t]
  /-- It belongs to the last statement, which has not ended before. -/
  | longer {s t : Statement} : ¬ Shape arch s.text.toList s.kind →
      Shape arch t.text.toList s.kind → t.kind = s.kind → t.text = s.text ++ "\n" →
      LineAdded arch [s] [t]
  | cons {s t : Statement} {ss ts : List Statement} : Shape arch s.text.toList s.kind →
      Same s t → LineAdded arch ss ts → LineAdded arch (s :: ss) (t :: ts)

namespace LineAdded

variable {ss ts : List Statement} {β : Type}

/-- What depends on the kinds of the statements is the same, or it is one more, for a blank. -/
lemma map_eq {f : Statement → β} (hkind : ∀ s t, t.kind = s.kind → f t = f s)
    (h : LineAdded arch ss ts) :
    ts.map f = ss.map f ∨ ∃ t, t.kind = .blank ∧ ts.map f = ss.map f ++ [f t] := by
  induction h with
  | blank hblank => exact .inr ⟨_, hblank, rfl⟩
  | longer _ _ hsame => exact .inl (congrArg (fun b => [b]) (hkind _ _ hsame))
  | cons _ hsame _ ih =>
      rw [List.map_cons, List.map_cons, hkind _ _ hsame.kind]
      rcases ih with heq | ⟨t, hblank, heq⟩
      · exact .inl (congrArg _ heq)
      · exact .inr ⟨t, hblank, congrArg _ heq⟩

/-- What blanks do not have is the same. -/
lemma filterMap_eq {f : Statement → Option β} (hkind : ∀ s t, t.kind = s.kind → f t = f s)
    (hblank : ∀ t, t.kind = .blank → f t = none) (h : LineAdded arch ss ts) :
    ts.filterMap f = ss.filterMap f := by
  have hmap (l : List Statement) : l.filterMap f = (l.map f).filterMap id := by
    rw [List.filterMap_map, Function.id_comp]
  rw [hmap, hmap]
  rcases h.map_eq hkind with heq | ⟨t, ht, heq⟩
  · rw [heq]
  · rw [heq, hblank t ht, List.filterMap_append]
    exact List.append_nil _

lemma length_le (h : LineAdded arch ss ts) : ts.length ≤ ss.length + 1 := by
  induction h with
  | blank | longer => simp
  | cons _ _ _ ih => exact Nat.succ_le_succ ih

end LineAdded

/-- The text of a statement that is read is what was left, without what is left after it. -/
lemma text_of_ofCursor {c d : Cursor Char} {s : Statement} {l : List Char}
    (h : ofCursor arch c = .ok (s, d)) (hc : c.rest = l ++ d.rest) : s.text = String.ofList l := by
  rw [← String.toList_inj, String.toList_ofList]
  exact List.append_cancel_right ((between_of_ofCursor h).rest.symm.trans hc)

lemma exists_listed_line {c c' : Cursor Char} (h : Listed arch c statements)
    (hc : c'.rest = c.rest ++ ['\n']) :
    ∃ statements', Listed arch c' statements' ∧ LineAdded arch statements statements' := by
  have hrest : c'.rest ≠ [] := hc ▸ List.append_ne_nil_of_right_ne_nil _ (List.cons_ne_nil _ _)
  -- by the statements: only the last one may take the line feed
  induction h generalizing c' with
  | nil hnil =>
      rw [hnil] at hc
      obtain ⟨t, d, ht, hkind, hd⟩ := @ofCursor_of_shape arch c' _ [] _ shape_newline hc
      refine ⟨[t], .cons hrest ht (.nil hd), .blank hkind ?_⟩
      exact text_of_ofCursor ht (by rw [hc, hd]; rfl)
  | @cons c d s statements hne hs hlisted ih =>
      have hbetween := between_of_ofCursor hs
      -- a statement that ends before the line feed is read as it was
      by_cases hshape : Shape arch s.text.toList s.kind
      · have hc' : c'.rest = s.text.toList ++ (d.rest ++ ['\n']) := by
          rw [hc, hbetween.rest, List.append_assoc]
        obtain ⟨t, d', ht, hkind, hd'⟩ := ofCursor_of_shape hshape hc'
        have hne' : d'.rest ≠ [] :=
          hd' ▸ List.append_ne_nil_of_right_ne_nil _ (List.cons_ne_nil _ _)
        obtain ⟨statements', hlisted', hadded⟩ := ih hd' hne'
        refine ⟨t :: statements', .cons hrest ht hlisted', .cons hshape ⟨hkind, ?_⟩ hadded⟩
        rw [text_of_ofCursor ht (hd' ▸ hc'), String.ofList_toList]
      · obtain ⟨hnil, -, hline⟩ := (shape_of_ofCursor hs).resolve_left hshape
        have hc' : c'.rest = (s.text.toList ++ ['\n']) ++ [] := by
          rw [hc, hbetween.rest, hnil, List.append_nil, List.append_nil]
        obtain ⟨t, d', ht, hkind, hd'⟩ := ofCursor_of_shape hline hc'
        have htext : t.text = s.text ++ "\n" := by
          have hrest' : c'.rest = s.text.toList ++ ['\n'] ++ d'.rest := by rw [hc', hd']
          rw [text_of_ofCursor ht hrest', ← String.toList_inj, String.toList_ofList,
            String.toList_append]
          rfl
        obtain rfl : statements = [] := by
          cases hlisted with
          | nil => rfl
          | cons hne => exact absurd hnil hne
        refine ⟨[t], .cons hrest ht (.nil hd'), .longer hshape ?_ hkind htext⟩
        rw [htext, String.toList_append]
        exact hline

/-- A text that is read is read with a line feed at its end. -/
lemma exists_parse_line {text : String} (h : parse arch text = .ok statements) :
    ∃ statements', parse arch (text ++ "\n") = .ok statements' ∧
      LineAdded arch statements statements' := by
  have hrest : (Cursor.ofString (text ++ "\n") : Cursor Char).rest =
      (Cursor.ofString text : Cursor Char).rest ++ ['\n'] := by
    change (text ++ "\n").toList = text.toList ++ ['\n']
    exact String.toList_append
  obtain ⟨statements', hlisted, hadded⟩ := exists_listed_line (parse_eq_ok_iff.mp h) hrest
  exact ⟨statements', parse_eq_ok_iff.mpr hlisted, hadded⟩

end Statement

end Hermetic

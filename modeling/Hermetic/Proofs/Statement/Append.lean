/-
A text after another that ends its last line.

The statements of the first text are read as if nothing followed, and those of the second as if it
stood alone, in places that are as far down as the first text is long.

* `Statement.ofCursor_eq_of_body`: the statement that a text is spelled like, with its place;
* `Statement.ofCursor_append`: a statement is read alike if more text follows;
* `Statement.parse_append`: the statements of two texts, or the fault of the second.
-/
import Hermetic.Proofs.Statement.Moved
import Hermetic.Proofs.Statement.Spelled

namespace Hermetic.Statement

open Cursor

variable {arch : Arch} {statements : List Statement}

/-! ### What follows plays no role -/

/-- The statement that a text is spelled like, at a place.  Blanks and comments stand before it. -/
def spelled (p : Position) (lead body : List Char) (kind : Kind) : Statement where
  kind := kind
  text := String.ofList (lead ++ body)
  span := { (p.after lead).span with len := Text.byteLength body }

/-- The statement that comes next is told by its text and its place. -/
lemma ofCursor_eq_of_body {c : Cursor Char} {lead body r : List Char} {kind : Kind}
    (hlead : Spacing lead) (hbody : Body arch body kind) (hc : c.rest = lead ++ (body ++ r)) :
    ofCursor arch c =
      .ok (spelled c.position lead body kind, ⟨r, c.position.after (lead ++ body)⟩) := by
  have hstart := between_skip_length hc
  have hskip : c.skipSpace = (.ok (), c.skip lead.length) := by
    rw [skipSpace, hc, blankRun_of_spacing hlead (atWord_of_body hbody), Nat.zero_add]
  set start := c.skip lead.length
  have hrest : start.rest = body ++ r := rest_skip_length hc
  obtain ⟨d, hd, hdr⟩ := kindAt_of_body hbody hrest
  obtain ⟨l, hl⟩ := (reaches_of_kindAt hd).between
  -- what is read and what is spelled end at the same place
  obtain rfl : l = body := by
    have hwhole := hl.rest
    rw [hrest, hdr] at hwhole
    exact (List.append_cancel_right hwhole).symm
  have hwhole := hstart.trans hl
  have hstop : d = ⟨r, c.position.after (lead ++ l)⟩ := by
    rw [← hdr, ← hwhole.position]
  have hspan : start.spanTo d = { (c.position.after lead).span with len := Text.byteLength l } := by
    rw [← hl.len_spanTo, ← hstart.position]
    rfl
  simp only [ofCursor, hskip, settle, bind, Except.bind, hd, hwhole.textTo_eq, hspan]
  rw [hstop]
  rfl

/-- A statement that is read is read alike if more text follows, unless the text ended it. -/
lemma ofCursor_append {c d : Cursor Char} {s : Statement} (h : ofCursor arch c = .ok (s, d))
    (hshape : Shape arch s.text.toList s.kind) (more : List Char) :
    ofCursor arch ⟨c.rest ++ more, c.position⟩ = .ok (s, ⟨d.rest ++ more, d.position⟩) := by
  obtain ⟨lead, body, hlead, hbody, htext⟩ := hshape
  have hrest : c.rest = lead ++ (body ++ d.rest) := by
    rw [(between_of_ofCursor h).rest, htext, List.append_assoc]
  have halone := ofCursor_eq_of_body hlead hbody hrest
  rw [h] at halone
  obtain ⟨hs, hd⟩ := Prod.ext_iff.mp (Except.ok.inj halone)
  have hmore : c.rest ++ more = lead ++ (body ++ (d.rest ++ more)) := by
    rw [hrest, List.append_assoc, List.append_assoc]
  rw [ofCursor_eq_of_body hlead hbody hmore]
  dsimp only at hs hd ⊢
  rw [← hs]
  rw [show c.position.after (lead ++ body) = d.position by rw [hd]]

/-! ### Texts -/

/-- What was read before stands before what is read. -/
lemma allFrom_append (read older : List Statement) (c : Cursor Char) :
    allFrom arch (read ++ older) c = (allFrom arch read c).map (older.reverse ++ ·) := by
  fun_induction allFrom arch read c with
  | case1 read c hc =>
      rw [allFrom_eq, if_pos hc, List.reverse_append]
      rfl
  | case2 read c hc e hs =>
      rw [allFrom_eq, if_neg hc, hs]
      rfl
  | case3 read c hc s stop hs ih =>
      rw [allFrom_eq, if_neg hc, hs]
      exact ih

/-- The statements of a text that ends its last line are read if more text follows. -/
lemma allFrom_of_listed_append {c : Cursor Char} (h : Listed arch c statements)
    (hline : c.rest = [] ∨ c.rest.getLast? = some '\n') (more : List Char)
    (read : List Statement) : allFrom arch read ⟨c.rest ++ more, c.position⟩ =
      allFrom arch (statements.reverse ++ read) ⟨more, c.position.after c.rest⟩ := by
  induction h generalizing read with
  | nil hc => rw [hc, List.nil_append, List.reverse_nil, List.nil_append, Position.after_nil]
  | @cons c d s statements hc hs _ ih =>
      have hlast := hline.resolve_left hc
      have hbetween := between_of_ofCursor hs
      have hnext := ofCursor_append hs (shape_of_ofCursor_of_line hs fun _ => hlast) more
      have hd : d.rest = [] ∨ d.rest.getLast? = some '\n' := by
        refine or_iff_not_imp_left.mpr fun hne => ?_
        rwa [hbetween.rest, List.getLast?_append_of_ne_nil _ hne] at hlast
      have hplace : c.position.after c.rest = d.position.after d.rest := by
        rw [hbetween.position, ← Position.after_append, ← hbetween.rest]
      rw [allFrom_eq, if_neg (List.append_ne_nil_of_left_ne_nil hc more), hnext, hplace,
        List.reverse_cons, List.append_assoc, List.singleton_append]
      exact ih hd (s :: read)

/-- A text that is empty or ends in a line feed does not change how another is read after it: the
statements of both come after each other, and those of the second, or its fault, are as many bytes
and lines further down as the first text has. -/
theorem parse_append {a : String} (hline : a = "" ∨ a.toList.getLast? = some '\n')
    (h : parse arch a = .ok statements) (b : String) :
    parse arch (a ++ b) = match parse arch b with
      | .ok more => .ok (statements ++ more.map (moved (.past a.toList)))
      | .error e => .error (e.moved (.past a.toList)) := by
  have hnil : a.toList = [] ∨ a.toList.getLast? = some '\n' :=
    hline.imp_left String.toList_eq_nil_iff.mpr
  -- nothing is left of the last line, so that columns are those of the second text
  have hlast : Text.lastLine a.toList = [] := by
    rcases hnil with hnil | hlast
    · rw [hnil, Text.lastLine_nil]
    · obtain ⟨l, hl⟩ := List.getLast?_eq_some_iff.mp hlast
      rw [hl, Text.lastLine_append_newline]
  have hstart : (Cursor.ofString (a ++ b) : Cursor Char) = ⟨a.toList ++ b.toList, {}⟩ := by
    rw [← String.toList_append]
    rfl
  have hfirst := allFrom_of_listed_append (parse_eq_ok_iff.mp h) hnil b.toList []
  -- the second text is read from where the first ends
  have hplace : (⟨b.toList, Position.after {} a.toList⟩ : Cursor Char) =
      (Cursor.ofString b).moved (.past a.toList) := by
    rw [← Position.moved_start hlast]
    rfl
  calc parse arch (a ++ b)
      = allFrom arch (statements.reverse ++ []) ⟨b.toList, Position.after {} a.toList⟩ := by
        rw [parse, hstart]
        exact hfirst
    _ = (allFrom arch [] ((Cursor.ofString b).moved (.past a.toList))).map (statements ++ ·) := by
        have hread : allFrom arch ([] ++ statements.reverse) _ = _ :=
          allFrom_append [] statements.reverse ((Cursor.ofString b).moved (.past a.toList))
        rw [List.nil_append, List.reverse_reverse] at hread
        rw [hplace, List.append_nil, hread]
    _ = (Outcome.moved (.past a.toList) (List.map (moved (.past a.toList))) (parse arch b)).map
          (statements ++ ·) := by
        have hmoved : allFrom arch _ ((Cursor.ofString b).moved (.past a.toList)) = _ :=
          allFrom_moved [] (Cursor.ofString b)
        rw [List.map_nil] at hmoved
        rw [hmoved, parse]
    _ = _ := by cases parse arch b <;> rfl

/-- A label on a line of its own, and a text with a comment that does not end. -/
theorem parse_append_label : ∃ statements, parse .x86_64 "a: /* b */\n" = .ok statements ∧
    ("a: /* b */\n" = "" ∨ "a: /* b */\n".toList.getLast? = some '\n') ∧
      parse .x86_64 ("a: /* b */\n" ++ "\tret\n/* b") = match parse .x86_64 "\tret\n/* b" with
        | .ok more => .ok (statements ++ more.map (moved (.past "a: /* b */\n".toList)))
        | .error e => .error (e.moved (.past "a: /* b */\n".toList)) := by
  have hok : (parse .x86_64 "a: /* b */\n").toOption.any (fun _ => true) = true := by
    decide +kernel
  have hline : "a: /* b */\n" = "" ∨ "a: /* b */\n".toList.getLast? = some '\n' :=
    .inr (by decide +kernel)
  obtain ⟨statements, h, -⟩ := Outcome.exists_of_any hok
  exact ⟨statements, h, hline, parse_append hline h "\tret\n/* b"⟩

end Hermetic.Statement

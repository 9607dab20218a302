/-
The arguments of a statement, and the text that they are read from.

* `Quoted`: the rest of a string, with its closing quote;
* `Arguments`: how a text is read as arguments, with `arguments_of_argumentsFrom` and
  `argumentsFrom_of_arguments`: this is what the parser does, whatever follows the text;
* `Arguments.whole`: what is kept of arguments closes what it opens;
* `arguments_of_whole`: such a text is kept as it is.
-/
import Hermetic.Proofs.Source.Spacing
import Hermetic.Proofs.Statement.Steps
import Hermetic.Proofs.Text.Scan

namespace Hermetic

open Text (isBlank)

/-! ### Strings -/

/-- The rest of a string after its opening quote. -/
inductive Quoted : List Char → Prop
  | close : Quoted ['"']
  | escape {c : Char} {q : List Char} : c ≠ '\n' → Quoted q → Quoted ('\\' :: c :: q)
  | char {c : Char} {q : List Char} : c ≠ '"' → c ≠ '\\' → c ≠ '\n' → Quoted q → Quoted (c :: q)

/-- The rest of a string is not empty, and starts with no line feed. -/
lemma Quoted.exists_cons {q : List Char} (hq : Quoted q) : ∃ c r, q = c :: r ∧ c ≠ '\n' := by
  cases hq with
  | close => exact ⟨_, _, rfl, by decide⟩
  | escape => exact ⟨_, _, rfl, by decide⟩
  | char _ _ hline => exact ⟨_, _, rfl, hline⟩

lemma Quoted.newline_notMem {q : List Char} (hq : Quoted q) : '\n' ∉ q := by
  induction hq with
  | close => decide
  | escape hc _ ih => simp [Ne.symm hc, ih]
  | char _ _ hline _ ih => simp [Ne.symm hline, ih]

/-- The rest of a string ends in the closing quote. -/
lemma Quoted.getLast? {q : List Char} (hq : Quoted q) : q.getLast? = some '"' := by
  induction hq with
  | close => rfl
  | escape _ _ ih | char _ _ _ _ ih => simp [List.getLast?_cons, ih]

namespace Cursor

/-- A string that is closed is the rest of a string. -/
lemma quoted_of_quotedRun {n m : ℕ} {l : List Char} (h : quotedRun n l = (m, true)) :
    ∃ q r, l = q ++ r ∧ Quoted q ∧ m = n + q.length := by
  fun_induction quotedRun n l with
  | case1 => cases h
  | case2 n u hu =>
      cases h
      obtain rfl : u = '"' := hu
      exact ⟨['"'], [], rfl, .close, rfl⟩
  | case3 | case4 => cases h
  | case5 n u v r hu =>
      cases h
      obtain rfl : u = '"' := hu
      exact ⟨['"'], v :: r, rfl, .close, rfl⟩
  | case6 => cases h
  | case7 n u v r hquote hline hescape ih =>
      obtain ⟨rfl, hv⟩ : u = '\\' ∧ v ≠ '\n' := hescape
      obtain ⟨q, r', rfl, hq, rfl⟩ := ih h
      exact ⟨_, r', rfl, .escape hv hq, by simp; omega⟩
  | case8 n u v r hquote hline hescape ih =>
      obtain ⟨q, r', hr, hq, rfl⟩ := ih h
      -- a backslash escapes what follows unless the line ends, and then the string is open
      have hslash : u ≠ '\\' := by
        rintro rfl
        obtain ⟨c, q', rfl, hc⟩ := hq.exists_cons
        rw [List.cons_append, List.cons.injEq] at hr
        exact hescape ⟨rfl, hr.1 ▸ hc⟩
      exact ⟨u :: q, r', by rw [hr]; rfl, .char hquote hslash hline hq, by simp; omega⟩

/-- The rest of a string is gone past. -/
lemma quotedRun_of_quoted {q r : List Char} (hq : Quoted q) (n : ℕ) :
    quotedRun n (q ++ r) = (n + q.length, true) := by
  induction hq generalizing n with
  | close => cases r <;> rfl
  | @escape c q hc _ ih =>
      rw [List.cons_append, List.cons_append, quotedRun, if_neg (by simp), if_neg (by simp),
        if_pos ⟨rfl, hc⟩, ih]
      simp
      omega
  | @char c q hquote hslash hline hq ih =>
      have hlast := ih (n + 1)
      obtain ⟨d, q', rfl, -⟩ := hq.exists_cons
      rw [List.cons_append] at hlast
      rw [List.cons_append, List.cons_append, quotedRun, SourceUnit.char_eq, if_neg hquote,
        if_neg hline, if_neg (fun h => hslash h.1), hlast]
      simp
      omega

/-- A block comment that is gone past. -/
lemma between_of_skipBlockComment {c d : Cursor Char} {r : List Char}
    (hc : c.rest = '/' :: '*' :: r) (h : c.skipBlockComment = (.ok (), d)) :
    ∃ body, ¬ ['*', '/'] <:+: body ++ ['*'] ∧
      c.Between ('/' :: '*' :: (body ++ ['*', '/'])) d := by
  unfold skipBlockComment at h
  split at h
  · next n hn =>
      cases h
      rw [hc] at hn
      obtain ⟨body, r', hr, hbody, rfl⟩ := commentRun_eq_some hn
      obtain rfl : r = body ++ '*' :: '/' :: r' := hr
      refine ⟨body, hbody, ?_⟩
      have hrest : c.rest = '/' :: '*' :: (body ++ ['*', '/']) ++ r' := by
        rw [hc]
        simp
      have hlength : 0 + body.length + 2 + 2 =
          ('/' :: '*' :: (body ++ ['*', '/'])).length := by
        simp
      rw [hlength]
      exact between_skip_length hrest
  · cases h

/-- A block comment is gone past. -/
lemma skipBlockComment_of_body {c : Cursor Char} {body r : List Char}
    (hbody : ¬ ['*', '/'] <:+: body ++ ['*'])
    (hc : c.rest = '/' :: '*' :: (body ++ '*' :: '/' :: r)) :
    ∃ d, c.skipBlockComment = (.ok (), d) ∧ d.rest = r := by
  have hrest : c.rest = '/' :: '*' :: (body ++ ['*', '/']) ++ r := by
    rw [hc]
    simp
  have hlength : 0 + body.length + 2 + 2 = ('/' :: '*' :: (body ++ ['*', '/'])).length := by
    simp
  refine ⟨c.skip (0 + body.length + 2 + 2), ?_, ?_⟩
  · rw [skipBlockComment, hc, List.drop_succ_cons, List.drop_succ_cons, List.drop_zero,
      commentRun_of_body hbody]
  · rw [rest_skip, hlength, hrest, List.drop_left]

/-- A string that is taken. -/
lemma between_of_takeQuoted {c d : Cursor Char} {r : List Char} {text : String}
    (hc : c.rest = '"' :: r) (h : c.takeQuoted = (.ok text, d)) :
    ∃ q, Quoted q ∧ text.toList = '"' :: q ∧ c.Between ('"' :: q) d := by
  unfold takeQuoted at h
  split at h
  · next n hn =>
      cases h
      rw [hc] at hn
      obtain ⟨q, r', hr, hq, rfl⟩ := quoted_of_quotedRun hn
      obtain rfl : r = q ++ r' := hr
      have hrest : c.rest = '"' :: q ++ r' := hc
      have hlength : min 1 ('"' :: (q ++ r')).length + q.length = ('"' :: q).length := by
        simp
        omega
      rw [hlength]
      refine ⟨q, hq, ?_, between_skip_length hrest⟩
      rw [take, hrest, List.take_left]
      exact String.toList_ofList
  · cases h

/-- A string is taken. -/
lemma takeQuoted_of_quoted {c : Cursor Char} {q r : List Char} (hq : Quoted q)
    (hc : c.rest = '"' :: (q ++ r)) :
    ∃ d, c.takeQuoted = (.ok (String.ofList ('"' :: q)), d) ∧ d.rest = r := by
  have hrest : c.rest = '"' :: q ++ r := hc
  have hlength : min 1 c.rest.length + q.length = ('"' :: q).length := by
    rw [hc]
    simp
    omega
  have hrun : quotedRun (min 1 c.rest.length) (c.rest.drop 1) =
      (('"' :: q).length, true) := by
    rw [← hlength, hc]
    exact quotedRun_of_quoted hq _
  refine ⟨c.skip ('"' :: q).length, ?_, by rw [rest_skip, hrest, List.drop_left]⟩
  rw [takeQuoted, hrun]
  simp only [take, hrest, List.take_left]
  rfl

end Cursor

/-! ### Arguments -/

/-- Characters of arguments that are kept, and neither open nor close anything. -/
def Ordinary (ch : Char) : Prop :=
  ch ∉ ['\n', '"', '(', '[', '{', ')', ']', '}']

/-- Whether a character outside brackets, which is followed by another or by nothing, ends
arguments. -/
def EndsAt (arch : Arch) (ch : Char) (next : Option Char) : Prop :=
  ch = ';' ∨ arch = .x86_64 ∧ ch = '#' ∨ arch = .aarch64 ∧ ch = '/' ∧ next = some '/'

/-- How a text, which is followed by a character or by nothing, is read as arguments, after the
characters that are kept so far, backwards, and within the brackets that are open, the last
first. -/
inductive Arguments (arch : Arch) (next : Option Char) :
    List Char → List Char → List Char → List Char → Prop
  | stop {kept : List Char} : Arguments arch next kept [] [] (kept.dropWhile isBlank).reverse
  | joined {kept joined opened raw args : List Char} {bracket : Char} :
      kept.dropWhile isBlank = '\\' :: joined →
        Arguments arch next (' ' :: joined) (bracket :: opened) raw args →
          Arguments arch next kept (bracket :: opened) ('\n' :: raw) args
  | comment {kept opened body raw args : List Char} : ¬ ['*', '/'] <:+: body ++ ['*'] →
      Arguments arch next (' ' :: kept) opened raw args →
        Arguments arch next kept opened ('/' :: '*' :: (body ++ '*' :: '/' :: raw)) args
  | quoted {kept opened q raw args : List Char} : Quoted q →
      Arguments arch next (q.reverse ++ '"' :: kept) opened raw args →
        Arguments arch next kept opened ('"' :: (q ++ raw)) args
  | opening {kept opened raw args : List Char} {ch : Char} : ch = '(' ∨ ch = '[' ∨ ch = '{' →
      Arguments arch next (ch :: kept) (ch :: opened) raw args →
        Arguments arch next kept opened (ch :: raw) args
  | closing {kept opened raw args : List Char} {ch : Char} : ch = ')' ∨ ch = ']' ∨ ch = '}' →
      Arguments arch next (ch :: kept) opened raw args →
        Arguments arch next kept (Statement.opening ch :: opened) (ch :: raw) args
  | char {kept opened raw args : List Char} {ch : Char} : Ordinary ch →
      (opened = [] → ¬ EndsAt arch ch (raw.head?.or next)) →
      ¬ (ch = '/' ∧ raw.head? = some '*') →
        Arguments arch next (ch :: kept) opened raw args →
          Arguments arch next kept opened (ch :: raw) args

variable {arch : Arch} {next : Option Char}

/-- Arguments at the end of a text may as well stand at the end of a line. -/
lemma Arguments.of_none {kept opened raw args : List Char}
    (h : Arguments arch none kept opened raw args) :
    Arguments arch (some '\n') kept opened raw args := by
  induction h with
  | stop => exact .stop
  | joined hjoined _ ih => exact .joined hjoined ih
  | comment hbody _ ih => exact .comment hbody ih
  | quoted hq _ ih => exact .quoted hq ih
  | opening hch _ ih => exact .opening hch ih
  | closing hch _ ih => exact .closing hch ih
  | @char kept opened raw args ch hch hends hstar _ ih =>
      refine .char hch (fun hnil hend => hends hnil ?_) hstar ih
      cases raw with
      | nil => exact hend.imp_right fun h => h.imp_right fun h => absurd h.2.2 (by decide)
      | cons => exact hend

/-- Arguments end in no line feed. -/
lemma Arguments.getLast?_ne_newline {kept opened raw args : List Char}
    (h : Arguments arch next kept opened raw args) : raw.getLast? ≠ some '\n' := by
  have hcons {ch : Char} {l : List Char} (hch : ch ≠ '\n') (hl : l.getLast? ≠ some '\n') :
      (ch :: l).getLast? ≠ some '\n' := by
    cases l with
    | nil => simpa using hch
    | cons d l => rwa [List.getLast?_cons_cons]
  induction h with
  | stop => simp
  | @joined kept joined opened raw args bracket hjoined hargs ih =>
      -- Within brackets there is always something left.
      cases raw with
      | nil => cases hargs
      | cons d raw => rwa [List.getLast?_cons_cons]
  | @comment kept opened body raw args _ _ ih =>
      have hlast : ('/' :: '*' :: (body ++ '*' :: '/' :: raw)).getLast? =
          ('/' :: raw).getLast? := by
        rw [show '/' :: '*' :: (body ++ '*' :: '/' :: raw) =
          ('/' :: '*' :: body ++ ['*']) ++ '/' :: raw by simp, List.getLast?_append,
          List.getLast?_cons, Option.some_or]
      rw [hlast]
      exact hcons (by decide) ih
  | @quoted kept opened q raw args hq _ ih =>
      have hlast : (q ++ raw).getLast? ≠ some '\n' := by
        rw [List.getLast?_append, hq.getLast?]
        cases hraw : raw.getLast? with
        | none => decide
        | some ch => rwa [hraw] at ih
      exact hcons (by decide) hlast
  | @opening kept opened raw args ch hch _ ih =>
      refine hcons ?_ ih
      rcases hch with rfl | rfl | rfl <;> decide
  | @closing kept opened raw args ch hch _ ih =>
      refine hcons ?_ ih
      rcases hch with rfl | rfl | rfl <;> decide
  | @char kept opened raw args ch hch _ _ _ ih =>
      refine hcons ?_ ih
      rintro rfl
      exact hch List.mem_cons_self

namespace Statement

open Cursor

/-- Where arguments may end. -/
def EndsArguments (arch : Arch) : List Char → Prop
  | [] => True
  | ch :: l => ch = '\n' ∨ EndsAt arch ch l.head?

/-- Where a comment starts that ends its line. -/
lemma startsComment_iff {c : Cursor Char} {ch : Char} {r : List Char} {first : Bool}
    (hc : c.rest = ch :: r) : startsComment arch first c = true ↔
      ch = '#' ∧ (arch = .x86_64 ∨ first = true) ∨
        arch = .aarch64 ∧ ch = '/' ∧ r.head? = some '/' := by
  unfold startsComment
  rw [next?_of_rest hc, second?_of_rest hc]
  cases arch <;> split <;> simp_all

lemma endsArguments_iff {c : Cursor Char} {ch : Char} {r : List Char} (hc : c.rest = ch :: r) :
    endsArguments arch c = true ↔ EndsAt arch ch r.head? := by
  rw [endsArguments, Bool.or_eq_true, beq_iff_eq, next?_of_rest hc, startsComment_iff hc, EndsAt]
  simp [and_comm]

/-- What the parser takes as arguments is read as such. -/
lemma arguments_of_argumentsFrom {kept args : List Char} {opened : List (Char × Span)}
    {c d : Cursor Char} (h : argumentsFrom arch kept opened c = .ok (args, d)) :
    ∃ raw, c.Between raw d ∧ Arguments arch d.rest.head? kept (opened.map Prod.fst) raw args ∧
      EndsArguments arch d.rest := by
  -- by the branches of the reader
  fun_induction argumentsFrom arch kept opened c with
  | case1 kept c hc =>
      cases h
      have hnil : d.rest = [] := List.head?_eq_none_iff.mp hc
      exact ⟨[], .refl d, .stop, by rw [hnil]; trivial⟩
  | case2 | case5 | case8 | case10 | case13 | case14 => cases h
  | case3 kept c hc =>
      cases h
      obtain ⟨r, hr⟩ := rest_of_peek hc
      exact ⟨[], .refl d, .stop, by rw [hr]; exact .inl rfl⟩
  | case4 kept c bracket span opened joined hjoined hc ih =>
      obtain ⟨r, hr⟩ := rest_of_peek hc
      obtain ⟨raw, hraw, hargs, hend⟩ := ih h
      exact ⟨_, (between_bump hr).trans hraw, .joined hjoined hargs, hend⟩
  | case6 kept opened c ch hc hline hend =>
      cases h
      obtain ⟨r, hr⟩ := rest_of_peek hc
      rw [Bool.and_eq_true, List.isEmpty_iff] at hend
      obtain ⟨rfl, hend⟩ := hend
      refine ⟨[], .refl d, .stop, ?_⟩
      rw [hr]
      exact .inr ((endsArguments_iff hr).mp hend)
  | case7 kept opened c ch hc hline hend hopen stop hstop ih =>
      obtain ⟨rfl, hstar⟩ := hopen
      obtain ⟨raw, hraw, hargs, hend⟩ := ih h
      obtain ⟨r, hr⟩ := rest_of_peek hc
      -- a star follows the slash, so that the comment is opened by both
      obtain ⟨r', rfl⟩ : ∃ r', r = '*' :: r' := by
        rw [second?, hr, List.getElem?_cons_succ, ← List.head?_eq_getElem?] at hstar
        exact List.head?_eq_some_iff.mp (by simpa using hstar)
      obtain ⟨body, hbody, hbetween⟩ := between_of_skipBlockComment hr hstop
      refine ⟨_, hbetween.trans hraw, ?_, hend⟩
      simpa using Arguments.comment hbody hargs
  | case9 kept opened c hend string stop hstop hc hline hopen ih =>
      obtain ⟨raw, hraw, hargs, hend⟩ := ih h
      obtain ⟨r, hr⟩ := rest_of_peek hc
      obtain ⟨q, hq, hstring, hbetween⟩ := between_of_takeQuoted hr hstop
      rw [hstring, List.reverse_cons, List.append_assoc] at hargs
      exact ⟨_, hbetween.trans hraw, .quoted hq hargs, hend⟩
  | case11 kept opened c ch hc hline hend hopen hquote hch ih =>
      obtain ⟨r, hr⟩ := rest_of_peek hc
      obtain ⟨raw, hraw, hargs, hend⟩ := ih h
      exact ⟨_, (between_bump hr).trans hraw, .opening hch hargs, hend⟩
  | case12 kept c ch hc hline hopen hquote hnot hch span opened hend ih =>
      obtain ⟨r, hr⟩ := rest_of_peek hc
      obtain ⟨raw, hraw, hargs, hend⟩ := ih h
      exact ⟨_, (between_bump hr).trans hraw, .closing hch hargs, hend⟩
  | case15 kept opened c ch hc hline hend hopen hquote hnot hnot' ih =>
      obtain ⟨r, hr⟩ := rest_of_peek hc
      obtain ⟨raw, hraw, hargs, hstop⟩ := ih h
      refine ⟨ch :: raw, (between_bump hr).trans hraw,
        .char ?_ (fun hnil hch => ?_) ?_ hargs, hstop⟩
      · -- no other branch took the character, and it starts no comment
        simp only [Ordinary, List.mem_cons, List.not_mem_nil, or_false, not_or] at *
        exact ⟨hline, hquote, hnot.1, hnot.2.1, hnot.2.2, hnot'.1, hnot'.2.1, hnot'.2.2⟩
      · have hrest := hraw.rest
        rw [rest_bump, hr, List.tail_cons] at hrest
        rw [← List.head?_append, ← hrest, ← endsArguments_iff hr] at hch
        exact hend (by simp [List.map_eq_nil_iff.mp hnil, hch])
      · rintro ⟨rfl, hstar⟩
        refine hopen ⟨rfl, ?_⟩
        have hrest := hraw.rest
        rw [rest_bump, hr, List.tail_cons] at hrest
        obtain ⟨raw', rfl⟩ := List.head?_eq_some_iff.mp hstar
        rw [second?, hr, hrest]
        rfl

/-- Arguments go on with a character that ends neither the line nor them. -/
lemma goesOn_of_rest {brackets : List (Char × Span)} {c : Cursor Char} {ch : Char} {r : List Char}
    (hc : c.rest = ch :: r) (hline : ch ≠ '\n')
    (hend : brackets.map Prod.fst = [] → ¬ EndsAt arch ch r.head?) :
    GoesOn arch brackets c ch r := by
  refine ⟨hc, hline, ?_⟩
  rw [Bool.and_eq_true, List.isEmpty_iff, endsArguments_iff hc]
  rintro ⟨rfl, h⟩
  exact hend rfl h

/-- Only few characters end arguments. -/
lemma not_endsAt {ch : Char} (h : ch ∉ [';', '#', '/']) (after : Option Char) :
    ¬ EndsAt arch ch after := by
  simp only [List.mem_cons, List.not_mem_nil, or_false, not_or] at h
  simp [EndsAt, h]

/-- The first step of the parser where arguments may end. -/
lemma argumentsFrom_stop {kept : List Char} {c : Cursor Char} (hc : EndsArguments arch c.rest) :
    argumentsFrom arch kept [] c = .ok ((kept.dropWhile isBlank).reverse, c) := by
  cases hr : c.rest with
  | nil => exact argumentsFrom_nil hr
  | cons ch r =>
      rw [hr] at hc
      rcases eq_or_ne ch '\n' with rfl | hline
      · exact argumentsFrom_newline hr
      · have hend : endsArguments arch c = true :=
          (endsArguments_iff hr).mpr (hc.resolve_left hline)
        exact argumentsFrom_ended hr hline (by simp [hend])

/-- What is read as arguments is what the parser takes as such, if it ends there. -/
lemma argumentsFrom_of_arguments {kept opened raw args r : List Char}
    (h : Arguments arch r.head? kept opened raw args) (hr : EndsArguments arch r)
    {brackets : List (Char × Span)} (hopened : brackets.map Prod.fst = opened) {c : Cursor Char}
    (hc : c.rest = raw ++ r) :
    ∃ d, argumentsFrom arch kept brackets c = .ok (args, d) ∧ d.rest = r := by
  induction h generalizing brackets c with
  | @stop kept =>
      obtain rfl := List.map_eq_nil_iff.mp hopened
      obtain rfl : c.rest = r := hc
      exact ⟨c, argumentsFrom_stop hr, rfl⟩
  | @joined kept joined opened raw args bracket hjoined _ ih =>
      have hrest : c.rest = '\n' :: (raw ++ r) := hc
      obtain ⟨d, hd, hdr⟩ := ih hopened (by rw [rest_bump, hrest]; rfl)
      refine ⟨d, ?_, hdr⟩
      cases brackets with
      | nil => cases hopened
      | cons bracket brackets =>
          rw [argumentsFrom_joined _ _ hrest hjoined]
          exact hd
  | @comment kept opened body raw args hbody _ ih =>
      have hrest : c.rest = '/' :: '*' :: (body ++ '*' :: '/' :: (raw ++ r)) := by
        rw [hc]
        simp
      obtain ⟨stop, hstop, hstopRest⟩ := skipBlockComment_of_body hbody hrest
      obtain ⟨d, hd, hdr⟩ := ih hopened hstopRest
      refine ⟨d, ?_, hdr⟩
      have hgoes : GoesOn arch brackets c '/' _ :=
        goesOn_of_rest hrest (by decide) fun _ => by simp [EndsAt]
      rw [hgoes.argumentsFrom_comment, hstop]
      exact hd
  | @quoted kept opened q raw args hq _ ih =>
      have hrest : c.rest = '"' :: (q ++ (raw ++ r)) := by
        rw [hc]
        simp
      obtain ⟨stop, hstop, hstopRest⟩ := takeQuoted_of_quoted hq hrest
      obtain ⟨d, hd, hdr⟩ := ih hopened hstopRest
      refine ⟨d, ?_, hdr⟩
      have hgoes : GoesOn arch brackets c '"' _ :=
        goesOn_of_rest hrest (by decide) fun _ => not_endsAt (by decide) _
      rw [hgoes.argumentsFrom_quote, hstop, settle_ok]
      dsimp only [bind, Except.bind]
      rw [String.toList_ofList, List.reverse_cons, List.append_assoc]
      exact hd
  | @opening kept opened raw args ch hch _ ih =>
      have hrest : c.rest = ch :: (raw ++ r) := hc
      have hbump : c.bump.rest = raw ++ r := by rw [rest_bump, hrest]; rfl
      have hmap : ((ch, { c.here with len := 1 }) :: brackets).map Prod.fst = ch :: opened := by
        rw [List.map_cons, hopened]
      obtain ⟨d, hd, hdr⟩ := ih hmap hbump
      refine ⟨d, ?_, hdr⟩
      obtain ⟨hline, hend⟩ : ch ≠ '\n' ∧ ch ∉ [';', '#', '/'] := by
        rcases hch with rfl | rfl | rfl <;> decide
      rw [(goesOn_of_rest hrest hline fun _ => not_endsAt hend _).argumentsFrom_opening hch]
      exact hd
  | @closing kept opened raw args ch hch _ ih =>
      have hrest : c.rest = ch :: (raw ++ r) := hc
      have hbump : c.bump.rest = raw ++ r := by rw [rest_bump, hrest]; rfl
      cases brackets with
      | nil => cases hopened
      | cons bracket brackets =>
          rw [List.map_cons, List.cons.injEq] at hopened
          obtain ⟨d, hd, hdr⟩ := ih hopened.2 hbump
          refine ⟨d, ?_, hdr⟩
          obtain ⟨hline, hend⟩ : ch ≠ '\n' ∧ ch ∉ [';', '#', '/'] := by
            rcases hch with rfl | rfl | rfl <;> decide
          rw [(goesOn_of_rest hrest hline fun _ => not_endsAt hend _).argumentsFrom_closing hch]
          dsimp only
          rw [if_pos hopened.1]
          exact hd
  | @char kept opened raw args ch hch hend hcomment _ ih =>
      have hrest : c.rest = ch :: (raw ++ r) := hc
      have hbump : c.bump.rest = raw ++ r := by rw [rest_bump, hrest]; rfl
      obtain ⟨d, hd, hdr⟩ := ih hopened hbump
      refine ⟨d, ?_, hdr⟩
      simp only [Ordinary, List.mem_cons, List.not_mem_nil, or_false, not_or] at hch
      obtain ⟨hline, hquote, h1, h2, h3, h4, h5, h6⟩ := hch
      have hstar : ¬ (ch = '/' ∧ (raw ++ r).head? = some '*') := by
        rintro ⟨rfl, hhead⟩
        cases raw with
        | nil =>
            -- arguments do not end in front of a star
            obtain ⟨r', rfl⟩ := List.head?_eq_some_iff.mp hhead
            simp [EndsArguments, EndsAt] at hr
        | cons x raw => exact hcomment ⟨rfl, hhead⟩
      have hgoes : GoesOn arch brackets c ch (raw ++ r) := goesOn_of_rest hrest hline fun h =>
        List.head?_append ▸ hend (hopened.symm.trans h)
      rw [hgoes.argumentsFrom_other hstar hquote (by simp [h1, h2, h3]) (by simp [h4, h5, h6])]
      exact hd

end Statement

/-! ### Arguments that are kept -/

section Whole

open Scan

variable {commas : Bool} {kept opened raw args l : List Char} {t : State}

lemma step_ordinary {s : State} {ch : Char} (hs : s.Outside) (hch : Ordinary ch)
    (hend : s.opened = [] → ¬ Ends arch true s.mode ch) (hstar : s.mode = .slash → ch ≠ '*') :
    step arch true s ch = some ⟨s.opened, if ch = '/' then .slash else .plain⟩ := by
  simp only [Ordinary, List.mem_cons, List.not_mem_nil, or_false, not_or] at hch
  obtain ⟨opened, mode⟩ := s
  rcases hs with rfl | rfl
  · simpa [step, hch] using hend
  · simpa [step, hch, hstar rfl] using hend

lemma run_quoted {q : List Char} (hq : Quoted q) :
    run arch commas ⟨opened, .quoted⟩ q = some ⟨opened, .plain⟩ := by
  induction hq with
  | close => simp [run_cons, step]
  | escape hc _ ih => simpa [run_cons, step, hc] using ih
  | char hquote hslash hline _ ih => simpa [run_cons, step, hquote, hslash, hline] using ih

/-- A scan that ends outside strings has come to the end of the string that it began in. -/
lemma exists_quoted (h : run arch commas ⟨opened, .quoted⟩ l = some t) (ht : t.Outside) :
    ∃ q r, l = q ++ r ∧ Quoted q ∧ run arch commas ⟨opened, .plain⟩ r = some t := by
  -- by the number of characters: a backslash goes past two of them
  induction hl : l.length using Nat.strongRecOn generalizing l with
  | ind size ih =>
      cases l with
      | nil =>
          cases h
          rcases ht with ht | ht <;> cases ht
      | cons c l =>
          obtain ⟨u, hu, h⟩ := run_cons_eq_some_iff.mp h
          have hline := ne_newline_of_step hu
          by_cases hquote : c = '"'
          · subst hquote
            simp [step] at hu
            subst hu
            exact ⟨['"'], l, rfl, .close, h⟩
          · by_cases hslash : c = '\\'
            · subst hslash
              simp [step] at hu
              subst hu
              cases l with
              | nil =>
                  cases h
                  rcases ht with ht | ht <;> cases ht
              | cons d l =>
                  obtain ⟨v, hv, h⟩ := run_cons_eq_some_iff.mp h
                  have hd := ne_newline_of_step hv
                  simp [step, hd] at hv
                  subst hv
                  obtain ⟨q, r, rfl, hq, hr⟩ := ih l.length (by simp at hl; omega) h rfl
                  exact ⟨_, r, rfl, .escape hd hq, hr⟩
            · simp [step, hline, hquote, hslash] at hu
              subst hu
              obtain ⟨q, r, rfl, hq, hr⟩ := ih l.length (by simp at hl; omega) h rfl
              exact ⟨_, r, rfl, .char hquote hslash hline hq, hr⟩

/-- What is kept goes on with one more character. -/
lemma run_reverse_cons {u : State} {ch : Char} (hkept : run arch commas {} kept.reverse = some t)
    (hstep : step arch commas t ch = some u) :
    run arch commas {} (ch :: kept).reverse = some u := by
  rw [List.reverse_cons, run_append, hkept, Option.bind_some, run_cons, hstep]
  rfl

/-- What is kept of arguments closes what it opens, if what was kept before does so up to the
brackets that are open. -/
lemma Arguments.whole_of_run (h : Arguments arch next kept opened raw args)
    (hkept : run arch true {} kept.reverse = some t) (ht : t.Outside) (hopened : t.opened = opened)
    (hslash : t.mode = .slash → raw.head? ≠ some '*' ∧
      (arch = .aarch64 → opened = [] → raw.head? ≠ some '/')) : Whole arch true args := by
  -- the state after what is kept is open where the arguments are
  induction h generalizing t with
  | stop =>
      obtain ⟨u, hu, huo, hup⟩ := exists_run_dropWhile hkept ht
      exact ⟨u, hu, huo, hup.trans hopened⟩
  | @joined kept joined opened raw args bracket hjoined _ ih =>
      obtain ⟨u, hu, huo, hup⟩ := exists_run_dropWhile hkept ht
      rw [hjoined, List.reverse_cons, run_append_eq_some_iff] at hu
      obtain ⟨v, hv, hstep⟩ := hu
      obtain ⟨w, hw, hend⟩ := run_cons_eq_some_iff.mp hstep
      cases hend
      obtain ⟨hvo, hvp⟩ := outside_of_step_inert (by decide) hw huo
      -- without the backslash, a blank is kept
      have hrun : run arch true {} (' ' :: joined).reverse = some ⟨v.opened, .plain⟩ :=
        run_reverse_cons hv (step_inert hvo (by decide))
      exact ih hrun (.inl rfl) (hvp.symm.trans (hup.trans hopened)) nofun
  | @comment kept opened body raw args _ _ ih =>
      exact ih (run_reverse_cons hkept (step_inert ht (by decide))) (.inl rfl) hopened nofun
  | @quoted kept opened q raw args hq _ ih =>
      have hrun : run arch true {} (q.reverse ++ '"' :: kept).reverse =
          some ⟨t.opened, .plain⟩ := by
        rw [List.reverse_append, List.reverse_reverse, List.reverse_cons, List.append_assoc,
          run_append, hkept, Option.bind_some, List.singleton_append, run_cons, step_quote ht,
          Option.bind_some, run_quoted hq]
      exact ih hrun (.inl rfl) hopened nofun
  | @opening kept opened raw args ch hch _ ih =>
      exact ih (run_reverse_cons hkept (step_opening ht hch)) (.inl rfl) (by rw [hopened]) nofun
  | @closing kept opened raw args ch hch _ ih =>
      obtain ⟨opened', mode⟩ := t
      obtain rfl := hopened
      exact ih (run_reverse_cons hkept (step_closing ht hch)) (.inl rfl) rfl nofun
  | @char kept opened raw args ch hch hend hcomment _ ih =>
      have hstar (h : t.mode = .slash) : ch ≠ '*' := by
        rintro rfl
        exact (hslash h).1 rfl
      have hends (hnil : t.opened = []) : ¬ Ends arch true t.mode ch := by
        rintro (rfl | hcomma | hhash | ⟨harch, hmode, rfl⟩)
        · exact hend (hopened ▸ hnil) (.inl rfl)
        · cases hcomma.1
        · exact hend (hopened ▸ hnil) (.inr (.inl hhash))
        · exact (hslash hmode).2 harch (hopened ▸ hnil) rfl
      -- only a slash is more than itself, and what follows it is no comment
      refine ih (run_reverse_cons hkept (step_ordinary ht hch hends hstar)) ?_ hopened ?_
      · dsimp only [State.Outside]
        split
        · exact .inr rfl
        · exact .inl rfl
      · dsimp only
        split
        · next h =>
            refine fun _ => ⟨fun hr => hcomment ⟨h, hr⟩, fun harch hnil hr => hend hnil ?_⟩
            exact .inr (.inr ⟨harch, h, by rw [hr, Option.some_or]⟩)
        · exact nofun

/-- What is kept of arguments closes what it opens. -/
lemma Arguments.whole (h : Arguments arch next [] [] raw args) : Whole arch true args :=
  h.whole_of_run rfl (.inl rfl) rfl nofun

/-- What a character does that is read outside strings. -/
lemma step_eq_some {s u : State} {ch : Char} (h : step arch true s ch = some u) (hs : s.Outside) :
    (ch = '"' ∧ u = ⟨s.opened, .quoted⟩) ∨
      ((ch = '(' ∨ ch = '[' ∨ ch = '{') ∧ u = ⟨ch :: s.opened, .plain⟩) ∨
      ((ch = ')' ∨ ch = ']' ∨ ch = '}') ∧ s.opened = Statement.opening ch :: u.opened ∧
        u.mode = .plain) ∨
      (Ordinary ch ∧ (s.opened = [] → ¬ Ends arch true s.mode ch) ∧
        u = ⟨s.opened, if ch = '/' then .slash else .plain⟩) := by
  have hline := ne_newline_of_step h
  have hmode : s.mode ≠ .quoted ∧ s.mode ≠ .escaped := by
    rcases hs with hs | hs <;> simp [hs]
  unfold step at h
  rw [if_neg hline] at h
  split at h
  · next hquoted => exact (hmode.1 hquoted).elim
  · next hescaped => exact (hmode.2 hescaped).elim
  -- neither is a comment opened, nor do the arguments end
  split at h
  · cases h
  split at h
  · cases h
  rename_i hend
  by_cases hquote : ch = '"'
  · rw [if_pos hquote] at h
    cases h
    exact .inl ⟨hquote, rfl⟩
  rw [if_neg hquote] at h
  by_cases hopen : ch = '(' ∨ ch = '[' ∨ ch = '{'
  · rw [if_pos hopen] at h
    cases h
    exact .inr (.inl ⟨hopen, rfl⟩)
  rw [if_neg hopen] at h
  by_cases hclose : ch = ')' ∨ ch = ']' ∨ ch = '}'
  · rw [if_pos hclose] at h
    split at h
    · next bracket others hopened =>
        split at h
        · next hbracket =>
            cases h
            exact .inr (.inr (.inl ⟨hclose, by rw [hopened, hbracket], rfl⟩))
        · cases h
    · cases h
  · rw [if_neg hclose] at h
    cases h
    refine .inr (.inr (.inr ⟨?_, fun hnil hch => hend ⟨hnil, hch⟩, rfl⟩))
    simp only [Ordinary, List.mem_cons, List.not_mem_nil, or_false, not_or]
    simp only [not_or] at hopen hclose
    exact ⟨hline, hquote, hopen.1, hopen.2.1, hopen.2.2, hclose.1, hclose.2.1, hclose.2.2⟩

/-- A text that closes what it opens is kept as it is, but for the blanks at its end. -/
lemma arguments_of_run {mode : Mode} (h : run arch true ⟨opened, mode⟩ l = some t)
    (hs : mode = .plain ∨ mode = .slash) (ht : t.Outside) (hopened : t.opened = [])
    (hnext : next ≠ some '/') :
    Arguments arch next kept opened l ((l.reverse ++ kept).dropWhile isBlank).reverse := by
  -- by the number of characters: a string is gone past at once
  induction hl : l.length using Nat.strongRecOn generalizing l kept opened mode with
  | ind size ih =>
      match l with
      | [] =>
          cases h
          obtain rfl : opened = [] := hopened
          exact .stop
      | c :: l =>
          obtain ⟨u, hu, hrun⟩ := run_cons_eq_some_iff.mp h
          clear h
          have hsize : l.length < size := by
            rw [← hl, List.length_cons]
            omega
          have hkept : (c :: l).reverse ++ kept = l.reverse ++ c :: kept := by simp
          rw [hkept]
          rcases step_eq_some hu hs with ⟨rfl, rfl⟩ | ⟨hc, rfl⟩ | ⟨hc, hop, hmode⟩ |
            ⟨hc, hend, rfl⟩
          · obtain ⟨q, r, rfl, hq, hr⟩ := exists_quoted hrun ht
            have hrest : Arguments arch next (q.reverse ++ '"' :: kept) opened r
                ((r.reverse ++ (q.reverse ++ '"' :: kept)).dropWhile isBlank).reverse :=
              ih r.length (by simp at hsize; omega) hr (.inl rfl) rfl
            rw [List.reverse_append, List.append_assoc]
            exact .quoted hq hrest
          · exact .opening hc (ih l.length hsize hrun (.inl rfl) rfl)
          · obtain ⟨opened', mode'⟩ := u
            obtain rfl : opened = _ := hop
            obtain rfl : mode' = _ := hmode
            exact .closing hc (ih l.length hsize hrun (.inl rfl) rfl)
          · refine .char hc (fun hnil hch => ?_) ?_ (ih l.length hsize hrun ?_ rfl)
            · rcases hch with hsemi | hhash | ⟨harch, rfl, hslash⟩
              · exact hend hnil (.inl hsemi)
              · exact hend hnil (.inr (.inr (.inl hhash)))
              · -- a slash at the end is no comment either, by what follows the text
                cases l with
                | nil => exact hnext hslash
                | cons d l =>
                    obtain rfl : d = '/' := Option.some.inj hslash
                    obtain rfl : opened = [] := hnil
                    simp [run_cons, step, Ends, harch] at hrun
            · rintro ⟨rfl, hstar⟩
              obtain ⟨l, rfl⟩ := List.head?_eq_some_iff.mp hstar
              simp [run_cons, step] at hrun
            · split
              · exact .inr rfl
              · exact .inl rfl

end Whole

end Hermetic

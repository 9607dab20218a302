/-
Archives that are written are read back.

A member is written as a header of sixty bytes and its data, with a line feed after data of odd
length.  The fields of a header are filled up with spaces, its name ends with a slash, and its size
is decimal.

* `Archive.padded`, `Archive.header`, `Archive.memberBytes`, `Archive.write`: how members are
  written;
* `Archive.number?_padded`: the number in a field is read back;
* `Archive.IsMember`: the members whose names stand in their headers;
* `Archive.readMember_memberBytes`: a member is read back, and what follows it is left;
* `Archive.singleMember_write`: an archive is read exactly if it has one member, which is a text.
-/
import Hermetic.Archive
import Mathlib.Algebra.Group.Nat.Defs
import Mathlib.Data.Nat.Notation
import Mathlib.Tactic.Lemma

namespace Hermetic

/-! ### Narrow texts -/

namespace Text.Utf8

/-- The bytes of a text are those of its characters. -/
lemma encode_eq_flatMap (text : String) :
    encode text = text.toList.flatMap String.utf8EncodeChar := by
  rw [encode, String.toUTF8_eq_toByteArray, ← String.utf8Encode_toList, List.utf8Encode]
  simp

end Text.Utf8

namespace Archive

open Text.Utf8

variable {c : Char} {l r : List UInt8} {n : ℕ}

lemma toNat_byte (h : c.toNat < 128) : (byte c).toNat = c.toNat := by
  rw [byte, Nat.toUInt8, UInt8.toNat_ofNat']
  omega

/-- Narrow characters are told apart by their bytes. -/
lemma byte_ne {d : Char} (hc : c.toNat < 128) (hd : d.toNat < 128) (h : c ≠ d) :
    byte c ≠ byte d := by
  intro heq
  have hnat := congrArg UInt8.toNat heq
  rw [toNat_byte hc, toNat_byte hd] at hnat
  exact h (Char.toNat_inj.mp hnat)

/-- A text of narrow characters takes a byte for each. -/
lemma bytes_of_narrow {text : String} (h : ∀ c ∈ text.toList, c.toNat < 128) :
    bytes text = text.toList.map byte := by
  rw [bytes, encode_eq_flatMap]
  generalize text.toList = cs at h ⊢
  induction cs with
  | nil => rfl
  | cons c cs ih =>
      have hc := h c List.mem_cons_self
      have hchar : String.utf8EncodeChar c = [byte c] := by
        have hle : c.val.toNat ≤ 127 := Nat.le_of_lt_succ hc
        rw [String.utf8EncodeChar, if_pos hle]
        rfl
      rw [List.flatMap_cons, hchar, ih fun d hd => h d (List.mem_cons_of_mem _ hd)]
      rfl

/-- A text of narrow characters is read back, whatever may be wrong with others. -/
lemma decodeLossy_bytes {text : String} (h : ∀ c ∈ text.toList, c.toNat < 128) :
    decodeLossy (bytes text) = text := by
  rw [decodeLossy, bytes_of_narrow h, ← String.toList_inj, String.toList_ofList]
  generalize text.toList = cs at h ⊢
  induction cs with
  | nil => rfl
  | cons c cs ih =>
      have hc := h c List.mem_cons_self
      have hstep : step none (byte c) = ([c], none) := by
        rw [step, lead, toNat_byte hc, if_pos hc, Char.ofNat_toNat]
      rw [List.map_cons, decodeFrom, hstep, ih fun d hd => h d (List.mem_cons_of_mem _ hd)]
      rfl

/-! ### Fields -/

/-- A field of a header, filled up with spaces. -/
def padded (width : ℕ) (l : List UInt8) : List UInt8 :=
  l ++ List.replicate (width - l.length) (byte ' ')

/-- The decimal digits of a number. -/
def digits (n : ℕ) : List UInt8 :=
  bytes (toString n)

lemma length_padded {width : ℕ} (h : l.length ≤ width) : (padded width l).length = width := by
  rw [padded, List.length_append, List.length_replicate]
  omega

lemma toNat_lt_of_isDigit (h : c.isDigit = true) : c.toNat < 128 := by
  simp only [Char.isDigit, Bool.and_eq_true, decide_eq_true_eq] at h
  have hle : c.toNat ≤ 57 := h.2
  omega

/-- The digits of a number, as the characters that they are. -/
lemma digits_eq_map (n : ℕ) : digits n = (Nat.toDigits 10 n).map byte := by
  have htext : (toString n).toList = Nat.toDigits 10 n := by
    rw [Nat.toString_eq_repr, Nat.toList_repr]
  rw [digits, bytes_of_narrow, htext]
  rw [htext]
  exact fun c hc => toNat_lt_of_isDigit (Nat.isDigit_of_mem_toDigits (by decide) (by decide) hc)

lemma length_digits (h : n < 10 ^ 10) : (digits n).length ≤ 10 := by
  rw [digits_eq_map, List.length_map]
  exact (Nat.length_toDigits_le_iff (by decide) (by decide)).mpr h

lemma isDigit_byte (h : c.isDigit = true) : isDigit (byte c) = true := by
  have hnat := toNat_byte (toNat_lt_of_isDigit h)
  simp only [Char.isDigit, Bool.and_eq_true, decide_eq_true_eq] at h
  have hlow : 48 ≤ c.toNat := h.1
  have hhigh : c.toNat ≤ 57 := h.2
  rw [isDigit, Bool.and_eq_true, decide_eq_true_eq, decide_eq_true_eq, UInt8.le_iff_toNat_le,
    UInt8.le_iff_toNat_le, hnat]
  exact ⟨hlow, hhigh⟩

/-- A number is read back from its digits. -/
lemma ofDigits_digits (n : ℕ) : ofDigits (digits n) = n := by
  have hfold (cs : List Char) (hcs : ∀ c ∈ cs, c.isDigit = true) (init : ℕ) :
      (cs.map byte).foldl (fun n b => n * 10 + (b.toNat - '0'.toNat)) init =
        Nat.ofDigitChars 10 cs init := by
    induction cs generalizing init with
    | nil => rfl
    | cons c cs ih =>
        have hc := toNat_byte (toNat_lt_of_isDigit (hcs c List.mem_cons_self))
        rw [List.map_cons, List.foldl_cons, hc, Nat.ofDigitChars_cons, Nat.mul_comm init]
        exact ih (fun d hd => hcs d (List.mem_cons_of_mem _ hd)) _
  rw [digits_eq_map, ofDigits,
    hfold _ fun c hc => Nat.isDigit_of_mem_toDigits (by decide) (by decide) hc]
  exact Nat.ofDigitChars_ten_toDigits

/-- What stands before the spaces of a field ends where they begin. -/
lemma takeWhile_padded {p : UInt8 → Bool} (hl : ∀ b ∈ l, p b = true) (hspace : p (byte ' ') = false)
    (width : ℕ) : (padded width l).takeWhile p = l := by
  rw [padded, List.takeWhile_append_of_pos hl]
  cases width - l.length with
  | zero => rw [List.replicate_zero, List.takeWhile_nil, List.append_nil]
  | succ k =>
      rw [List.replicate_succ, List.takeWhile_cons_of_neg (by simp [hspace]), List.append_nil]

/-- The number in a field is read back. -/
lemma number?_padded (width n : ℕ) : number? (padded width (digits n)) = some n := by
  have hdigit (b : UInt8) (hb : b ∈ digits n) : ∃ c : Char, c.isDigit = true ∧ b = byte c := by
    rw [digits_eq_map, List.mem_map] at hb
    obtain ⟨c, hc, rfl⟩ := hb
    exact ⟨c, Nat.isDigit_of_mem_toDigits (by decide) (by decide) hc, rfl⟩
  have htake : (padded width (digits n)).takeWhile (· != byte ' ') = digits n := by
    refine takeWhile_padded (fun b hb => ?_) (by decide) width
    obtain ⟨c, hc, rfl⟩ := hdigit b hb
    have hne : c ≠ ' ' := by
      rintro rfl
      exact absurd hc (by decide)
    simpa using byte_ne (toNat_lt_of_isDigit hc) (by decide) hne
  have hnonempty : (digits n).isEmpty = false := by
    rw [digits_eq_map, List.isEmpty_map, List.isEmpty_eq_false_iff]
    exact Nat.toDigits_ne_nil
  have hall : (digits n).all isDigit = true := by
    rw [List.all_eq_true]
    intro b hb
    obtain ⟨c, hc, rfl⟩ := hdigit b hb
    exact isDigit_byte hc
  rw [number?, htake, hnonempty, hall, ofDigits_digits]
  rfl

/-! ### Writing -/

/-- The name in a header, with a slash after it. -/
def nameField (name : String) : List UInt8 :=
  padded 16 (bytes name ++ [byte '/'])

/-- The fields of a header that nothing reads: a date, two owners and a mode. -/
def otherFields : List UInt8 :=
  padded 12 (digits 0) ++ padded 6 (digits 0) ++ padded 6 (digits 0) ++ padded 8 (digits 644)

/-- The size in a header. -/
def sizeField (size : ℕ) : List UInt8 :=
  padded 10 (digits size)

/-- The header of a member. -/
def header (name : String) (size : ℕ) : List UInt8 :=
  nameField name ++ (otherFields ++ (sizeField size ++ bytes "\x60\n"))

/-- A member as it is written: data of odd length is followed by a line feed. -/
def memberBytes (m : String × List UInt8) : List UInt8 :=
  header m.1 m.2.length ++ (m.2 ++ if m.2.length % 2 = 1 then [byte '\n'] else [])

/-- An archive of some members. -/
def write (members : List (String × List UInt8)) : List UInt8 :=
  bytes "!<arch>\n" ++ members.flatMap memberBytes

/-- The members whose headers hold their names, and which hold no symbols of others. -/
structure IsMember (m : String × List UInt8) : Prop where
  given : m.1 ≠ ""
  length : m.1.length ≤ 15
  narrow : ∀ c ∈ m.1.toList, c.toNat < 128
  chars : ∀ c ∈ m.1.toList, c ∉ ['/', ' ', '\x00']
  ordinary : m.1 ∉ ["__.SYMDEF", "__.SYMDEF SORTED", "__.SYMDEF_64", "__.SYMDEF_64 SORTED"]
  size : m.2.length < 10 ^ 10

variable {m : String × List UInt8} {members : List (String × List UInt8)}

namespace IsMember

lemma bytes_eq_map (h : IsMember m) : bytes m.1 = m.1.toList.map byte :=
  bytes_of_narrow h.narrow

lemma length_bytes (h : IsMember m) : (bytes m.1).length ≤ 15 := by
  rw [h.bytes_eq_map, List.length_map, String.length_toList]
  exact h.length

/-- A name has neither slashes nor spaces. -/
lemma byte_ne_of_mem (h : IsMember m) {d : Char} (hd : d ∈ ['/', ' ', '\x00']) {b : UInt8}
    (hb : b ∈ bytes m.1) : b ≠ byte d := by
  rw [h.bytes_eq_map, List.mem_map] at hb
  obtain ⟨c, hc, rfl⟩ := hb
  refine byte_ne (h.narrow c hc) ?_ fun heq => h.chars c hc (heq ▸ hd)
  simp only [List.mem_cons, List.not_mem_nil, or_false] at hd
  rcases hd with rfl | rfl | rfl <;> decide

/-- A name starts with no slash. -/
lemma exists_bytes_eq_cons (h : IsMember m) :
    ∃ b bs, bytes m.1 = b :: bs ∧ b ≠ byte '/' := by
  obtain ⟨b, bs, hbytes⟩ : ∃ b bs, bytes m.1 = b :: bs := by
    refine List.exists_cons_of_ne_nil fun hnil => h.given ?_
    rw [h.bytes_eq_map, List.map_eq_nil_iff] at hnil
    exact String.toList_eq_nil_iff.mp hnil
  exact ⟨b, bs, hbytes, h.byte_ne_of_mem (by simp) (hbytes ▸ List.mem_cons_self)⟩

end IsMember

/-! ### Reading a member -/

lemma length_nameField (h : IsMember m) : (nameField m.1).length = 16 := by
  refine length_padded ?_
  have hlength := h.length_bytes
  rw [List.length_append, List.length_singleton]
  omega

lemma length_otherFields : otherFields.length = 32 := by
  decide +kernel

lemma length_sizeField (h : IsMember m) : (sizeField m.2.length).length = 10 :=
  length_padded (length_digits h.size)

lemma length_mark : (bytes "\x60\n").length = 2 := by
  decide +kernel

lemma length_header (h : IsMember m) : (header m.1 m.2.length).length = 60 := by
  simp only [header, List.length_append, length_nameField h, length_otherFields,
    length_sizeField h, length_mark]

/-- The fields that are read of a header, and what follows it. -/
lemma fields_header (h : IsMember m) (rest : List UInt8) :
    let l := header m.1 m.2.length ++ rest
    l.take 16 = nameField m.1 ∧ (l.drop 48).take 10 = sizeField m.2.length ∧
      (l.drop 58).take 2 = bytes "\x60\n" ∧ l.drop 60 = rest := by
  intro l
  have hname := length_nameField h
  have hbefore : (nameField m.1 ++ otherFields).length = 48 := by
    rw [List.length_append, hname, length_otherFields]
  have hsize := length_sizeField h
  have hall : (nameField m.1 ++ otherFields ++ sizeField m.2.length).length = 58 := by
    rw [List.length_append, hbefore, hsize]
  have hl : l = nameField m.1 ++ (otherFields ++ (sizeField m.2.length ++
      (bytes "\x60\n" ++ rest))) := by
    simp [l, header]
  refine ⟨?_, ?_, ?_, List.drop_left' (length_header h)⟩
  · rw [hl]
    exact List.take_left' hname
  · rw [hl, ← List.append_assoc, List.drop_left' hbefore]
    exact List.take_left' hsize
  · rw [hl, ← List.append_assoc, ← List.append_assoc, List.drop_left' hall]
    exact List.take_left' length_mark

/-- A name goes to the slash after it. -/
lemma takeWhile_nameField (h : IsMember m) :
    (nameField m.1).takeWhile (· != byte '/') = bytes m.1 := by
  rw [nameField, padded, List.append_assoc, List.takeWhile_append_of_pos, List.singleton_append,
    List.takeWhile_cons_of_neg (by simp), List.append_nil]
  intro b hb
  simpa using h.byte_ne_of_mem (by simp) hb

/-- The name of a member is read back. -/
lemma headerName_nameField (h : IsMember m) : headerName (nameField m.1) = bytes m.1 := by
  obtain ⟨b, bs, hb, hslash⟩ := h.exists_bytes_eq_cons
  have hhead : ¬ (nameField m.1).head? = some (byte '/') := by
    rw [nameField, padded, hb]
    simpa using hslash
  have hmem : (nameField m.1).contains (byte '/') = true := by
    simp [nameField, padded]
  rw [headerName, if_neg hhead, if_pos hmem, upTo, takeWhile_nameField h]

/-- A name that stands in its header is taken from there. -/
lemma memberOf_nameField (h : IsMember m) (table rest : List UInt8) :
    memberOf table m.2.length (nameField m.1) (m.2 ++ rest) = .ok ⟨bytes m.1, some m.2⟩ := by
  obtain ⟨b, bs, hb, hslash⟩ := h.exists_bytes_eq_cons
  have hhead : ¬ ((nameField m.1).head? = some (byte '/') ∧
      ((nameField m.1)[1]?).any isDigit = true) := by
    rw [nameField, padded, hb]
    simp [hslash]
  -- a slash in the third place ends the name, and a space follows it
  have hlong : ¬ ((bytes "#1/").isPrefixOf (nameField m.1) = true ∧
      ((nameField m.1)[3]?).any isDigit = true) := by
    rintro ⟨hstart, hdigit⟩
    obtain ⟨t, ht⟩ := List.isPrefixOf_iff_prefix.mp hstart
    have hname : bytes m.1 = bytes "#1" := by
      rw [← takeWhile_nameField h, ← ht]
      have hstop : bytes "#1/" ++ t = bytes "#1" ++ byte '/' :: t := by
        rw [show bytes "#1/" = bytes "#1" ++ [byte '/'] by decide +kernel, List.append_assoc]
        rfl
      rw [hstop, List.takeWhile_append_of_pos (by decide +kernel),
        List.takeWhile_cons_of_neg (by simp), List.append_nil]
    rw [nameField, hname] at hdigit
    exact absurd hdigit (by decide +kernel)
  have hdata : takeExactly m.2.length (m.2 ++ rest) = some m.2 := by
    rw [takeExactly, if_pos (by simp), List.take_left]
  rw [memberOf, if_neg hhead, if_neg hlong, hdata, headerName_nameField h]

/-- A member is read back, and what follows it is left. -/
lemma readMember_memberBytes (h : IsMember m) (table rest : List UInt8) :
    readMember false table (memberBytes m ++ rest) = .ok (⟨bytes m.1, some m.2⟩, rest) := by
  have hl : memberBytes m ++ rest = header m.1 m.2.length ++
      (m.2 ++ ((if m.2.length % 2 = 1 then [byte '\n'] else []) ++ rest)) := by
    simp only [memberBytes, List.append_assoc]
  obtain ⟨hname, hsize, hmark, hdata⟩ := fields_header h
    (m.2 ++ ((if m.2.length % 2 = 1 then [byte '\n'] else []) ++ rest))
  have hlength : ¬ (memberBytes m ++ rest).length < 60 := by
    rw [hl, List.length_append, length_header h]
    omega
  rw [← hl] at hname hsize hmark hdata
  have hpadding : (m.2 ++ ((if m.2.length % 2 = 1 then [byte '\n'] else []) ++ rest)).drop
      (m.2.length + m.2.length % 2) = rest := by
    rw [← List.append_assoc]
    refine List.drop_left' ?_
    rw [List.length_append]
    split
    · next hodd => rw [hodd, List.length_singleton]
    · next heven => rw [List.length_nil, Nat.mod_two_ne_one.mp heven]
  rw [readMember, if_neg hlength, hname, hsize, hmark, hdata, sizeField, number?_padded]
  simp only [bne_self_eq_false, Bool.false_eq_true, if_false, memberOf_nameField h, hpadding]
  rfl

/-! ### Reading an archive -/

lemma bytes_inj {s t : String} : bytes s = bytes t ↔ s = t := by
  refine ⟨fun h => ?_, congrArg bytes⟩
  have hdecoded := congrArg decode? h
  rw [bytes, bytes, decode?_encode, decode?_encode] at hdecoded
  exact Option.some.inj hdecoded

/-- The name of a member is not that of a table. -/
lemma IsMember.bytes_ne (h : IsMember m) {table : String} (ht : byte '/' ∈ bytes table) :
    bytes m.1 ≠ bytes table :=
  fun heq => h.byte_ne_of_mem (d := '/') (by simp) (heq ▸ ht) rfl

lemma IsMember.notMem_symbolMembers (h : IsMember m) :
    symbolMembers.contains (bytes m.1) = false := by
  have hnames : symbolMembers = ["__.SYMDEF", "__.SYMDEF SORTED", "__.SYMDEF_64",
      "__.SYMDEF_64 SORTED"].map bytes := rfl
  rw [hnames, List.contains_eq_mem, decide_eq_false_iff_not]
  intro hmem
  obtain ⟨name, hname, heq⟩ := List.mem_map.mp hmem
  exact h.ordinary (bytes_inj.mp heq ▸ hname)

lemma isEmpty_memberBytes_append (h : IsMember m) (rest : List UInt8) :
    (memberBytes m ++ rest).isEmpty = false := by
  have hlength := length_header h
  rw [List.isEmpty_eq_false_iff, memberBytes, List.append_assoc]
  exact List.append_ne_nil_of_left_ne_nil (List.ne_nil_of_length_pos (by omega)) _

/-- The first member is no table. -/
lemma skipTables_memberBytes (h : IsMember m) (rest : List UInt8) :
    skipTables false (memberBytes m ++ rest) = .ok (memberBytes m ++ rest, []) := by
  have hslash : bytes m.1 ≠ bytes "/" := h.bytes_ne (by decide +kernel)
  have hsymbols : bytes m.1 ≠ bytes "/SYM64/" := h.bytes_ne (by decide +kernel)
  have hnames : bytes m.1 ≠ bytes "//" := h.bytes_ne (by decide +kernel)
  have hordinary := h.notMem_symbolMembers
  rw [skipTables, isEmpty_memberBytes_append h, readMember_memberBytes h]
  simp only [bind, Except.bind, hslash, hsymbols, hnames, hordinary, or_self, if_false,
    Bool.false_eq_true]
  rfl

lemma onlyMember_write (members : List (String × List UInt8)) :
    onlyMember (write members) = (do
      let (found, table) ← skipTables false (members.flatMap memberBytes)
      if found.isEmpty then throw .noMember
      let (member, rest) ← readMember false table found
      if !rest.isEmpty then throw .severalMembers
      return member) := by
  have hmark : (bytes "!<arch>\n").length = 8 := by decide +kernel
  have hthin : isThin (write members) = .ok false := by
    have hlength : ¬ (write members).length < 8 := by
      rw [write, List.length_append, hmark]
      omega
    rw [isThin, if_neg hlength, write, List.take_left' hmark, if_pos rfl]
  rw [onlyMember, hthin, write, List.drop_left' hmark]
  rfl

/-- What is found in an archive: its only member, or that there is none or another. -/
lemma onlyMember_write_eq (h : ∀ m ∈ members, IsMember m) :
    onlyMember (write members) = match members with
      | [] => .error .noMember
      | [m] => .ok ⟨bytes m.1, some m.2⟩
      | _ :: _ :: _ => .error .severalMembers := by
  rw [onlyMember_write]
  match members with
  | [] => rfl
  | m :: rest =>
      have hm := h m List.mem_cons_self
      rw [List.flatMap_cons, skipTables_memberBytes hm]
      simp only [bind, Except.bind, isEmpty_memberBytes_append hm, readMember_memberBytes hm]
      cases rest with
      | nil => rfl
      | cons m' rest =>
          have hm' := h m' (by simp)
          rw [List.flatMap_cons, isEmpty_memberBytes_append hm']
          rfl

/-- An archive is read as its only member, if the data of that is a text. -/
lemma singleMember_write_eq (h : ∀ m ∈ members, IsMember m) :
    singleMember (write members) = match members with
      | [] => .error .noMember
      | [m] =>
        match decode? m.2 with
        | some text => .ok (m.1, text)
        | none => .error (.notText m.1)
      | _ :: _ :: _ => .error .severalMembers := by
  rw [singleMember, onlyMember_write_eq h]
  match members with
  | [] => rfl
  | [m] =>
      have hname : decodeLossy (bytes m.1) = m.1 := decodeLossy_bytes (h m (by simp)).narrow
      simp only [bind, Except.bind, hname]
      cases decode? m.2 <;> rfl
  | _ :: _ :: _ => rfl

/-- An archive of members whose names stand in their headers is read exactly if it has one member
whose data is a text, as the name of that member and that text.  Otherwise it has no member, or
several, or one whose data is no text, and this is told. -/
theorem singleMember_write (h : ∀ m ∈ members, IsMember m) :
    (∀ name text, singleMember (write members) = .ok (name, text) ↔
      members = [(name, bytes text)]) ∧
    (singleMember (write members) = .error .noMember ↔ members = []) ∧
    (singleMember (write members) = .error .severalMembers ↔ 2 ≤ members.length) ∧
    ∀ name, singleMember (write members) = .error (.notText name) ↔
      ∃ data, members = [(name, data)] ∧ ∀ text, bytes text ≠ data := by
  rw [singleMember_write_eq h]
  match members with
  | [] => simp
  | [(name, data)] =>
      have htext (text : String) : decode? data = some text ↔ bytes text = data :=
        decode?_eq_some_iff
      cases hdecoded : decode? data with
      | none =>
          -- the data is no text, so that only the third error is left
          have hnone (text : String) : bytes text ≠ data := fun heq => by
            rw [← htext, hdecoded] at heq
            cases heq
          have hother (name' text : String) : (name, data) ≠ (name', bytes text) :=
            fun heq => hnone text (Prod.ext_iff.mp heq).2.symm
          simp only [hdecoded]
          refine ⟨by simp [hother], by simp, by simp, fun name' => ?_⟩
          rw [Except.error.injEq, Fault.notText.injEq]
          refine ⟨fun heq => ⟨data, by rw [heq], hnone⟩, ?_⟩
          rintro ⟨data', heq, -⟩
          exact (Prod.ext_iff.mp (List.singleton_inj.mp heq)).1
      | some text =>
          obtain rfl := (htext text).mp hdecoded
          simp only [hdecoded]
          simp [bytes_inj, eq_comm]
  | _ :: _ :: _ => simp

/-- A member with data of odd length. -/
theorem singleMember_write_odd :
    (∀ m ∈ [("bcm.s", bytes "\tnop\n\n\n")], IsMember m) ∧
      singleMember (write [("bcm.s", bytes "\tnop\n\n\n")]) = .ok ("bcm.s", "\tnop\n\n\n") := by
  have h : ∀ m ∈ [("bcm.s", bytes "\tnop\n\n\n")], IsMember m := by
    intro m hm
    obtain rfl := List.mem_singleton.mp hm
    exact ⟨by decide, by decide, by simp, by simp, by decide, by decide +kernel⟩
  exact ⟨h, ((singleMember_write h).1 _ _).mpr rfl⟩

end Archive

end Hermetic

import ContentStream.Listing.Tokens
import ContentStream.Proofs.Literals
import ContentStream.Proofs.Mnemonics

/-!
# Listed tokens

The text listing of a program shows each token much as it is written in a content stream. What can
be read of it is a question for each kind of token.

* The bytes of a string are listed one by one. Some are listed as they are, some as a letter behind
  a backslash, which reads as the byte again, and the others in a hexadecimal form that literal
  strings do not know. Parentheses are listed as they are, so the end of the string is found where
  it should be exactly if they nest.
* A name is listed as text. Reading it again passes over its characters and can lag behind, at a
  number sign with two digits, but never run ahead. So nothing that lags can come out right, and a
  name is read as itself exactly if it has no such escapes, no byte that ends a name, and no bytes
  that form no character.
* A finite number is listed by digits around at most one point.
* An operator is listed by its spelling, in which bytes that form no character have been replaced.
  Nothing that the lexer looks at is changed by that.

## Main definitions

* `Literal.isListable`, `Literal.nests`: what is asked of a string.
* `Name.IsListable`: what is asked of a name.
* `Operator.IsWritten`: operators that a content stream can have.

## Main results

* `Literal.decodeLiteral_escapeAll`, `Literal.literalLength?_escapeAll`,
  `Literal.listable_of_decodeLiteral`: which strings are read as themselves.
* `Name.reread_eq_iff`: which names are.
* `NumberText.exists_write_eq_of_finite`: numbers are listed as they can be written.
* `OperatorText.ofBytes_rewrite`, `isWritten_of_mem_scanFrom`: so are operators.
-/

namespace ContentStream

/-- A statement about every byte can be checked byte by byte. -/
theorem forall_byte {P : UInt8 → Prop} (h : ∀ n < 256, P (UInt8.ofNat n)) (b : UInt8) : P b := by
  have hb := h b.toNat b.toNat_lt
  rwa [UInt8.ofNat_toNat] at hb

/-! ### Strings -/

namespace Literal

/-- A string **as it is listed**, without its parentheses. -/
def escapeAll (s : Bytes) : Bytes :=
  Utf8.encode (Text.escaped s)

/-- The bytes that a listing of a string **keeps apart from all others**: printable ASCII
characters, the tabulator and the two bytes that end a line. -/
def isListable (b : UInt8) : Bool :=
  b == byte '\t' || isLineEnd b || (0x20 ≤ b && b < 0x7F)

/-- The bytes that are **listed behind a backslash**, with the letter that is listed for them. -/
def listedLetters : List (UInt8 × UInt8) :=
  [(byte 't', byte '\t'), (byte 'r', byte '\r'), (byte 'n', byte '\n'), (byte '\'', byte '\''),
    (byte '"', byte '"'), (byte '\\', byte '\\')]

/-- A byte is listed by ASCII characters only. -/
theorem escapedByte_ascii (b : UInt8) : ∀ c ∈ Text.escapedByte b, c.toNat < 0x80 := by
  have hall : ∀ b, (Text.escapedByte b).all (fun c => c.toNat < 0x80) = true :=
    forall_byte (by decide +kernel)
  simpa using hall b

/-- A string is listed byte by byte. -/
theorem escapeAll_cons (b : UInt8) (s : Bytes) :
    escapeAll (b :: s) = (Text.escapedByte b).map byte ++ escapeAll s := by
  rw [escapeAll, Text.escaped, List.flatMap_cons, String.ofList_append, Utf8.encode_append,
    Utf8.encode_ofList_of_ascii (escapedByte_ascii b)]
  rfl

/-- The empty string is listed as nothing. -/
theorem escapeAll_nil : escapeAll [] = [] :=
  Utf8.encode_ofList []

/-- How a byte **is listed**: as it is, as a letter behind a backslash, or, if it cannot be told
apart, by an escape that literal strings do not know. -/
inductive ListedAs (b : UInt8) : Bytes → Prop
  | itself (hlistable : isListable b = true) (hescape : b ≠ byte '\\') (hreturn : b ≠ byte '\r') :
      ListedAs b [b]
  | letter {e : UInt8} (hlistable : isListable b = true) (he : (e, b) ∈ listedLetters) :
      ListedAs b [byte '\\', e]
  | hexadecimal {digits : Bytes} (hlistable : isListable b = false) :
      ListedAs b (byte '\\' :: byte 'x' :: digits)

/-- Every byte is listed in one of three ways, which is checked byte by byte. All that is needed of
the third way are the two bytes that it begins with. -/
theorem listedAs (b : UInt8) : ListedAs b ((Text.escapedByte b).map byte) := by
  have hcases : ∀ b : UInt8,
      (isListable b = true ∧ b ≠ byte '\\' ∧ b ≠ byte '\r' ∧
        (Text.escapedByte b).map byte = [b]) ∨
      (isListable b = true ∧ ∃ x ∈ listedLetters, x.2 = b ∧
        (Text.escapedByte b).map byte = [byte '\\', x.1]) ∨
      (isListable b = false ∧
        ((Text.escapedByte b).map byte).take 2 = [byte '\\', byte 'x']) :=
    forall_byte (by decide +kernel)
  obtain ⟨hlistable, hescape, hreturn, hb⟩ | ⟨hlistable, ⟨e, v⟩, he, rfl, hb⟩ | ⟨hlistable, hb⟩ :=
    hcases b
  · rw [hb]
    exact .itself hlistable hescape hreturn
  · rw [hb]
    exact .letter hlistable he
  · rw [← List.take_append_drop 2 ((Text.escapedByte b).map byte), hb]
    exact .hexadecimal hlistable

/-- A string is listed as its first byte is, and behind that as the rest is. -/
theorem exists_listedAs (b : UInt8) (s : Bytes) :
    ∃ text, ListedAs b text ∧ escapeAll (b :: s) = text ++ escapeAll s :=
  ⟨_, listedAs b, escapeAll_cons b s⟩

/-- A listed letter reads as the byte that it is listed for. -/
theorem decodeLiteral_listedLetter {e b : UInt8} (he : (e, b) ∈ listedLetters) (rest : Bytes) :
    decodeLiteral (byte '\\' :: e :: rest) = b :: decodeLiteral rest := by
  have hescape : escape (e :: rest) = ([b], 1) := by
    simp only [listedLetters, List.mem_cons, List.not_mem_nil, or_false, Prod.mk.injEq] at he
    obtain ⟨rfl, rfl⟩ | ⟨rfl, rfl⟩ | ⟨rfl, rfl⟩ | ⟨rfl, rfl⟩ | ⟨rfl, rfl⟩ | ⟨rfl, rfl⟩ := he
    all_goals rfl
  rw [decodeLiteral, units_cons, literalUnit_backslash, hescape]
  rfl

/-- The hexadecimal form is no escape of a literal string: the letter reads as itself. -/
theorem decodeLiteral_hexadecimal (rest : Bytes) :
    decodeLiteral (byte '\\' :: byte 'x' :: rest) = byte 'x' :: decodeLiteral rest := by
  rw [decodeLiteral, units_cons, literalUnit_backslash]
  rfl

/-- A byte that is neither a backslash nor a carriage return reads as itself. -/
theorem decodeLiteral_cons_of_ne {b : UInt8} (hescape : b ≠ byte '\\') (hreturn : b ≠ byte '\r')
    (rest : Bytes) : decodeLiteral (b :: rest) = b :: decodeLiteral rest := by
  rw [decodeLiteral, units_cons, literalUnit_of_ne hescape hreturn]
  rfl

/-- The **depth of parentheses** behind a byte; none if the byte closes one that is not open. -/
def depthAfter? (depth : Nat) (b : UInt8) : Option Nat :=
  if b == byte '(' then some (depth + 1)
  else if b == byte ')' then
    match depth with
    | 0 => none
    | depth + 1 => some depth
  else some depth

/-- A letter behind a backslash is no parenthesis, so that it does not change the depth. -/
theorem depthAfter?_listedLetter {e b : UInt8} (he : (e, b) ∈ listedLetters) (depth : Nat) :
    depthAfter? depth b = some depth := by
  simp only [listedLetters, List.mem_cons, List.not_mem_nil, or_false, Prod.mk.injEq] at he
  obtain ⟨rfl, rfl⟩ | ⟨rfl, rfl⟩ | ⟨rfl, rfl⟩ | ⟨rfl, rfl⟩ | ⟨rfl, rfl⟩ | ⟨rfl, rfl⟩ := he
  all_goals rfl

/-- In the search for the end of a string, a byte that is no backslash counts as a parenthesis or
not at all. -/
theorem literalLength?_cons {b : UInt8} (hescape : b ≠ byte '\\') (depth : Nat) (rest : Bytes) :
    literalLength? depth (b :: rest) = (depthAfter? depth b).elim (some 0) fun depth =>
      (literalLength? depth rest).map (· + 1) := by
  rw [literalLength?.eq_def, depthAfter?.eq_def]
  simp only [beq_false_of_ne hescape, Bool.false_eq_true, if_false]
  split
  · rfl
  · split
    · cases depth <;> rfl
    · rfl

/-- Whether the **parentheses** of some bytes **nest**, if `depth` of them were opened before: each
one is closed, and none is closed that is not open. -/
def nests : (depth : Nat) → Bytes → Bool
  | depth, [] => depth == 0
  | depth, b :: bs => (depthAfter? depth b).any fun depth => nests depth bs

/-- A string with listable bytes and nested parentheses is listed up to where it ends. The induction
is on the string, with the depth that has been reached. -/
theorem literalLength?_escapeAll {s : Bytes} (hs : ∀ b ∈ s, isListable b = true) {depth : Nat}
    (hnests : nests depth s = true) (rest : Bytes) :
    literalLength? depth (escapeAll s ++ byte ')' :: rest) = some (escapeAll s).length := by
  induction s generalizing depth with
  | nil =>
      obtain rfl : depth = 0 := by simpa [nests] using hnests
      rw [escapeAll_nil]
      exact literalLength?_end rest
  | cons b s ih =>
      obtain ⟨hb, hs⟩ := List.forall_mem_cons.mp hs
      obtain ⟨depth', hdepth, hnests⟩ := (Option.any_eq_true _ _).mp hnests
      obtain ⟨text, hlisted, htext⟩ := exists_listedAs b s
      rw [htext, List.append_assoc, List.length_append]
      cases hlisted with
      | itself _ hescape hreturn =>
          rw [List.singleton_append, literalLength?_cons hescape, hdepth, Option.elim_some,
            ih hs hnests, Option.map_some, Nat.add_comm]
          rfl
      | letter _ he =>
          obtain rfl := Option.some.inj ((depthAfter?_listedLetter he depth).symm.trans hdepth)
          rw [List.cons_append, List.singleton_append, literalLength?_escape, ih hs hnests,
            Option.map_some, Nat.add_comm]
          rfl
      | hexadecimal hlistable =>
          rw [hlistable] at hb
          cases hb

/-- A string with listable bytes is what its listing decodes to. The induction is on the string,
with a case for each way to list its first byte. -/
theorem decodeLiteral_escapeAll {s : Bytes} (hs : ∀ b ∈ s, isListable b = true) :
    decodeLiteral (escapeAll s) = s := by
  induction s with
  | nil =>
      rw [escapeAll_nil]
      rfl
  | cons b s ih =>
      obtain ⟨hb, hs⟩ := List.forall_mem_cons.mp hs
      obtain ⟨text, hlisted, htext⟩ := exists_listedAs b s
      rw [htext]
      cases hlisted with
      | itself _ hescape hreturn =>
          rw [List.singleton_append, decodeLiteral_cons_of_ne hescape hreturn, ih hs]
      | letter _ he =>
          rw [List.cons_append, List.singleton_append, decodeLiteral_listedLetter he, ih hs]
      | hexadecimal hlistable =>
          rw [hlistable] at hb
          cases hb

/-- If a listed string is read as itself, its bytes are listable and its parentheses nest. This is
the hard half: a byte that is listed in a form that does not exist reads as more bytes than it
was. -/
theorem listable_of_decodeLiteral {s : Bytes} {depth n : Nat} {rest : Bytes}
    (hlength : literalLength? depth (escapeAll s ++ byte ')' :: rest) = some n)
    (hdecode : decodeLiteral ((escapeAll s ++ byte ')' :: rest).take n) = s) :
    (∀ b ∈ s, isListable b = true) ∧ nests depth s = true := by
  induction s generalizing depth n with
  | nil =>
      rw [escapeAll_nil, List.nil_append] at hlength hdecode
      obtain _ | depth := depth
      · exact ⟨nofun, rfl⟩
      · rw [literalLength?_close] at hlength
        obtain ⟨k, -, rfl⟩ := Option.map_eq_some_iff.mp hlength
        rw [List.take_succ_cons, decodeLiteral, units_cons] at hdecode
        cases hdecode
  | cons b s ih =>
      obtain ⟨text, hlisted, htext⟩ := exists_listedAs b s
      rw [htext, List.append_assoc] at hlength hdecode
      cases hlisted with
      | itself hlistable hescape hreturn =>
          rw [List.singleton_append] at hlength hdecode
          rw [literalLength?_cons hescape] at hlength
          rw [nests]
          rcases hdepth : depthAfter? depth b with _ | depth'
          -- the search would have ended before the byte, which was read
          · rw [hdepth] at hlength
            obtain rfl := Option.some.inj hlength
            cases hdecode
          · rw [hdepth] at hlength
            obtain ⟨k, hk, rfl⟩ := Option.map_eq_some_iff.mp hlength
            rw [List.take_succ_cons, decodeLiteral_cons_of_ne hescape hreturn] at hdecode
            obtain ⟨hall, hnests⟩ := ih hk (List.cons.inj hdecode).2
            exact ⟨List.forall_mem_cons.mpr ⟨hlistable, hall⟩, hnests⟩
      | letter hlistable he =>
          rw [List.cons_append, List.singleton_append] at hlength hdecode
          rw [literalLength?_escape] at hlength
          obtain ⟨k, hk, rfl⟩ := Option.map_eq_some_iff.mp hlength
          rw [List.take_succ_cons, List.take_succ_cons, decodeLiteral_listedLetter he] at hdecode
          obtain ⟨hall, hnests⟩ := ih hk (List.cons.inj hdecode).2
          rw [nests, depthAfter?_listedLetter he]
          exact ⟨List.forall_mem_cons.mpr ⟨hlistable, hall⟩, hnests⟩
      | hexadecimal hlistable =>
          rw [List.cons_append, List.cons_append] at hlength hdecode
          rw [literalLength?_escape] at hlength
          obtain ⟨k, -, rfl⟩ := Option.map_eq_some_iff.mp hlength
          rw [List.take_succ_cons, List.take_succ_cons, decodeLiteral_hexadecimal] at hdecode
          obtain rfl := (List.cons.inj hdecode).1
          cases hlistable

end Literal

/-! ### Names -/

namespace Name

/-- What is **read of the listing of a name**: the bytes that begin it, up to one that ends a
name. -/
def reread (d : Bytes) : Bytes :=
  decodeName ((Utf8.rewrite d).takeWhile fun b => !isNameEnd b)

/-- What is read of the listing of a name, **part by part**. -/
inductive Rereads : (d m : Bytes) → Prop
  | nil : Rereads [] []
  /-- A byte that ends a name. -/
  | stop {b : UInt8} {bs : Bytes} (hb : isNameEnd b = true) : Rereads (b :: bs) []
  /-- A number sign with two digits behind it, which is taken for an escape. -/
  | escape {x y v : UInt8} {bs m : Bytes} (hx : x < 0x80) (hy : y < 0x80) (h : Rereads bs m) :
      Rereads (byte '#' :: x :: y :: bs) (v :: m)
  /-- Any other ASCII character. -/
  | plain {b : UInt8} {bs m : Bytes} (hascii : b < 0x80) (hb : isNameEnd b = false)
      (h : Rereads bs m) : Rereads (b :: bs) (b :: m)
  /-- Bytes that form another character, or none and are replaced by one. -/
  | character {b : UInt8} {bs m : Bytes} {c : Char} {n : Nat} (hc : 0x80 ≤ c.toNat)
      (hfirst : Utf8.first b bs = (c, n)) (h : Rereads (bs.drop n) m) :
      Rereads (b :: bs) (String.utf8EncodeChar c ++ m)

/-- The bytes that end a name are ASCII characters. -/
theorem ascii_of_isNameEnd {b : UInt8} (hb : isNameEnd b = true) : b < 0x80 := by
  have hall : ∀ b : UInt8, isNameEnd b = true → b < 0x80 := forall_byte (by decide +kernel)
  exact hall b hb

/-- So are hexadecimal digits. -/
theorem ascii_of_hexValue? {b v : UInt8} (hb : hexValue? b = some v) : b < 0x80 := by
  have hall : ∀ b : UInt8, (hexValue? b).isSome = true → b < 0x80 := forall_byte (by decide +kernel)
  exact hall b (by rw [hb]; rfl)

/-- What is no number sign stands for itself in a name. -/
theorem nameUnit_of_ne {b : UInt8} (hb : b ≠ byte '#') (bs : Bytes) : nameUnit b bs = ([b], 0) := by
  simp only [nameUnit, beq_false_of_ne hb]

/-- A unit of a name is an escape or a plain byte. A number sign is a plain byte if no two
hexadecimal digits follow. -/
theorem nameUnit_cases (b : UInt8) (bs : Bytes) :
    (∃ x y v w rest, b = byte '#' ∧ bs = x :: y :: rest ∧ hexValue? x = some v ∧
      hexValue? y = some w ∧ nameUnit b bs = ([v * 16 + w], 2)) ∨ nameUnit b bs = ([b], 0) := by
  by_cases hb : b = byte '#'
  · subst hb
    match bs with
    | [] | [_] => exact .inr rfl
    | x :: y :: rest =>
        rcases hx : hexValue? x with _ | v
        · exact .inr (by simp only [nameUnit, beq_self_eq_true, hx])
        · rcases hy : hexValue? y with _ | w
          · exact .inr (by simp only [nameUnit, beq_self_eq_true, hx, hy])
          · exact .inl ⟨x, y, v, w, rest, rfl, rfl, hx, hy,
              by simp only [nameUnit, beq_self_eq_true, hx, hy]⟩
  · exact .inr (nameUnit_of_ne hb bs)

/-- Bytes that are no ASCII characters are read as they are. None of them is a number sign, so that
none begins an escape. -/
theorem decodeName_append_of_not_ascii {a : Bytes} (ha : ∀ b ∈ a, 0x80 ≤ b) (rest : Bytes) :
    decodeName (a ++ rest) = a ++ decodeName rest := by
  induction a with
  | nil => rfl
  | cons b a ih =>
      have hb : b ≠ byte '#' := by
        rintro rfl
        exact absurd (ha _ List.mem_cons_self) (by decide)
      rw [List.cons_append, decodeName, units_cons, nameUnit_of_ne hb]
      exact congrArg (b :: ·) (ih fun c hc => ha c (List.mem_cons_of_mem b hc))

/-- A hexadecimal digit that is found in front of what is read of a listing stands in front of what
was listed. -/
theorem exists_cons_of_hexValue? {bs rest : Bytes} {x v : UInt8}
    (h : (Utf8.rewrite bs).takeWhile (fun b => !isNameEnd b) = x :: rest)
    (hx : hexValue? x = some v) :
    ∃ as, bs = x :: as ∧ (Utf8.rewrite as).takeWhile (fun b => !isNameEnd b) = rest := by
  rcases hlisted : Utf8.rewrite bs with _ | ⟨y, listed⟩
  · rw [hlisted] at h
    cases h
  · rw [hlisted, List.takeWhile_cons] at h
    split at h
    · obtain ⟨rfl, rfl⟩ := List.cons.inj h
      obtain ⟨as, rfl, rfl⟩ := Utf8.exists_cons_of_rewrite hlisted (ascii_of_hexValue? hx)
      exact ⟨as, rfl, rfl⟩
    · cases h

/-- Bytes that begin with no ASCII character are read again as such a character, and what is read of
the rest. -/
theorem reread_cons_of_not_ascii {b : UInt8} (hb : 0x80 ≤ b) (bs : Bytes) : reread (b :: bs) =
    String.utf8EncodeChar (Utf8.first b bs).1 ++ reread (bs.drop (Utf8.first b bs).2) := by
  have hbytes : ∀ x ∈ String.utf8EncodeChar (Utf8.first b bs).1, 0x80 ≤ x :=
    fun _ => Utf8.utf8EncodeChar_of_not_ascii (Utf8.first_of_not_ascii hb bs)
  have hends : ∀ x ∈ String.utf8EncodeChar (Utf8.first b bs).1, (!isNameEnd x) = true := by
    intro x hx
    rw [Bool.not_eq_true']
    exact Bool.eq_false_iff.mpr fun hend =>
      absurd (ascii_of_isNameEnd hend) (UInt8.not_lt.mpr (hbytes x hx))
  rw [reread, Utf8.rewrite_cons, List.takeWhile_append_of_pos hends,
    decodeName_append_of_not_ascii hbytes, reread]

/-- What is read of any listing is read part by part: up to an ending byte, an escape, a plain ASCII
character, or a character of several bytes. -/
theorem rereads (d : Bytes) : Rereads d (reread d) := by
  -- a unit can be of several bytes, so the induction is on how many there are
  induction hlength : d.length using Nat.strong_induction_on generalizing d with
  | _ n ih =>
      subst hlength
      cases d with
      | nil =>
          rw [reread, Utf8.rewrite_nil]
          exact .nil
      | cons b bs =>
          by_cases hascii : b < 0x80
          · rw [reread, Utf8.rewrite_cons_of_ascii hascii, List.takeWhile_cons]
            rcases hend : isNameEnd b with _ | _
            · rw [Bool.not_false, if_pos rfl, decodeName, units_cons]
              obtain ⟨x, y, v, w, rest, rfl, htake, hx, hy, hunit⟩ | hunit :=
                nameUnit_cases b ((Utf8.rewrite bs).takeWhile fun b => !isNameEnd b)
              · obtain ⟨as, rfl, hrest⟩ := exists_cons_of_hexValue? htake hx
                obtain ⟨as', rfl, rfl⟩ := exists_cons_of_hexValue? hrest hy
                rw [hunit, htake]
                exact .escape (ascii_of_hexValue? hx) (ascii_of_hexValue? hy)
                  (ih _ (by simp only [List.length_cons]; omega) as' rfl)
              · rw [hunit]
                exact .plain hascii hend (ih _ (Nat.lt_succ_self _) bs rfl)
            · exact .stop hend
          · have hb := UInt8.not_lt.mp hascii
            rw [reread_cons_of_not_ascii hb]
            refine .character (Utf8.first_of_not_ascii hb bs) rfl (ih _ ?_ _ rfl)
            rw [List.length_drop, List.length_cons]
            omega

/-- What is read of the listing of some bytes never runs ahead: ASCII characters that were not
listed are not read in front of the bytes. The induction is on the parts, each of which reads as no
more than was listed. -/
theorem Rereads.ne_append {bs m : Bytes} (h : Rereads bs m) {w : Bytes} (hw : w ≠ [])
    (hascii : ∀ b ∈ w, b < 0x80) : m ≠ w ++ bs := by
  induction h generalizing w with
  | nil => rwa [List.append_nil, ne_comm]
  | stop hb => exact fun heq => hw (List.append_eq_nil_iff.mp heq.symm).1
  | @escape x y v bs m hx hy h ih =>
      obtain ⟨c, w, rfl⟩ := List.exists_cons_of_ne_nil hw
      obtain ⟨hc, hascii⟩ := List.forall_mem_cons.mp hascii
      -- the bytes of the escape were listed and are not read
      have hlisted : ∀ b ∈ w ++ [byte '#', x, y], b < 0x80 := by
        simp only [List.forall_mem_append, List.forall_mem_cons]
        exact ⟨hascii, by decide, hx, hy, List.forall_mem_nil _⟩
      have hne := ih (List.append_ne_nil_of_right_ne_nil w (List.cons_ne_nil _ _)) hlisted
      rw [List.append_assoc] at hne
      exact fun heq => hne (List.cons.inj heq).2
  | @plain b bs m hb hend h ih =>
      obtain ⟨c, w, rfl⟩ := List.exists_cons_of_ne_nil hw
      obtain ⟨hc, hascii⟩ := List.forall_mem_cons.mp hascii
      have hlisted : ∀ b' ∈ w ++ [b], b' < 0x80 := by
        simp only [List.forall_mem_append, List.forall_mem_cons]
        exact ⟨hascii, hb, List.forall_mem_nil _⟩
      have hne := ih (List.append_ne_nil_of_right_ne_nil w (List.cons_ne_nil _ _)) hlisted
      rw [List.append_assoc] at hne
      exact fun heq => hne (List.cons.inj heq).2
  | @character b bs m c n hc hfirst h ih =>
      obtain ⟨c', w, rfl⟩ := List.exists_cons_of_ne_nil hw
      obtain ⟨y, run, hrun, -⟩ := Utf8.exists_promised c
      intro heq
      rw [hrun] at heq
      obtain ⟨rfl, -⟩ := List.cons.inj heq
      have hy : 0x80 ≤ y :=
        Utf8.utf8EncodeChar_of_not_ascii hc (by rw [hrun]; exact List.mem_cons_self)
      exact absurd (hascii y List.mem_cons_self) (UInt8.not_lt.mpr hy)

/-- A name that is read as itself is text without bytes that end a name. An escape reads as one byte
where three were listed, and what is read cannot catch up after that. -/
theorem Rereads.plain_text {d m : Bytes} (h : Rereads d m) (heq : m = d) :
    Utf8.rewrite d = d ∧ ∀ b ∈ d, isNameEnd b = false := by
  induction h with
  | nil => exact ⟨Utf8.rewrite_nil, nofun⟩
  | stop hb => cases heq
  | @escape x y v bs m hx hy h ih =>
      have hlisted : ∀ b ∈ [x, y], b < 0x80 := by
        simp only [List.forall_mem_cons]
        exact ⟨hx, hy, List.forall_mem_nil _⟩
      exact absurd (List.cons.inj heq).2 (h.ne_append (List.cons_ne_nil x [y]) hlisted)
  | @plain b bs m hascii hb h ih =>
      obtain ⟨hrewrite, hends⟩ := ih (List.cons.inj heq).2
      exact ⟨by rw [Utf8.rewrite_cons_of_ascii hascii, hrewrite],
        List.forall_mem_cons.mpr ⟨hb, hends⟩⟩
  | @character b bs m c n hc hfirst h ih =>
      obtain ⟨b', run, hrun, hpromised⟩ := Utf8.exists_promised c
      rw [hrun] at heq
      obtain ⟨rfl, hbs⟩ : b' = b ∧ run ++ m = bs := List.cons.inj heq
      subst hbs
      rw [hpromised.first_eq] at hfirst
      obtain ⟨-, rfl⟩ := Prod.mk.inj hfirst
      rw [List.drop_left] at ih
      obtain ⟨hrewrite, hends⟩ := ih rfl
      rw [← List.cons_append, ← hrun, Utf8.rewrite_utf8EncodeChar_append, hrewrite]
      refine ⟨rfl, fun x hx => ?_⟩
      obtain hx | hx := List.mem_append.mp hx
      · refine Bool.eq_false_iff.mpr fun hend => absurd (ascii_of_isNameEnd hend) ?_
        exact UInt8.not_lt.mpr (Utf8.utf8EncodeChar_of_not_ascii hc hx)
      · exact hends x hx

/-- A name **can be listed**: it is well-formed text, no byte of it ends a name, and no number sign
in it has two hexadecimal digits behind it. -/
structure IsListable (d : Bytes) : Prop where
  rewrite_eq : Utf8.rewrite d = d
  no_end : ∀ b ∈ d, isNameEnd b = false
  decodeName_eq : decodeName d = d

/-- What is read of a name that can be listed is all of it, up to a byte that ends it. -/
theorem IsListable.takeWhile_append {d : Bytes} (h : IsListable d) {s : UInt8}
    (hs : isNameEnd s = true) (rest : Bytes) :
    (Utf8.rewrite d ++ s :: rest).takeWhile (fun b => !isNameEnd b) = d := by
  rw [h.rewrite_eq]
  exact takeWhile_append_of_all (fun b hb => by rw [h.no_end b hb, Bool.not_false]) (by simp [hs])

/-- A name is read as itself exactly if it can be listed. That there are no escapes in it is told by
decoding it, once it is known to be plain text. -/
theorem reread_eq_iff {d : Bytes} : reread d = d ↔ IsListable d := by
  constructor
  · intro heq
    obtain ⟨hrewrite, hends⟩ := (rereads d).plain_text heq
    refine ⟨hrewrite, hends, ?_⟩
    rwa [reread, hrewrite, List.takeWhile_eq_self_iff.mpr fun b hb => by
      rw [hends b hb, Bool.not_false]] at heq
  · intro h
    have htake := h.takeWhile_append (s := byte ' ') (by decide) []
    rw [takeWhile_append_cons (by decide)] at htake
    rw [reread, htake, h.decodeName_eq]

end Name

/-! ### Numbers -/

namespace Decimal.Style

/-- Characters that are **laid out as a number**: digits, and behind them a point with digits or
nothing. -/
structure LaidOut (text whole : List Char) (fraction : Option (List Char)) : Prop where
  text_eq : text = whole ++ fraction.elim [] ('.' :: ·)
  whole_ne_nil : whole ≠ []
  whole_digits : ∀ c ∈ whole, c.isDigit = true
  fraction_digits : ∀ c ∈ fraction.getD [], c.isDigit = true

/-- Zeros that fill a number up are digits. -/
theorem isDigit_of_mem_replicate {c : Char} {n : Nat} (hc : c ∈ List.replicate n '0') :
    c.isDigit = true := by
  rw [List.eq_of_mem_replicate hc]
  decide

/-- The style of content streams lays digits out as a number, wherever the point falls: in front of
them with zeros, behind them with zeros, or among them. -/
theorem laidOut_layout {digits : List Char} (hne : digits ≠ [])
    (hdigits : ∀ c ∈ digits, c.isDigit = true) (lead : Int) :
    ∃ whole fraction, LaidOut (plain.layout digits lead) whole fraction := by
  simp only [layout, plain, if_true, Bool.false_eq_true, if_false, List.append_nil]
  split
  next hlead =>
    refine ⟨['0'], some (List.replicate (-lead - 1).toNat '0' ++ digits), rfl, nofun,
      List.forall_mem_singleton.mpr (by decide), fun c hc => ?_⟩
    obtain hc | hc := List.mem_append.mp hc
    · exact isDigit_of_mem_replicate hc
    · exact hdigits c hc
  next hlead =>
    split
    next hcount =>
      refine ⟨_, none, (List.append_nil _).symm, fun h => hne (List.append_eq_nil_iff.mp h).1,
        fun c hc => ?_, nofun⟩
      obtain hc | hc := List.mem_append.mp hc
      · exact hdigits c hc
      · exact isDigit_of_mem_replicate hc
    next hcount =>
      refine ⟨_, some _, rfl, fun h => ?_, fun c hc => hdigits c (List.mem_of_mem_take hc),
        fun c hc => hdigits c (List.mem_of_mem_drop hc)⟩
      obtain hzero | hnil := List.take_eq_nil_iff.mp h
      · omega
      · exact hne hnil

/-- The text of a finite magnitude is laid out as a number. Zero is a single digit, and all others
have the shortest digits that tell them. -/
theorem laidOut_magnitude (x : Binary) :
    ∃ text whole fraction, plain.magnitude x = String.ofList text ∧
      LaidOut text whole fraction := by
  rw [magnitude]
  split
  · exact ⟨['0'], ['0'], none, rfl, rfl, nofun, List.forall_mem_singleton.mpr (by decide), nofun⟩
  · have hdigits : ∀ c ∈ Nat.toDigits 10 (x.shortest plain.tie).digits, c.isDigit = true :=
      fun c hc => Nat.isDigit_of_mem_toDigits (by decide) (by decide) hc
    obtain ⟨whole, fraction, h⟩ := laidOut_layout Nat.toDigits_ne_nil hdigits
      ((x.shortest plain.tie).exponent +
        (Nat.toDigits 10 (x.shortest plain.tie).digits).length - 1)
    exact ⟨_, whole, fraction, rfl, h⟩

end Decimal.Style

namespace NumberText

/-- Decimal digits have the codes from 48 to 57. -/
theorem toNat_of_isDigit {c : Char} (hc : c.isDigit = true) : 48 ≤ c.toNat ∧ c.toNat ≤ 57 := by
  simp only [Char.isDigit, Bool.and_eq_true, decide_eq_true_eq, UInt32.le_iff_toNat_le] at hc
  exact hc

/-- So their bytes are those of digits. -/
theorem isDigit_byte {c : Char} (hc : c.isDigit = true) : isDigit (byte c) = true := by
  obtain ⟨hlow, hhigh⟩ := toNat_of_isDigit hc
  have hbyte : (byte c).toNat = c.toNat % 256 := rfl
  simp only [isDigit, Bool.and_eq_true, decide_eq_true_eq, UInt8.le_iff_toNat_le, hbyte]
  change 48 ≤ _ ∧ _ ≤ 57
  omega

/-- What is laid out as a number, behind a minus or no sign, is a number as it is written. Its
characters are ASCII characters, so that each of them is one byte. -/
theorem exists_write_eq {sign : String} (hsign : sign = "" ∨ sign = "-") {text whole : List Char}
    {fraction : Option (List Char)} (h : Decimal.Style.LaidOut text whole fraction) :
    ∃ n : NumberText, n.write = Utf8.encode (sign ++ String.ofList text) := by
  have hbytes {cs : List Char} (hcs : ∀ c ∈ cs, c.isDigit = true) :
      ∀ d ∈ cs.map byte, isDigit d = true := by
    intro d hd
    obtain ⟨c, hc, rfl⟩ := List.mem_map.mp hd
    exact isDigit_byte (hcs c hc)
  have hascii {c : Char} (hc : c.isDigit = true) : c.toNat < 0x80 :=
    Nat.lt_of_le_of_lt (toNat_of_isDigit hc).2 (by decide)
  obtain ⟨rfl, hne, hwhole, hfraction⟩ := h
  refine ⟨{
    sign := Utf8.encode sign
    whole := whole.map byte
    fraction := fraction.map (List.map byte)
    sign_mem := ?_
    whole_digits := hbytes hwhole
    fraction_digits := ?_
    some_digit := .inl (by simpa using hne) }, ?_⟩
  · obtain rfl | rfl := hsign <;> decide +kernel
  · cases fraction with
    | none => exact nofun
    | some fraction => exact hbytes hfraction
  · rw [write, unsigned, Utf8.encode_append, Utf8.encode_ofList_of_ascii, List.map_append]
    · cases fraction with
      | none => rfl
      | some fraction => rfl
    · intro c hc
      obtain hc | hc := List.mem_append.mp hc
      · exact hascii (hwhole c hc)
      · cases fraction with
        | none => cases hc
        | some fraction =>
            obtain rfl | hc := List.mem_cons.mp hc
            · decide
            · exact hascii (hfraction c hc)

/-- A finite number is listed as a number is written. -/
theorem exists_write_eq_of_finite {x : Float} (hnan : x.isNaN = false) (hinf : x.isInf = false) :
    ∃ n : NumberText, n.write = Utf8.encode (Decimal.Style.plain.write x) := by
  obtain ⟨text, whole, fraction, htext, h⟩ :=
    Decimal.Style.laidOut_magnitude (Decimal.Binary.ofBits x.toBits)
  simp only [Decimal.Style.write, hnan, hinf, Bool.false_eq_true, if_false, htext]
  refine exists_write_eq ?_ h
  split
  · exact .inr rfl
  · exact .inl rfl

end NumberText

/-! ### Operators -/

namespace OperatorText

/-- An operator **as it is listed**, with the bytes replaced that form no character. -/
def rewrite (op : OperatorText) : OperatorText where
  bytes := Utf8.rewrite op.bytes
  ne_nil := Utf8.rewrite_ne_nil op.ne_nil
  unbroken b hb := by
    obtain hb | hb := Utf8.mem_rewrite hb
    · exact op.unbroken b hb
    · have hall : ∀ b : UInt8, 0x80 ≤ b →
          isSpace b = false ∧ b ∉ [byte '(', byte '/', byte '[', byte '<', byte '%'] :=
        forall_byte (by decide +kernel)
      exact hall b hb
  no_digit b hb := by
    obtain ⟨rest, hrest⟩ := List.head?_eq_some_iff.mp hb
    refine Bool.eq_false_iff.mpr fun hdigit => ?_
    have hall : ∀ b : UInt8, isDigit b = true → b < 0x80 := forall_byte (by decide +kernel)
    obtain ⟨bs, hbs, -⟩ := Utf8.exists_cons_of_rewrite hrest (hall b hdigit)
    rw [op.no_digit b (by rw [hbs]; rfl)] at hdigit
    cases hdigit
  no_other w hw h := by
    have hall : ∀ w ∈ ["]", "+", "-", ".", ">>", "true", "false", "ID"],
        ∀ x ∈ Utf8.encode w, x < 0x80 := by decide +kernel
    exact op.no_other w hw (Utf8.isPrefix_of_rewrite (hall w hw) h)

/-- What is listed for an operator are the bytes of its spelling. -/
theorem rewrite_bytes (op : OperatorText) :
    op.rewrite.bytes = Utf8.encode (Operator.ofBytes op.bytes).spelling := by
  rw [Operator.spelling_ofBytes]
  rfl

/-- The listing of an operator stands for it. -/
theorem ofBytes_rewrite (op : OperatorText) :
    Operator.ofBytes op.rewrite.bytes = Operator.ofBytes op.bytes :=
  Operator.ofBytes_rewrite op.bytes

/-- More bytes behind the listing of an operator make it another operator. They read as some text in
any case, by which the spelling gets longer. -/
theorem ofBytes_rewrite_append_ne (op : OperatorText) (b : UInt8) (bs : Bytes) :
    Operator.ofBytes (op.rewrite.bytes ++ b :: bs) ≠ Operator.ofBytes op.bytes := by
  intro h
  have hspelling := congrArg Operator.spelling h
  rw [rewrite_bytes, Operator.spelling_ofBytes, Operator.spelling_ofBytes,
    Utf8.decode_encode_append] at hspelling
  have hempty : Utf8.decode (b :: bs) = "" := by simpa using hspelling
  refine Utf8.rewrite_ne_nil (List.cons_ne_nil b bs) ?_
  rw [Utf8.rewrite, hempty]
  exact Utf8.rewrite_nil

end OperatorText

/-- An operator **can stand in a content stream**. -/
def Operator.IsWritten (op : Operator) : Prop :=
  ∃ text : OperatorText, op = Operator.ofBytes text.bytes

namespace Lexeme

variable {strict : Bool} {b : UInt8} {bs : Bytes} {op : Operator} {n : Nat}

/-- Where one of two readings is not the one that was obtained, it was the other. -/
theorem of_ite_eq {c : Prop} [Decidable c] {x y z : Reading} (h : (if c then x else y) = z)
    (hx : x ≠ z) : ¬ c ∧ y = z := by
  by_cases hc : c
  · rw [if_pos hc] at h
    exact absurd h hx
  · rw [if_neg hc] at h
    exact ⟨hc, h⟩

/-- The reader of literal strings gives no operators. -/
theorem readLiteral_ne_operator : readLiteral bs ≠ .ok (.operator op, n) := by
  rw [readLiteral]
  split <;> simp

/-- Neither does that of hexadecimal strings. -/
theorem readHex_ne_operator : readHex bs ≠ .ok (.operator op, n) := by
  simp only [readHex]
  split
  · simp
  · split <;> simp

/-- Neither does that of numbers. -/
theorem readNumber_ne_operator : readNumber b bs ≠ .ok (.operator op, n) := by
  intro h
  simp only [readNumber] at h
  obtain ⟨-, h⟩ := of_ite_eq h (by simp)
  obtain ⟨-, h⟩ := of_ite_eq h (by simp)
  simp at h

/-- Neither does that of image data. -/
theorem readImage_ne_operator : readImage strict bs ≠ .ok (.operator op, n) := by
  rw [readImage]
  split <;> simp

/-- An operator that is read can stand in a content stream. The readers that come before that of
operators have all passed on the bytes. -/
theorem isWritten_of_read (hspace : isSpace b = false) (hcomment : b ≠ byte '%')
    (h : read strict b bs = .ok (.operator op, n)) : op.IsWritten := by
  rw [read] at h
  obtain ⟨hparen, h⟩ := of_ite_eq h readLiteral_ne_operator
  obtain ⟨hangle, h⟩ := of_ite_eq h (by split <;> [simp; exact readHex_ne_operator])
  obtain ⟨hdict, h⟩ := of_ite_eq h (by simp)
  obtain ⟨hopen, h⟩ := of_ite_eq h (by simp)
  obtain ⟨hclose, h⟩ := of_ite_eq h (by simp)
  obtain ⟨hslash, h⟩ := of_ite_eq h (by simp [readName])
  obtain ⟨hnumber, h⟩ := of_ite_eq h readNumber_ne_operator
  obtain ⟨htrue, h⟩ := of_ite_eq h (by simp)
  obtain ⟨hfalse, h⟩ := of_ite_eq h (by simp)
  simp only [readOperator] at h
  obtain ⟨himage, h⟩ := of_ite_eq h readImage_ne_operator
  have hbody := List.takeWhile_prefix (l := bs) fun c => !isOperatorEnd c
  generalize hword : bs.takeWhile (fun c => !isOperatorEnd c) = body at h himage hbody
  obtain rfl := Lexeme.operator.inj (Prod.mk.inj (Except.ok.inj h)).1
  simp only [beq_iff_eq] at hparen hangle hopen hclose hslash
  simp only [Bool.and_eq_true, beq_iff_eq, not_and] at hdict himage
  rw [List.isPrefixOf_iff_prefix] at htrue hfalse
  simp only [startsNumber, Bool.or_eq_true, not_or, Bool.not_eq_true, beq_iff_eq] at hnumber
  obtain ⟨⟨⟨hplus, hminus⟩, hpoint⟩, hdigit⟩ := hnumber
  have hwords : ∀ w ∈ ["]", "+", "-", ".", ">>", "true", "false", "ID"],
      ¬ Utf8.encode w <+: b :: body := by
    have hbytes : Utf8.encode "]" = [byte ']'] ∧ Utf8.encode "+" = [byte '+'] ∧
        Utf8.encode "-" = [byte '-'] ∧ Utf8.encode "." = [byte '.'] ∧
        Utf8.encode ">>" = [byte '>', byte '>'] ∧ Utf8.encode "ID" = [byte 'I', byte 'D'] := by
      decide +kernel
    obtain ⟨h1, h2, h3, h4, h5, h6⟩ := hbytes
    have hhead {c : UInt8} (hc : [c] <+: body) : body.head? = some c ∧ bs.head? = some c := by
      obtain ⟨as, rfl⟩ := hc
      obtain ⟨as', rfl⟩ := hbody
      exact ⟨rfl, rfl⟩
    simp only [List.forall_mem_cons, h1, h2, h3, h4, h5, h6, List.cons_prefix_cons, not_and]
    refine ⟨fun h => absurd h.symm hclose, fun h => absurd h.symm hplus,
      fun h => absurd h.symm hminus, fun h => absurd h.symm hpoint,
      fun h hsecond => hdict h.symm (hhead hsecond).2,
      fun h => htrue (h.trans (List.cons_prefix_cons.mpr ⟨rfl, hbody⟩)),
      fun h => hfalse (h.trans (List.cons_prefix_cons.mpr ⟨rfl, hbody⟩)),
      fun h hsecond => himage h.symm (hhead hsecond).1, fun w hw => absurd hw List.not_mem_nil⟩
  refine ⟨⟨b :: body, List.cons_ne_nil b body, fun c hc => ?_, ?_, hwords⟩, rfl⟩
  · obtain rfl | hc := List.mem_cons.mp hc
    · simp [hspace, hparen, hangle, hslash, hopen, hcomment]
    · have hend : isOperatorEnd c = false := by
        rw [← hword] at hc
        simpa using List.mem_takeWhile_imp hc
      simpa [isOperatorEnd] using hend
  · rintro c hc
    obtain rfl := Option.some.inj hc
    exact hdigit

end Lexeme

/-- The operators that a scan reads can stand in a content stream. The induction is that of the
scan, and each operator has been read somewhere. -/
theorem isWritten_of_mem_scanFrom {strict : Bool} {position passed : Nat} {bs : Bytes}
    {x : Placed} (hx : x ∈ (scanFrom strict position passed bs).lexemes) {op : Operator}
    (hop : x.lexeme = .operator op) : op.IsWritten := by
  fun_induction scanFrom strict position passed bs with
  | case1 => cases hx
  | case2 _ _ _ _ ih => exact ih hx
  | case3 _ _ _ _ ih => exact ih hx
  | case4 _ _ _ _ _ ih => exact ih hx
  | case5 => cases hx
  | case6 position b bs hspace hcomment lexeme passed hread ih =>
      obtain rfl | hx := List.mem_cons.mp hx
      · subst hop
        exact Lexeme.isWritten_of_read (Bool.eq_false_iff.mpr hspace) (by simpa using hcomment)
          hread
      · exact ih hx

end ContentStream

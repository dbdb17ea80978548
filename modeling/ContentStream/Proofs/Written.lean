import ContentStream.Proofs.Locality
import Mathlib.Data.List.TakeWhile

/-!
# Written tokens

Every token that can stand in a content stream, arrays and the data of inline images apart, has
written forms. A string can be given byte by byte, by two hexadecimal digits or by an octal escape,
and a name by escapes of its own; an operator is written by its spelling, and a number by its
digits. A *leaf* is a token with a choice of such a form.

The lexer takes a written leaf for what it was written for, whatever follows the space behind it.
For a string or name this says that decoding undoes escaping, and that the reader finds the end. For
the others it says that the first bytes do not lead to a reader of another kind, which is why an
operator must not begin with the first bytes of something else.

## Main definitions

* `Leaf`: a token with a choice of its written form, and `Leaf.write`.
* `Lexeme.Reads`: a text is read as a lexeme in front of further bytes.

## Main results

* `pairDigits_hexPairs`, `decodeLiteral_octalEscapes`, `decodeName_nameEscapes`: decoding undoes
  escaping.
* `NumberText.reads`: a number is read up to what cannot belong to it.
* `Leaf.reads`: a leaf is read as the lexeme it was written for.
-/

namespace ContentStream

/-! ### Bytes by their digits -/

/-- The **hexadecimal digit** of a value below sixteen, a capital or a small letter. -/
def hexDigit (capital : Bool) (n : Nat) : UInt8 :=
  if n < 10 then byte '0' + UInt8.ofNat n
  else (if capital then byte 'A' else byte 'a') + UInt8.ofNat (n - 10)

/-- The **octal digit** of a value below eight. -/
def octalDigit (n : Nat) : UInt8 :=
  byte '0' + UInt8.ofNat n

/-- A hexadecimal digit has the value that it was written for, in capitals or not. -/
theorem hexValue?_hexDigit (capital : Bool) {n : Nat} (hn : n < 16) :
    hexValue? (hexDigit capital n) = some (UInt8.ofNat n) := by
  revert capital n
  decide

/-- It does not end a name. -/
theorem not_isNameEnd_hexDigit (capital : Bool) {n : Nat} (hn : n < 16) :
    isNameEnd (hexDigit capital n) = false := by
  revert capital n
  decide

/-- What is written for a value below eight is an octal digit. -/
theorem isOctalDigit_octalDigit {n : Nat} (hn : n < 8) : isOctalDigit (octalDigit n) = true := by
  revert n
  decide

/-- The distance of an octal digit from zero is its value. -/
theorem octalDigit_sub {n : Nat} : octalDigit n - byte '0' = UInt8.ofNat n := by
  rw [octalDigit, UInt8.add_comm, UInt8.add_sub_cancel]

/-- The upper half of a byte is below sixteen. -/
theorem high_lt (b : UInt8) : b.toNat / 16 < 16 := by
  have hlt := b.toNat_lt
  omega

/-- So is the lower half. -/
theorem low_lt (b : UInt8) : b.toNat % 16 < 16 :=
  Nat.mod_lt _ (by decide)

/-- A byte is made of its two halves. -/
theorem halves (b : UInt8) : UInt8.ofNat (b.toNat / 16) * 16 + UInt8.ofNat (b.toNat % 16) = b := by
  apply UInt8.toNat_inj.mp
  have hlt := b.toNat_lt
  simp only [UInt8.toNat_add, UInt8.toNat_mul, UInt8.toNat_ofNat', UInt8.toNat_ofNat]
  omega

/-- A byte is made of its three octal digits. -/
theorem thirds (b : UInt8) :
    (UInt8.ofNat (b.toNat / 64) * 8 + UInt8.ofNat (b.toNat / 8 % 8)) * 8 +
      UInt8.ofNat (b.toNat % 8) = b := by
  apply UInt8.toNat_inj.mp
  have hlt := b.toNat_lt
  simp only [UInt8.toNat_add, UInt8.toNat_mul, UInt8.toNat_ofNat', UInt8.toNat_ofNat]
  omega

/-- Bytes as **pairs of hexadecimal digits**. `capital` tells which of the digits are capital
letters if they are letters. -/
def hexPairs (capital : Nat → Bool) : Bytes → Bytes
  | [] => []
  | b :: bs => hexDigit (capital 0) (b.toNat / 16) :: hexDigit (capital 1) (b.toNat % 16) ::
      hexPairs (fun i => capital (i + 2)) bs

/-- Bytes as the **escapes of a name**: each is a number sign and two hexadecimal digits. -/
def nameEscapes (capital : Nat → Bool) : Bytes → Bytes
  | [] => []
  | b :: bs => byte '#' :: hexDigit (capital 0) (b.toNat / 16) ::
      hexDigit (capital 1) (b.toNat % 16) :: nameEscapes (fun i => capital (i + 2)) bs

/-- Bytes as the **escapes of a literal string**: each is a backslash and three octal digits. -/
def octalEscapes : Bytes → Bytes
  | [] => []
  | b :: bs => byte '\\' :: octalDigit (b.toNat / 64) :: octalDigit (b.toNat / 8 % 8) ::
      octalDigit (b.toNat % 8) :: octalEscapes bs

/-! ### Decoding undoes escaping -/

/-- Two by two, hexadecimal digits **give back the bytes**. -/
theorem pairDigits_hexPairs (capital : Nat → Bool) (bytes : Bytes) :
    pairDigits ((hexPairs capital bytes).filterMap hexValue?) = bytes := by
  induction bytes generalizing capital with
  | nil => rfl
  | cons b bs ih =>
      rw [hexPairs, List.filterMap_cons_some (hexValue?_hexDigit _ (high_lt b)),
        List.filterMap_cons_some (hexValue?_hexDigit _ (low_lt b)), pairDigits, halves, ih]

/-- All that is written in pairs are hexadecimal digits, two for each byte. So the reader of such a
string takes all of them. -/
theorem mem_hexPairs {capital : Nat → Bool} {bytes : Bytes} {d : UInt8}
    (hd : d ∈ hexPairs capital bytes) : (isSpace d || (hexValue? d).isSome) = true := by
  induction bytes generalizing capital with
  | nil => cases hd
  | cons b bs ih =>
      rw [hexPairs, List.mem_cons, List.mem_cons] at hd
      obtain rfl | rfl | hd := hd
      · simp [hexValue?_hexDigit _ (high_lt b)]
      · simp [hexValue?_hexDigit _ (low_lt b)]
      · exact ih hd

/-- Reading unit by unit, the first unit comes first. -/
theorem units_cons {α β : Type} (read : α → List α → List β × Nat) (a : α) (as : List α) :
    units read (a :: as) = (read a as).1 ++ units read (as.drop (read a as).2) := by
  rw [units, unitsFrom, unitsFrom_eq_drop]

/-- The escapes of a name **give back the bytes**. Each byte is written as a number sign and two
digits, which are read as one unit. -/
theorem decodeName_nameEscapes (capital : Nat → Bool) (bytes : Bytes) :
    decodeName (nameEscapes capital bytes) = bytes := by
  induction bytes generalizing capital with
  | nil => rfl
  | cons b bs ih =>
      have hunit (rest : Bytes) : nameUnit (byte '#') (hexDigit (capital 0) (b.toNat / 16) ::
          hexDigit (capital 1) (b.toNat % 16) :: rest) = ([b], 2) := by
        simp only [nameUnit, beq_self_eq_true, hexValue?_hexDigit _ (high_lt b),
          hexValue?_hexDigit _ (low_lt b), halves]
      rw [nameEscapes, decodeName, units_cons, hunit]
      exact congrArg (b :: ·) (ih _)

/-- Nothing in the escapes of a name ends the name, since there are number signs and hexadecimal
digits in them only. -/
theorem mem_nameEscapes {capital : Nat → Bool} {bytes : Bytes} {c : UInt8}
    (hc : c ∈ nameEscapes capital bytes) : isNameEnd c = false := by
  induction bytes generalizing capital with
  | nil => cases hc
  | cons b bs ih =>
      simp only [nameEscapes, List.mem_cons] at hc
      obtain rfl | rfl | rfl | hc := hc
      · decide
      · exact not_isNameEnd_hexDigit _ (high_lt b)
      · exact not_isNameEnd_hexDigit _ (low_lt b)
      · exact ih hc

/-- A backslash and three octal digits stand for one byte, which is what is left of their value in
eight bits. No more digits are taken. -/
theorem escape_octal {d e f : UInt8} (hd : isOctalDigit d = true) (he : isOctalDigit e = true)
    (hf : isOctalDigit f = true) (rest : Bytes) :
    escape (d :: e :: f :: rest) =
      ([((d - byte '0') * 8 + (e - byte '0')) * 8 + (f - byte '0')], 3) := by
  have hne {c : UInt8} (hc : isOctalDigit c = false) : (d == c) = false :=
    beq_false_of_ne fun h => by simp [h, hc] at hd
  have htake : ((e :: f :: rest).take 2).takeWhile isOctalDigit = [e, f] := by
    simp [List.takeWhile_cons_of_pos, he, hf]
  have hfirst : (0 : UInt8) * 8 + (d - byte '0') = d - byte '0' := by
    rw [UInt8.zero_mul, UInt8.zero_add]
  simp only [escape, hne (by decide : isOctalDigit (byte 'n') = false),
    hne (by decide : isOctalDigit (byte 'r') = false),
    hne (by decide : isOctalDigit (byte 't') = false),
    hne (by decide : isOctalDigit (byte 'b') = false),
    hne (by decide : isOctalDigit (byte 'f') = false),
    hne (by decide : isOctalDigit (byte '\r') = false),
    hne (by decide : isOctalDigit (byte '\n') = false), hd, htake, List.foldl_cons, List.foldl_nil,
    hfirst, List.length_cons, List.length_nil, if_true, Bool.false_eq_true, if_false]

/-- The octal escape of a byte stands for it. -/
theorem escape_octalDigit (b : UInt8) (rest : Bytes) :
    escape (octalDigit (b.toNat / 64) :: octalDigit (b.toNat / 8 % 8) ::
      octalDigit (b.toNat % 8) :: rest) = ([b], 3) := by
  have hlt := b.toNat_lt
  rw [escape_octal (isOctalDigit_octalDigit (by omega)) (isOctalDigit_octalDigit (by omega))
    (isOctalDigit_octalDigit (by omega)), octalDigit_sub, octalDigit_sub, octalDigit_sub, thirds]

/-- The escapes of a literal string **give back the bytes**. -/
theorem decodeLiteral_octalEscapes (bytes : Bytes) :
    decodeLiteral (octalEscapes bytes) = bytes := by
  induction bytes with
  | nil => rfl
  | cons b bs ih =>
      rw [octalEscapes, decodeLiteral, units_cons, literalUnit, if_pos (by decide),
        escape_octalDigit]
      exact congrArg (b :: ·) ih

/-- Octal digits have no meaning for the end of a literal string. -/
theorem literalLength?_octalDigit {n : Nat} (hn : n < 8) (depth : Nat) (rest : Bytes) :
    literalLength? depth (octalDigit n :: rest) = (literalLength? depth rest).map (· + 1) := by
  have hd := isOctalDigit_octalDigit hn
  have hne {c : UInt8} (hc : isOctalDigit c = false) : (octalDigit n == c) = false :=
    beq_false_of_ne fun h => by simp [h, hc] at hd
  rw [literalLength?.eq_def]
  simp only [hne (by decide : isOctalDigit (byte '\\') = false),
    hne (by decide : isOctalDigit (byte '(') = false),
    hne (by decide : isOctalDigit (byte ')') = false), Bool.false_eq_true, if_false]

/-- A literal string made of escapes ends behind them. There is no parenthesis among them, so the
first that comes is the closing one. -/
theorem literalLength?_octalEscapes (bytes rest : Bytes) :
    literalLength? 0 (octalEscapes bytes ++ byte ')' :: rest) =
      some (octalEscapes bytes).length := by
  induction bytes with
  | nil =>
      rw [octalEscapes, List.nil_append, literalLength?.eq_def]
      rfl
  | cons b bs ih =>
      have hlt := b.toNat_lt
      rw [octalEscapes, List.cons_append, List.cons_append, literalLength?, if_pos (by decide)]
      simp only [List.cons_append, literalLength?_octalDigit (show b.toNat / 8 % 8 < 8 by omega),
        literalLength?_octalDigit (show b.toNat % 8 < 8 by omega), ih, Option.map_some,
        List.length_cons]

/-! ### Reading a text -/

/-- A text is **read as a lexeme** in front of further bytes if a scan that comes to its first byte
takes it for the lexeme, from the first byte to the last. -/
def Lexeme.Reads (strict : Bool) (text tail : Bytes) (lexeme : Lexeme) : Prop :=
  ∃ b bs, text = b :: bs ∧ isSpace b = false ∧ b ≠ byte '%' ∧
    Lexeme.read strict b (bs ++ tail) = .ok (lexeme, bs.length)

/-- The word for truth, byte by byte. -/
theorem encode_true : Utf8.encode "true" = [byte 't', byte 'r', byte 'u', byte 'e'] := by
  decide +kernel

/-- The other word, byte by byte. -/
theorem encode_false :
    Utf8.encode "false" = [byte 'f', byte 'a', byte 'l', byte 's', byte 'e'] := by
  decide +kernel

/-- What is taken of a text is the text if all of it is to be taken, and nothing after it. -/
theorem takeWhile_append_of_all {p : UInt8 → Bool} {a tail : Bytes} (ha : ∀ b ∈ a, p b = true)
    (htail : tail.takeWhile p = []) : (a ++ tail).takeWhile p = a := by
  rw [List.takeWhile_append_of_pos ha, htail, List.append_nil]

namespace Lexeme

variable {strict : Bool} {b : UInt8} {bs : Bytes}

/-- A byte is told apart from those that are not of its class. -/
theorem beq_false_of_class {p : UInt8 → Bool} {b c : UInt8} (hb : p b = true) (hc : p c = false) :
    (b == c) = false :=
  beq_false_of_ne fun h => by simp [h, hc] at hb

/-- What starts a number is not white space. -/
theorem not_isSpace_of_startsNumber (hb : startsNumber b = true) : isSpace b = false := by
  refine Bool.eq_false_iff.mpr fun hspace => ?_
  simp only [isSpace, Bool.or_eq_true, beq_iff_eq] at hspace
  obtain (((rfl | rfl) | rfl) | rfl) | rfl := hspace <;> revert hb <;> decide

/-- The first byte of a number leads to the reader of numbers. -/
theorem read_of_startsNumber (hb : startsNumber b = true) : read strict b bs = readNumber b bs := by
  simp only [read, hb, beq_false_of_class hb (by decide : startsNumber (byte '(') = false),
    beq_false_of_class hb (by decide : startsNumber (byte '<') = false),
    beq_false_of_class hb (by decide : startsNumber (byte '>') = false),
    beq_false_of_class hb (by decide : startsNumber (byte '[') = false),
    beq_false_of_class hb (by decide : startsNumber (byte ']') = false),
    beq_false_of_class hb (by decide : startsNumber (byte '/') = false), Bool.false_and, if_true,
    Bool.false_eq_true, if_false]

end Lexeme

/-! ### Operators -/

/-- The **spelling of an operator**: bytes without white space and without the first bytes of what
can follow directly, which do not begin like a token of another kind. -/
structure OperatorText where
  bytes : Bytes
  ne_nil : bytes ≠ []
  unbroken : ∀ b ∈ bytes, isSpace b = false ∧ b ∉ [byte '(', byte '/', byte '[', byte '<', byte '%']
  no_digit : ∀ b ∈ bytes.head?, isDigit b = false
  no_other : ∀ w ∈ ["]", "+", "-", ".", ">>", "true", "false", "ID"], ¬ Utf8.encode w <+: bytes

namespace OperatorText

variable {strict : Bool} {op : OperatorText} {b : UInt8} {bs : Bytes}

/-- No byte of an operator ends one. -/
theorem not_isOperatorEnd (op : OperatorText) {b : UInt8} (hb : b ∈ op.bytes) :
    isOperatorEnd b = false := by
  obtain ⟨hspace, hother⟩ := op.unbroken b hb
  simp only [isOperatorEnd, hspace, Bool.false_or, List.contains_eq_mem, hother, decide_false]

/-- The first byte of an operator is not that of a token of another kind. -/
theorem ne_of_encode {w : String} {c : UInt8} (h : op.bytes = b :: bs)
    (hw : w ∈ ["]", "+", "-", ".", ">>", "true", "false", "ID"]) (hc : Utf8.encode w = [c]) :
    b ≠ c := by
  rintro rfl
  exact op.no_other w hw (by rw [hc, h]; exact List.prefix_append [b] bs)

/-- The first byte of an operator does not start a number. -/
theorem not_startsNumber (h : op.bytes = b :: bs) : Lexeme.startsNumber b = false := by
  have hplus := ne_of_encode h (w := "+") (c := byte '+') (by decide) (by decide +kernel)
  have hminus := ne_of_encode h (w := "-") (c := byte '-') (by decide) (by decide +kernel)
  have hpoint := ne_of_encode h (w := ".") (c := byte '.') (by decide) (by decide +kernel)
  have hdigit := op.no_digit b (by rw [h]; rfl)
  simp only [Lexeme.startsNumber, beq_false_of_ne hplus, beq_false_of_ne hminus,
    beq_false_of_ne hpoint, hdigit, Bool.or_self]

/-- A word that an operator does not begin with is not found in front of a byte behind it either, if
the byte is not one of the word. -/
theorem not_isPrefixOf {w : String} {s : UInt8} (h : op.bytes = b :: bs)
    (hw : w ∈ ["]", "+", "-", ".", ">>", "true", "false", "ID"]) (hs : s ∉ Utf8.encode w)
    (rest : Bytes) : (Utf8.encode w).isPrefixOf (b :: (bs ++ s :: rest)) = false := by
  rw [← List.cons_append, isPrefixOf_append_cons hs, ← h]
  exact Bool.eq_false_iff.mpr fun hprefix =>
    op.no_other w hw (List.isPrefixOf_iff_prefix.mp hprefix)

/-- The **bytes after an operator** that keep it from being taken for something else. They need not
end it: a closing bracket does not. -/
def followers : Bytes :=
  [byte ' ', byte '\n', byte ']']

/-- The bytes of an operator in front of a follower are read as an operator, up to the first byte
that ends one. -/
theorem read_append (strict : Bool) (h : op.bytes = b :: bs) {s : UInt8} (hs : s ∈ followers)
    (rest : Bytes) :
    isSpace b = false ∧ b ≠ byte '%' ∧ Lexeme.read strict b (bs ++ s :: rest) =
      .ok (.operator
          (Operator.ofBytes (b :: (bs ++ s :: rest).takeWhile fun c => !isOperatorEnd c)),
        ((bs ++ s :: rest).takeWhile fun c => !isOperatorEnd c).length) := by
  have hb : b ∈ op.bytes := by rw [h]; exact List.mem_cons_self
  obtain ⟨hspace, hunbroken⟩ := op.unbroken b hb
  simp only [List.mem_cons, List.not_mem_nil, or_false, not_or] at hunbroken
  obtain ⟨hparen, hslash, hbracket, hangle, hcomment⟩ := hunbroken
  refine ⟨hspace, hcomment, ?_⟩
  have hclose := ne_of_encode h (w := "]") (c := byte ']') (by decide) (by decide +kernel)
  have hwords : s ≠ byte '>' ∧ s ≠ byte 'D' ∧ s ∉ Utf8.encode "true" ∧
      s ∉ Utf8.encode "false" := by
    rw [encode_true, encode_false]
    simp only [followers, List.mem_cons, List.not_mem_nil, or_false] at hs
    obtain rfl | rfl | rfl := hs <;> decide
  obtain ⟨hdict, himage, htrue, hfalse⟩ := hwords
  -- the second byte can make a bracket of a dictionary or introduce the data of an inline image
  have hdict : (b == byte '>' && (bs ++ s :: rest).head? == some (byte '>')) = false := by
    rw [head?_append_cons hdict]
    refine Bool.eq_false_iff.mpr fun htwo => op.no_other ">>" (by decide) ?_
    simp only [Bool.and_eq_true, beq_iff_eq, List.head?_eq_some_iff] at htwo
    obtain ⟨rfl, as, rfl⟩ := htwo
    rw [h, (by decide +kernel : Utf8.encode ">>" = [byte '>', byte '>'])]
    exact List.prefix_append _ as
  have himage : (b == byte 'I' && ((bs ++ s :: rest).takeWhile
      fun c => !isOperatorEnd c).head? == some (byte 'D')) = false := by
    have hhead : ((bs ++ s :: rest).takeWhile fun c => !isOperatorEnd c).head? = some (byte 'D') →
        bs.head? = some (byte 'D') := by
      cases bs with
      | nil =>
          intro hD
          rw [List.nil_append, List.takeWhile_cons] at hD
          split at hD
          · exact absurd (Option.some.inj hD) himage
          · cases hD
      | cons c bs =>
          intro hD
          rw [List.cons_append, List.takeWhile_cons] at hD
          split at hD
          · exact hD
          · cases hD
    refine Bool.eq_false_iff.mpr fun htwo => op.no_other "ID" (by decide) ?_
    simp only [Bool.and_eq_true, beq_iff_eq] at htwo
    obtain ⟨rfl, htwo⟩ := htwo
    obtain ⟨as, rfl⟩ := List.head?_eq_some_iff.mp (hhead htwo)
    rw [h, (by decide +kernel : Utf8.encode "ID" = [byte 'I', byte 'D'])]
    exact List.prefix_append _ as
  rw [Lexeme.read, beq_false_of_ne hparen, beq_false_of_ne hangle, hdict,
    beq_false_of_ne hbracket, beq_false_of_ne hclose, beq_false_of_ne hslash, not_startsNumber h,
    not_isPrefixOf h (by decide) htrue, not_isPrefixOf h (by decide) hfalse]
  simp only [Bool.false_eq_true, if_false, Lexeme.readOperator, himage]

/-- An operator is read as such in front of a follower that ends it. The bytes up to there are its
own, as none of them ends an operator. -/
theorem reads_append (strict : Bool) (op : OperatorText) {s : UInt8} (hs : s ∈ followers)
    (hend : isOperatorEnd s = true) (rest : Bytes) :
    Lexeme.Reads strict op.bytes (s :: rest) (.operator (Operator.ofBytes op.bytes)) := by
  obtain ⟨b, bs, h⟩ := List.exists_cons_of_ne_nil op.ne_nil
  obtain ⟨hspace, hcomment, hread⟩ := read_append strict h hs rest
  have hbody : (bs ++ s :: rest).takeWhile (fun c => !isOperatorEnd c) = bs := by
    refine takeWhile_append_of_all (fun c hc => ?_) (by simp [hend])
    rw [op.not_isOperatorEnd (by rw [h]; exact List.mem_cons_of_mem b hc), Bool.not_false]
  rw [hbody, ← h] at hread
  exact ⟨b, bs, h, hspace, hcomment, hread⟩

/-- An operator is read as such in front of a space. -/
theorem reads (strict : Bool) (op : OperatorText) (rest : Bytes) :
    Lexeme.Reads strict op.bytes (byte ' ' :: rest) (.operator (Operator.ofBytes op.bytes)) :=
  op.reads_append strict (by decide) (by decide) rest

end OperatorText

/-! ### Numbers -/

/-- The **digits of a number**, around at most one point, behind a sign or none. -/
structure NumberText where
  sign : Bytes
  whole : Bytes
  fraction : Option Bytes
  sign_mem : sign ∈ [[], [byte '+'], [byte '-']]
  whole_digits : ∀ d ∈ whole, isDigit d = true
  fraction_digits : ∀ d ∈ fraction.getD [], isDigit d = true
  some_digit : whole ≠ [] ∨ fraction.getD [] ≠ []

namespace NumberText

/-- The digits and the point of a number, **without its sign**. -/
def unsigned (n : NumberText) : Bytes :=
  n.whole ++ n.fraction.elim [] (byte '.' :: ·)

/-- A number **as it is written**. -/
def write (n : NumberText) : Bytes :=
  n.sign ++ n.unsigned

/-- The number **without its sign**. -/
def magnitude (n : NumberText) : Numeral :=
  Numeral.ofResult (decimalValue n.whole (n.fraction.getD []))

/-- The number that is **written**. -/
def numeral (n : NumberText) : Numeral :=
  if n.sign = [byte '-'] then n.magnitude.opposite else n.magnitude

variable {n : NumberText} {b : UInt8} {bs tail : Bytes}

/-- Behind its sign, a number has digits and a point only. The point is there if the number has a
fraction, even if this has no digits. -/
theorem mem_unsigned (hb : b ∈ n.unsigned) : (isDigit b || b == byte '.') = true := by
  rw [unsigned, List.mem_append] at hb
  obtain hb | hb := hb
  · rw [n.whole_digits b hb, Bool.true_or]
  · have hdigits := n.fraction_digits b
    generalize n.fraction = fraction at hb hdigits
    cases fraction with
    | none => cases hb
    | some digits =>
        obtain rfl | hb := List.mem_cons.mp hb
        · rw [beq_self_eq_true, Bool.or_true]
        · rw [hdigits hb, Bool.true_or]

/-- The digits in front are those of the whole part. -/
theorem takeWhile_unsigned (n : NumberText) : n.unsigned.takeWhile isDigit = n.whole := by
  refine takeWhile_append_of_all n.whole_digits ?_
  cases n.fraction with
  | none => rfl
  | some fraction => rfl

/-- Those behind the point are those of the fraction, if there is one. -/
theorem takeWhile_drop_unsigned (n : NumberText) :
    (n.unsigned.drop (n.whole.length + 1)).takeWhile isDigit = n.fraction.getD [] := by
  have hdigits := n.fraction_digits
  rw [unsigned, List.drop_length_add_append]
  generalize n.fraction = fraction at hdigits ⊢
  cases fraction with
  | none => rfl
  | some digits => exact List.takeWhile_eq_self_iff.mpr hdigits

/-- Beyond these there is at most the point. -/
theorem length_unsigned_le (n : NumberText) :
    n.unsigned.length ≤ n.whole.length + 1 + (n.fraction.getD []).length := by
  rw [unsigned, List.length_append]
  rcases n.fraction with _ | fraction
  · exact Nat.le_add_right_of_le (Nat.le_succ _)
  · simp only [Option.elim_some, Option.getD_some, List.length_cons]
    omega

/-- The reader of numbers takes a sign, and what follows it as far as it goes. There is a digit on
one side of the point at least. -/
theorem readNumber_eq
    (hrun : (if b == byte '+' || b == byte '-' then bs else b :: bs).takeWhile
      (fun c => isDigit c || c == byte '.') = n.unsigned) :
    Lexeme.readNumber b bs =
      .ok (.number (if b == byte '-' then n.magnitude.opposite else n.magnitude),
        (if b == byte '+' || b == byte '-' then 1 else 0) + n.unsigned.length - 1) := by
  have hdigit : (n.whole.isEmpty && (n.fraction.getD []).isEmpty) = false := by
    rcases n.some_digit with h | h
    · rw [List.isEmpty_eq_false_iff.mpr h, Bool.false_and]
    · rw [List.isEmpty_eq_false_iff.mpr h, Bool.and_false]
  simp only [Lexeme.readNumber, hrun, takeWhile_unsigned, takeWhile_drop_unsigned,
    Nat.not_lt.mpr n.length_unsigned_le, hdigit, if_false, Bool.false_eq_true, magnitude]

/-- A number has something behind its sign. -/
theorem unsigned_ne_nil (n : NumberText) : n.unsigned ≠ [] := by
  intro h
  obtain ⟨hwhole, hfraction⟩ := List.append_eq_nil_iff.mp h
  obtain hne | hne := n.some_digit
  · exact hne hwhole
  · rcases hsome : n.fraction with _ | fraction
    · exact hne (by rw [hsome]; rfl)
    · rw [hsome] at hfraction
      cases hfraction

/-- The first byte of a number is its sign, or the first of its digits or its point. What the reader
takes is the same in all of these cases. -/
theorem exists_first (n : NumberText) : ∃ b bs, n.write = b :: bs ∧
    Lexeme.startsNumber b = true ∧ (b == byte '-') = decide (n.sign = [byte '-']) ∧
    (if b == byte '+' || b == byte '-' then bs else b :: bs) = n.unsigned := by
  have hsign := n.sign_mem
  simp only [List.mem_cons, List.not_mem_nil, or_false] at hsign
  rw [write]
  obtain h | h | h := hsign
  · obtain ⟨b, bs, hb⟩ := List.exists_cons_of_ne_nil n.unsigned_ne_nil
    have hclass : (isDigit b || b == byte '.') = true :=
      mem_unsigned (by rw [hb]; exact List.mem_cons_self)
    have hne {c : UInt8} (hc : (isDigit c || c == byte '.') = false) : (b == c) = false :=
      Lexeme.beq_false_of_class (p := fun c => isDigit c || c == byte '.') hclass hc
    have hplus : (b == byte '+') = false := hne (by decide)
    have hminus : (b == byte '-') = false := hne (by decide)
    rw [Bool.or_comm] at hclass
    refine ⟨b, bs, by rw [h, hb]; rfl, ?_, ?_, ?_⟩
    · rw [Lexeme.startsNumber, hplus, hminus, Bool.false_or, Bool.false_or, hclass]
    · rw [h, hminus]
      rfl
    · rw [hplus, hminus, hb]
      rfl
  · exact ⟨byte '+', n.unsigned, by rw [h]; rfl, rfl, by rw [h]; rfl, rfl⟩
  · exact ⟨byte '-', n.unsigned, by rw [h]; rfl, rfl, by rw [h]; rfl, rfl⟩

/-- A number is read as such in front of bytes that cannot belong to it. They are the end of the run
of digits that the reader takes. -/
theorem reads (strict : Bool) (n : NumberText)
    (htail : tail.takeWhile (fun c => isDigit c || c == byte '.') = []) :
    Lexeme.Reads strict n.write tail (.number n.numeral) := by
  obtain ⟨b, bs, hwrite, hstart, hminus, hunsigned⟩ := n.exists_first
  have hrun : (if b == byte '+' || b == byte '-' then bs ++ tail else b :: (bs ++ tail)).takeWhile
      (fun c => isDigit c || c == byte '.') = n.unsigned := by
    rw [← List.cons_append, ← apply_ite (· ++ tail), hunsigned]
    exact takeWhile_append_of_all (fun _ => mem_unsigned) htail
  have hlength : (if b == byte '+' || b == byte '-' then 1 else 0) + n.unsigned.length - 1 =
      bs.length := by
    rw [← hunsigned]
    split
    · exact Nat.add_sub_cancel_left 1 _
    · rw [List.length_cons, Nat.zero_add, Nat.add_sub_cancel]
  refine ⟨b, bs, hwrite, Lexeme.not_isSpace_of_startsNumber hstart, ?_, ?_⟩
  · exact ne_of_beq_false
      (Lexeme.beq_false_of_class hstart (by decide : Lexeme.startsNumber (byte '%') = false))
  · rw [Lexeme.read_of_startsNumber hstart, readNumber_eq hrun, hlength, hminus, numeral]
    simp only [decide_eq_true_eq]

end NumberText

/-! ### Leaves -/

/-- The **form of a string**: hexadecimal digits between angle brackets, or octal escapes between
parentheses. -/
inductive StringForm where
  | hexadecimal (capital : Nat → Bool)
  | octal

/-- A string **as it is written**. -/
def StringForm.write (bytes : Bytes) : StringForm → Bytes
  | hexadecimal capital => byte '<' :: (hexPairs capital bytes ++ [byte '>'])
  | octal => byte '(' :: (octalEscapes bytes ++ [byte ')'])

/-- A **leaf**: a token that is no array and no data of an inline image, with a choice of its
written form. -/
inductive Leaf where
  | operator (op : OperatorText)
  | string (form : StringForm) (bytes : Bytes)
  | number (n : NumberText)
  | name (capital : Nat → Bool) (bytes : Bytes)
  | boolean (value : Bool)
  | dictOpen
  | dictClose

namespace Leaf

/-- A leaf **as it is written**. -/
def write : Leaf → Bytes
  | operator op => op.bytes
  | string form bytes => form.write bytes
  | number n => n.write
  | name capital bytes => byte '/' :: nameEscapes capital bytes
  | boolean value => Utf8.encode (if value then "true" else "false")
  | dictOpen => [byte '<', byte '<']
  | dictClose => [byte '>', byte '>']

/-- The **lexeme** that a leaf is written for. -/
def lexeme : Leaf → Lexeme
  | operator op => .operator (Operator.ofBytes op.bytes)
  | string _ bytes => .string bytes
  | number n => .number n.numeral
  | name _ bytes => .name bytes
  | boolean value => .boolean value
  | dictOpen => .dictOpen
  | dictClose => .dictClose

/-- A string of hexadecimal digits is read as its bytes, up to the closing bracket. It cannot be
taken for a dictionary, whose second bracket is no digit. -/
theorem reads_hexadecimal (strict : Bool) (capital : Nat → Bool) (bytes tail : Bytes) :
    Lexeme.Reads strict ((StringForm.hexadecimal capital).write bytes) tail (.string bytes) := by
  refine ⟨_, _, rfl, by decide, by decide, ?_⟩
  -- a second angle bracket would open a dictionary
  have hhead :
      ((hexPairs capital bytes ++ [byte '>'] ++ tail).head? == some (byte '<')) = false := by
    cases bytes with
    | nil => rfl
    | cons b bs =>
        have hdigit : hexDigit (capital 0) (b.toNat / 16) ∈ hexPairs capital (b :: bs) :=
          List.mem_cons_self
        exact Lexeme.beq_false_of_class (p := fun c => isSpace c || (hexValue? c).isSome)
          (mem_hexPairs hdigit) (by decide)
  have hbody : (hexPairs capital bytes ++ [byte '>'] ++ tail).takeWhile
      (fun c => isSpace c || (hexValue? c).isSome) = hexPairs capital bytes := by
    rw [List.append_assoc]
    exact takeWhile_append_of_all (fun _ => mem_hexPairs) rfl
  have hdrop : (hexPairs capital bytes ++ [byte '>'] ++ tail).drop (hexPairs capital bytes).length =
      byte '>' :: tail := by
    rw [List.append_assoc, List.drop_left]
    rfl
  rw [Lexeme.read, if_neg (by decide), if_pos (by decide), hhead, if_neg (by decide),
    Lexeme.readHex]
  simp only [hbody, hdrop, beq_self_eq_true, if_true, pairDigits_hexPairs, List.length_append,
    List.length_cons, List.length_nil]

/-- A string of octal escapes is read as its bytes, up to the closing parenthesis. -/
theorem reads_octal (strict : Bool) (bytes tail : Bytes) :
    Lexeme.Reads strict (StringForm.octal.write bytes) tail (.string bytes) := by
  refine ⟨_, _, rfl, by decide, by decide, ?_⟩
  rw [Lexeme.read, if_pos (by decide), Lexeme.readLiteral, List.append_assoc, List.singleton_append,
    literalLength?_octalEscapes]
  simp only [List.take_left, decodeLiteral_octalEscapes, List.length_append, List.length_cons,
    List.length_nil]

/-- A name of escapes is read as its bytes, up to a space. -/
theorem reads_name (strict : Bool) (capital : Nat → Bool) (bytes rest : Bytes) :
    Lexeme.Reads strict (byte '/' :: nameEscapes capital bytes) (byte ' ' :: rest)
      (.name bytes) := by
  refine ⟨_, _, rfl, by decide, by decide, ?_⟩
  have hbody : (nameEscapes capital bytes ++ byte ' ' :: rest).takeWhile (fun c => !isNameEnd c) =
      nameEscapes capital bytes :=
    takeWhile_append_of_all (fun c hc => by rw [mem_nameEscapes hc, Bool.not_false]) rfl
  simp only [Lexeme.read, Lexeme.readName, hbody, decodeName_nameEscapes]
  rfl

/-- A truth value is read as itself, whatever follows: its word is not looked at any further. So
letters behind it would begin another lexeme. -/
theorem reads_boolean (strict value : Bool) (tail : Bytes) :
    Lexeme.Reads strict (Utf8.encode (if value then "true" else "false")) tail
      (.boolean value) := by
  cases value
  · refine ⟨_, _, encode_false, by decide, by decide, ?_⟩
    rw [Lexeme.read, encode_true, encode_false]
    rfl
  · refine ⟨_, _, encode_true, by decide, by decide, ?_⟩
    rw [Lexeme.read, encode_true, encode_false]
    rfl

/-- A leaf is read as the lexeme it was written for, in front of a space. This is the end of
operators, names and numbers; all others end themselves. -/
theorem reads (strict : Bool) (l : Leaf) (rest : Bytes) :
    Lexeme.Reads strict l.write (byte ' ' :: rest) l.lexeme := by
  cases l with
  | operator op => exact op.reads strict rest
  | string form bytes =>
      cases form with
      | hexadecimal capital => exact reads_hexadecimal strict capital bytes _
      | octal => exact reads_octal strict bytes _
  | number n => exact n.reads strict rfl
  | name capital bytes => exact reads_name strict capital bytes rest
  | boolean value => exact reads_boolean strict value _
  | dictOpen => exact ⟨_, _, rfl, by decide, by decide, rfl⟩
  | dictClose => exact ⟨_, _, rfl, by decide, by decide, rfl⟩

end Leaf

end ContentStream

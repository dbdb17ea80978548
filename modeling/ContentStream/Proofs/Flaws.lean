import ContentStream.Proofs.ImageData
import ContentStream.Proofs.Literals

/-!
# Causes of flaws

A lexical flaw is reported with a position, and what stands at that position is its cause. There is
one cause for each flaw. Some are in the bytes behind the position, such as a parenthesis that no
later one closes; others need a look at the bytes in front of it, such as a second decimal point,
which is one only because of the number that it continues.

The readers report a flaw from different places: where a string begins, at a byte in the middle of
it, or at the end. That is why a cause is stated of two pieces of the source, the bytes *before* the
position and those *after* it. More bytes before do not take a cause away, which is what carries it
from a lexeme to the whole source. Brackets of arrays are looked at only when lexemes are gathered,
from the inside of any number of arrays. A bracket that closes none would be a cause wherever it
stands, and so would be the end of the source for an array that is open there: the scan places both
of them rightly, and gathering only decides whether they are flaws.

## Main definitions

* `LexicalFlaw.Cause`: what stands before and after the position of a flaw.
* `HasCause`: a flaw at some position in some bytes has a cause there.

## Main results

* `Lexeme.hasCause_of_read`: a flaw of a lexeme has a cause.
* `hasCauses_scanFrom`: the flaws of a scan have one, and those that gathering may find.
* `cause_of_tokenize`: lexical faults point at their cause.
-/

namespace ContentStream

/-! ### Causes -/

/-- The **signs** of a number, one of which is none. -/
def signs : List Bytes :=
  [[], [byte '+'], [byte '-']]

/-- The bytes that may stand **in a hexadecimal string**: digits and white space. -/
def isHexByte (b : UInt8) : Bool :=
  isSpace b || (hexValue? b).isSome

/-- The **cause of a flaw** is told by the bytes before its position and by those after it. -/
inductive LexicalFlaw.Cause (strict : Bool) : (before after : Bytes) → LexicalFlaw → Prop
  /-- The source ends. -/
  | unterminatedArray {before : Bytes} : Cause strict before [] .unterminatedArray
  /-- A bracket stands there that closes an array. -/
  | unbalancedBracket {before rest : Bytes} :
      Cause strict before (byte ']' :: rest) .unbalancedBracket
  /-- A parenthesis stands there, and nothing closes it. -/
  | unterminatedString {before rest : Bytes} (h : ¬ Literal.Closes rest) :
      Cause strict before (byte '(' :: rest) .unterminatedString
  /-- An angle bracket stands there, and nothing but digits and white space follows. -/
  | unterminatedHexString {before rest : Bytes} (h : ∀ b ∈ rest, isHexByte b = true) :
      Cause strict before (byte '<' :: rest) .unterminatedHexString
  /-- A byte stands there that is neither a digit nor white space and closes nothing, and between
  it and an angle bracket there are only digits and white space. -/
  | invalidHexDigit {front body : Bytes} {b : UInt8} {rest : Bytes}
      (hbody : ∀ c ∈ body, isHexByte c = true) (hb : isHexByte b = false) (hclose : b ≠ byte '>') :
      Cause strict (front ++ byte '<' :: body) (b :: rest) .invalidHexDigit
  /-- A point stands there behind a number that has a point already. -/
  | secondDecimalPoint {front sign whole fraction rest : Bytes} (hsign : sign ∈ signs)
      (hwhole : ∀ d ∈ whole, isDigit d = true) (hfraction : ∀ d ∈ fraction, isDigit d = true) :
      Cause strict (front ++ (sign ++ (whole ++ byte '.' :: fraction))) (byte '.' :: rest)
        .secondDecimalPoint
  /-- A sign or a point or both stand there, and neither a digit nor another point follows. -/
  | noDigits {before sign point rest : Bytes} (hsign : sign ∈ signs)
      (hpoint : point = [] ∨ point = [byte '.']) (hany : sign ++ point ≠ [])
      (hrest : ∀ b ∈ rest.head?, isDigit b = false ∧ b ≠ byte '.') :
      Cause strict before (sign ++ (point ++ rest)) .noDigits
  /-- The operator that introduces an inline image stands there, and no mark ends the data. -/
  | unterminatedImage {before rest : Bytes} (h : ∀ n, ¬ ImageEnd strict (rest.drop n)) :
      Cause strict before (byte 'I' :: byte 'D' :: rest) .unterminatedImage

/-- A cause stays one with more bytes before. This is what takes it from a lexeme to the whole
source. -/
theorem LexicalFlaw.Cause.append_left {strict : Bool} {before after : Bytes} {flaw : LexicalFlaw}
    (h : flaw.Cause strict before after) (front : Bytes) :
    flaw.Cause strict (front ++ before) after := by
  cases h with
  | unterminatedArray => exact .unterminatedArray
  | unbalancedBracket => exact .unbalancedBracket
  | unterminatedString h => exact .unterminatedString h
  | unterminatedHexString h => exact .unterminatedHexString h
  | invalidHexDigit hbody hb hclose =>
      rw [← List.append_assoc]
      exact .invalidHexDigit hbody hb hclose
  | secondDecimalPoint hsign hwhole hfraction =>
      rw [← List.append_assoc]
      exact .secondDecimalPoint hsign hwhole hfraction
  | noDigits hsign hpoint hany hrest => exact .noDigits hsign hpoint hany hrest
  | unterminatedImage h => exact .unterminatedImage h

/-- A flaw at position `p` **has a cause** in bytes that begin at `position`. -/
def HasCause (strict : Bool) (position : Nat) (bs : Bytes) (p : Nat) (flaw : LexicalFlaw) : Prop :=
  ∃ before after, bs = before ++ after ∧ p = position + before.length ∧
    flaw.Cause strict before after

namespace HasCause

variable {strict : Bool} {position p : Nat} {b : UInt8} {bs : Bytes} {flaw : LexicalFlaw}

/-- A cause in the bytes behind a byte is one in all of them. -/
theorem cons (h : HasCause strict (position + 1) bs p flaw) (b : UInt8) :
    HasCause strict position (b :: bs) p flaw := by
  obtain ⟨before, after, rfl, rfl, hcause⟩ := h
  refine ⟨b :: before, after, rfl, ?_, hcause.append_left [b]⟩
  rw [List.length_cons]
  omega

/-- A cause right at the front. -/
theorem here (h : flaw.Cause strict [] bs) : HasCause strict position bs position flaw :=
  ⟨[], bs, rfl, rfl, h⟩

/-- A cause is as far from the beginning, wherever the bytes begin. -/
theorem add (h : HasCause strict 0 bs p flaw) (position : Nat) :
    HasCause strict position bs (position + p) flaw := by
  obtain ⟨before, after, rfl, rfl, hcause⟩ := h
  exact ⟨before, after, rfl, by rw [Nat.zero_add], hcause⟩

end HasCause

/-! ### Flaws of lexemes -/

/-- Bytes fall apart into those that are taken from the front and the rest, which begins with a byte
of another kind. -/
theorem exists_takeWhile_append (p : UInt8 → Bool) (a : Bytes) :
    ∃ body rest, a = body ++ rest ∧ a.takeWhile p = body ∧ (∀ b ∈ body, p b = true) ∧
      ∀ b ∈ rest.head?, p b = false := by
  refine ⟨a.takeWhile p, a.dropWhile p, List.takeWhile_append_dropWhile.symm, rfl,
    fun b => List.mem_takeWhile_imp, fun b hb => ?_⟩
  have hhead := List.head?_dropWhile_not p a
  rw [Option.mem_def.mp hb] at hhead
  exact hhead

namespace Lexeme

variable {strict : Bool} {b : UInt8} {bs : Bytes} {offset : Nat} {flaw : LexicalFlaw}

/-- A literal string is flawed if no parenthesis closes it, and the flaw is where it begins. -/
theorem hasCause_of_readLiteral (h : readLiteral bs = .error (offset, flaw)) :
    HasCause strict 0 (byte '(' :: bs) offset flaw := by
  by_cases hcloses : Literal.Closes bs
  · obtain ⟨body, meaning, rest, hbody, rfl⟩ := hcloses
    rw [hbody.readLiteral] at h
    cases h
  · rw [readLiteral_of_not_closes hcloses] at h
    obtain ⟨rfl, rfl⟩ := Prod.mk.inj (Except.error.inj h)
    exact .here (.unterminatedString hcloses)

/-- A hexadecimal string is flawed by a byte that is no digit, which is where the flaw is, or by its
end that is missing. -/
theorem hasCause_of_readHex (h : readHex bs = .error (offset, flaw)) :
    HasCause strict 0 (byte '<' :: bs) offset flaw := by
  obtain ⟨body, rest, rfl, htake, hbody, hrest⟩ := exists_takeWhile_append isHexByte bs
  simp only [readHex, show (body ++ rest).takeWhile (fun b => isSpace b || (hexValue? b).isSome) =
    body from htake, List.drop_left] at h
  rcases rest with _ | ⟨b, rest⟩
  · obtain ⟨rfl, rfl⟩ := Prod.mk.inj (Except.error.inj h)
    rw [List.append_nil]
    exact .here (.unterminatedHexString hbody)
  · by_cases hclose : b = byte '>'
    · simp [hclose] at h
    · simp only [beq_false_of_ne hclose, Bool.false_eq_true, if_false] at h
      obtain ⟨rfl, rfl⟩ := Prod.mk.inj (Except.error.inj h)
      refine ⟨byte '<' :: body, b :: rest, rfl, (Nat.zero_add _).symm, ?_⟩
      rw [← List.nil_append (byte '<' :: body)]
      exact .invalidHexDigit hbody (hrest b rfl) hclose

end Lexeme

/-! ### Flaws of numbers -/

section Numbers

variable {run whole fraction : Bytes}

/-- A run of digits and points that goes on behind its first point and the digits after it goes on
with a second point. -/
theorem exists_second_point (hrun : ∀ c ∈ run, (isDigit c || c == byte '.') = true)
    (hwhole : run.takeWhile isDigit = whole)
    (hfraction : (run.drop (whole.length + 1)).takeWhile isDigit = fraction)
    (hlong : whole.length + 1 + fraction.length < run.length) :
    ∃ rest, run = whole ++ byte '.' :: fraction ++ byte '.' :: rest := by
  have hpoint : ∀ c ∈ run, isDigit c = false → c = byte '.' := fun c hc hdigit => by
    simpa [hdigit] using hrun c hc
  obtain ⟨front, behind, rfl, hfront, -, hbehind⟩ := exists_takeWhile_append isDigit run
  obtain rfl : front = whole := hfront.symm.trans hwhole
  rcases behind with _ | ⟨c, behind⟩
  · rw [List.append_nil] at hlong
    omega
  rw [List.drop_length_add_append, List.drop_succ_cons, List.drop_zero] at hfraction
  obtain ⟨digits, rest, rfl, hdigits, -, hrest⟩ := exists_takeWhile_append isDigit behind
  obtain rfl : digits = fraction := hdigits.symm.trans hfraction
  rcases rest with _ | ⟨d, rest⟩
  · rw [List.length_append, List.length_cons, List.append_nil] at hlong
    omega
  have hc : c = byte '.' := hpoint c (by simp) (hbehind c rfl)
  have hd : d = byte '.' := hpoint d (by simp) (hrest d rfl)
  exact ⟨rest, by rw [hc, hd, List.append_assoc, List.cons_append]⟩

/-- A run of digits and points without any digit is empty or a single point. With two points it
would have been a flaw before. -/
theorem eq_point_of_no_digits (hrun : ∀ c ∈ run, (isDigit c || c == byte '.') = true)
    (hwhole : run.takeWhile isDigit = []) (hshort : run.length ≤ 1) :
    run = [] ∨ run = [byte '.'] := by
  match run, hshort with
  | [], _ => exact .inl rfl
  | [c], _ =>
      have hdigit : isDigit c = false := by simpa using hwhole
      have hpoint := hrun c (List.mem_singleton_self c)
      rw [hdigit, Bool.false_or, beq_iff_eq] at hpoint
      exact .inr (by rw [hpoint])

end Numbers

namespace Lexeme

variable {strict : Bool} {b : UInt8} {bs : Bytes} {offset : Nat} {flaw : LexicalFlaw}

/-- A number is a sign and a text without one. If the sign is none, a digit or a point comes
first. -/
theorem exists_sign (hb : startsNumber b = true) (bs : Bytes) : ∃ sign text,
    sign ∈ signs ∧ b :: bs = sign ++ text ∧
    (if b == byte '+' || b == byte '-' then 1 else 0) = sign.length ∧
    (if b == byte '+' || b == byte '-' then bs else b :: bs) = text ∧
    (sign = [] → text.takeWhile (fun c => isDigit c || c == byte '.') ≠ []) := by
  by_cases hsigned : (b == byte '+' || b == byte '-') = true
  · exact ⟨[b], bs, by simpa [signs] using hsigned, rfl, if_pos hsigned, if_pos hsigned, nofun⟩
  · refine ⟨[], b :: bs, List.mem_cons_self, rfl, if_neg hsigned, if_neg hsigned, fun _ => ?_⟩
    have hrun : (isDigit b || b == byte '.') = true := by
      rw [startsNumber, Bool.or_assoc, Bool.or_eq_true, Bool.or_comm (b == byte '.')] at hb
      exact hb.resolve_left hsigned
    simp [hrun]

/-- A number is flawed by a second point, which is where the flaw is, or by having no digits, and
then the flaw is where it begins. -/
theorem hasCause_of_readNumber (hb : startsNumber b = true)
    (h : readNumber b bs = .error (offset, flaw)) : HasCause strict 0 (b :: bs) offset flaw := by
  obtain ⟨sign, text, hsign, hsplit, hlength, htext, hfirst⟩ := exists_sign hb bs
  obtain ⟨run, tail, rfl, htake, hrun, htail⟩ :=
    exists_takeWhile_append (fun c => isDigit c || c == byte '.') text
  simp only [readNumber, hlength, htext, htake] at h hfirst
  generalize hwhole : run.takeWhile isDigit = whole at h
  generalize hfraction : (run.drop (whole.length + 1)).takeWhile isDigit = fraction at h
  rw [hsplit]
  by_cases hlong : whole.length + 1 + fraction.length < run.length
  · rw [if_pos hlong] at h
    obtain ⟨rfl, rfl⟩ := Prod.mk.inj (Except.error.inj h)
    obtain ⟨rest, rfl⟩ := exists_second_point hrun hwhole hfraction hlong
    refine ⟨sign ++ (whole ++ byte '.' :: fraction), byte '.' :: (rest ++ tail), ?_, ?_, ?_⟩
    · simp only [List.append_assoc, List.cons_append]
    · simp only [List.length_append, List.length_cons]
      omega
    · rw [← List.nil_append (sign ++ _)]
      exact .secondDecimalPoint hsign (fun d hd => List.mem_takeWhile_imp (hwhole ▸ hd))
        fun d hd => List.mem_takeWhile_imp (hfraction ▸ hd)
  · rw [if_neg hlong] at h
    split at h
    · rename_i hempty
      obtain ⟨rfl, rfl⟩ := Prod.mk.inj (Except.error.inj h)
      simp only [Bool.and_eq_true, List.isEmpty_iff] at hempty
      obtain ⟨rfl, rfl⟩ := hempty
      have hpoint := eq_point_of_no_digits hrun hwhole (by simpa using hlong)
      refine .here (.noDigits hsign hpoint (fun hnone => ?_) fun c hc => ?_)
      · obtain ⟨hsignNone, hrunNone⟩ := List.append_eq_nil_iff.mp hnone
        exact hfirst hsignNone hrunNone
      · simpa using htail c hc
    · cases h

/-! ### Flaws of inline images -/

/-- An operator is flawed only if it introduces an inline image whose data do not end. The cause is
told by all bytes that follow, none of which begins a mark. -/
theorem hasCause_of_readOperator (h : readOperator strict b bs = .error (offset, flaw)) :
    HasCause strict 0 (b :: bs) offset flaw := by
  simp only [readOperator] at h
  split at h
  · rename_i himage
    rw [Bool.and_eq_true, beq_iff_eq, beq_iff_eq] at himage
    obtain ⟨rfl, hhead⟩ := himage
    obtain ⟨rest, rfl⟩ : ∃ rest, bs = byte 'D' :: rest := by
      obtain ⟨tail, htail⟩ := List.head?_eq_some_iff.mp hhead
      obtain ⟨body, after, hbs, rfl, -⟩ := exists_takeWhile_append (fun b => !isOperatorEnd b) bs
      exact ⟨tail ++ after, by rw [hbs, htail]; rfl⟩
    rw [List.drop_one, List.tail_cons, readImage] at h
    rcases hlength : imageLength? strict rest with _ | n
    · rw [hlength] at h
      obtain ⟨rfl, rfl⟩ := Prod.mk.inj (Except.error.inj h)
      exact .here (.unterminatedImage (imageLength?_eq_none_iff.mp hlength))
    · rw [hlength] at h
      cases h
  · cases h

/-! ### Lexemes -/

/-- A flaw of a lexeme has a cause. The cases are those of the first byte, four of which can lead to
a flaw. -/
theorem hasCause_of_read (h : read strict b bs = .error (offset, flaw)) :
    HasCause strict 0 (b :: bs) offset flaw := by
  simp only [read] at h
  split_ifs at h with hliteral hhex hdict hclose hopenArray hcloseArray hname hnumber htrue hfalse
  · rw [beq_iff_eq.mp hliteral]
    exact hasCause_of_readLiteral h
  · rw [beq_iff_eq.mp hhex]
    exact hasCause_of_readHex h
  · cases h
  · exact hasCause_of_readNumber hnumber h
  · exact hasCause_of_readOperator h

/-- The closing bracket of an array is read from a bracket. All other readers give lexemes of other
kinds, which is what the cases check. -/
theorem eq_of_read_arrayClose {n : Nat} (h : read strict b bs = .ok (.arrayClose, n)) :
    b = byte ']' := by
  simp only [read] at h
  split_ifs at h with hliteral hhex hdict hclose hopenArray hcloseArray hname hnumber htrue hfalse
  · rw [readLiteral] at h
    split at h <;> cases h
  · cases h
  · simp only [readHex] at h
    split at h
    · cases h
    · split at h <;> cases h
  · cases h
  · cases h
  · exact beq_iff_eq.mp hcloseArray
  · cases h
  · simp only [readNumber] at h
    split_ifs at h <;> cases h
  · cases h
  · cases h
  · simp only [readOperator, readImage] at h
    split at h
    · split at h <;> cases h
    · cases h

end Lexeme

/-! ### Scanning -/

/-- What a scan finds **has its causes** where it says: its stop does, and every closing bracket of
an array would, if it closed none. The end of the source is where an array that is open would lack
its bracket. -/
structure Scan.HasCauses (strict : Bool) (position : Nat) (bs : Bytes) (s : Scan) : Prop where
  bracket : ∀ p, ⟨p, .arrayClose⟩ ∈ s.lexemes → HasCause strict position bs p .unbalancedBracket
  finished : ∀ p, s.stop = .finished p → HasCause strict position bs p .unterminatedArray
  flawed : ∀ p flaw, s.stop = .flawed p flaw → HasCause strict position bs p flaw

/-- What is found behind a byte has its causes in all of the bytes. -/
theorem Scan.HasCauses.cons {strict : Bool} {position : Nat} {bs : Bytes} {s : Scan}
    (h : s.HasCauses strict (position + 1) bs) (b : UInt8) :
    s.HasCauses strict position (b :: bs) where
  bracket p hp := (h.bracket p hp).cons b
  finished p hp := (h.finished p hp).cons b
  flawed p flaw hp := (h.flawed p flaw hp).cons b

/-- The flaws of a scan have a cause, and so have those that gathering may find. The induction is
that of the scan, which goes on behind each lexeme. -/
theorem hasCauses_scanFrom (strict : Bool) (position passed : Nat) (bs : Bytes) :
    (scanFrom strict position passed bs).HasCauses strict position bs := by
  fun_induction scanFrom strict position passed bs with
  | case1 passed position =>
      refine ⟨fun p hp => absurd hp List.not_mem_nil, fun p hp => ?_,
        fun p flaw hp => Stop.noConfusion hp⟩
      obtain rfl := Stop.finished.inj hp
      exact .here .unterminatedArray
  | case2 position passed b bs ih | case3 position b bs hspace ih
  | case4 position b bs hspace hcomment ih => exact ih.cons b
  | case5 position b bs hspace hcomment offset flaw hread =>
      refine ⟨fun p hp => absurd hp List.not_mem_nil, fun p hp => Stop.noConfusion hp,
        fun p flaw' hp => ?_⟩
      obtain ⟨rfl, rfl⟩ := Stop.flawed.inj hp
      exact (Lexeme.hasCause_of_read hread).add position
  | case6 position b bs hspace hcomment lexeme passed hread ih =>
      refine { ih.cons b with bracket := fun p hp => ?_ }
      obtain hfirst | hlater := List.mem_cons.mp hp
      · obtain ⟨rfl, rfl⟩ := Placed.mk.inj hfirst
        rw [Lexeme.eq_of_read_arrayClose hread]
        exact .here .unbalancedBracket
      · exact (ih.cons b).bracket p hlater

/-! ### Gathering -/

/-- Gathering fails where the scan says so, whatever arrays are open: at its stop, or at a closing
bracket that closes none. -/
theorem hasCause_of_assemble {strict : Bool} {position : Nat} {bs : Bytes} {used : Nat}
    {level : List Token} {outer : List (List Token)} {s : Scan} {fault : Fault}
    (h : assemble used level outer s.lexemes s.stop = .error fault)
    (hs : s.HasCauses strict position bs) :
    ∃ p flaw, fault = .lexical p flaw ∧ HasCause strict position bs p flaw := by
  obtain ⟨lexemes, stop⟩ := s
  fun_induction assemble used level outer lexemes stop with
  | case1 used level p => cases h
  | case2 used level around outer p =>
      obtain rfl := Except.error.inj h
      exact ⟨p, _, rfl, hs.finished p rfl⟩
  | case3 used level outer p flaw =>
      obtain rfl := Except.error.inj h
      exact ⟨p, flaw, rfl, hs.flawed p flaw rfl⟩
  | case5 used level p rest stop =>
      obtain rfl := Except.error.inj h
      exact ⟨p, _, rfl, hs.bracket p List.mem_cons_self⟩
  | case4 _ _ _ _ _ _ ih | case6 _ _ _ _ _ _ _ ih | case7 _ _ _ _ _ _ _ _ _ ih =>
      exact ih h { hs with bracket := fun p hp => hs.bracket p (List.mem_cons_of_mem _ hp) }

/-! ### Tokenizing -/

/-- **Lexical faults point at their cause.** A content stream that cannot be tokenized fails with a
lexical fault, whose position is not behind the end of the source. What stands at that position is
the cause that its flaw has, whatever lexemes, comments and open arrays come before. -/
theorem cause_of_tokenize {strict : Bool} {source : Bytes} {fault : Fault}
    (h : tokenize strict source = .error fault) :
    (∃ p flaw, fault = .lexical p flaw ∧ p ≤ source.length ∧
      flaw.Cause strict (source.take p) (source.drop p)) ∧
    ([.unterminatedArray, .unbalancedBracket, .unterminatedString, .unterminatedHexString,
        .invalidHexDigit, .secondDecimalPoint, .noDigits, .unterminatedImage] :
      List LexicalFlaw).map LexicalFlaw.message =
      ["unterminated array", "unbalanced ']'", "unterminated string", "unterminated hex string",
        "invalid hex digit", "second decimal point in number", "number has no digits",
        "unterminated inline image"] := by
  refine ⟨?_, rfl⟩
  rw [tokenize_eq] at h
  rcases htokens : (scan strict source).tokens with fault' | tokens
  · rw [htokens] at h
    obtain rfl := Except.error.inj h
    obtain ⟨p, flaw, rfl, before, after, rfl, rfl, hcause⟩ :=
      hasCause_of_assemble htokens (hasCauses_scanFrom strict 0 0 source)
    refine ⟨_, flaw, rfl, ?_, ?_⟩
    · rw [Nat.zero_add, List.length_append]
      exact Nat.le_add_right _ _
    · rwa [Nat.zero_add, List.take_left, List.drop_left]
  · rw [htokens] at h
    cases h

/-- The second point of a number in an array in an array. Its position counts the string in front,
and takes no notice of the brackets. -/
theorem cause_of_tokenize_of_second_point :
    let front : Bytes := [byte '[', byte '(', byte 'a', byte ')', byte '[', byte '+', byte '.',
      byte '5']
    let rest : Bytes := [byte '.', byte ']']
    tokenize false (front ++ rest) = .error (.lexical 8 .secondDecimalPoint) ∧
    LexicalFlaw.secondDecimalPoint.Cause false front rest := by
  intro front rest
  have herror : tokenize false (front ++ rest) = .error (.lexical 8 .secondDecimalPoint) := rfl
  obtain ⟨⟨p, flaw, hfault, -, hcause⟩, -⟩ := cause_of_tokenize herror
  obtain ⟨rfl, rfl⟩ := Fault.lexical.inj hfault
  exact ⟨herror, hcause⟩

end ContentStream

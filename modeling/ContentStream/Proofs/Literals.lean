import ContentStream.Proofs.RoundTrip

/-!
# Literal strings

What may stand between the parentheses of a literal string is given by a grammar: a *body* is a
sequence of items, each of which has a meaning of its own, and a body in parentheses is an item of
the body around it. A string is read exactly if a body with a closing parenthesis behind it follows
the opening one. The reader stops just behind that parenthesis, and the string is the meaning of the
body.

The reader knows no bodies. It first counts parentheses, to find the end, and then decodes what
stands before it unit by unit. Counting passes over a whole body, in front of whatever follows, and
comes back to the depth it started from; decoding does so if no line feed and no octal digit
follows, which could belong to the last item. In the other direction, wherever the count comes to an
end there is a body in front: this is an induction on the bytes that are left, item by item, since a
body in parentheses is followed by the rest of the body around it.

## Main definitions

* `Literal.Denotes`: a body, and the bytes that it stands for.

## Main results

* `Literal.Denotes.literalLength?_append`, `Literal.Denotes.units_append`: counting and decoding
  pass over a body.
* `Literal.finds`: a parenthesis that closes has a body before it.
* `scanFrom_literal`: a literal string is read by the grammar of bodies, and by nothing else.
-/

namespace ContentStream

namespace Literal

/-! ### Bodies -/

/-- The **letters of escapes**, each with the byte that it stands for behind a backslash. -/
def letters : List (UInt8 × UInt8) :=
  [(byte 'n', byte '\n'), (byte 'r', byte '\r'), (byte 't', byte '\t'), (byte 'b', 0x08),
    (byte 'f', 0x0C), (byte '(', byte '('), (byte ')', byte ')'), (byte '\\', byte '\\')]

/-- The number written by **octal digits**. -/
def octalValue (digits : Bytes) : Nat :=
  digits.foldl (fun v d => v * 8 + (d - byte '0').toNat) 0

/-- A **carriage return** in front of some bytes, together with the line feed after it if there is
one. -/
inductive Return : (line rest : Bytes) → Prop
  | pair (rest : Bytes) : Return [byte '\r', byte '\n'] rest
  | single {rest : Bytes} (h : rest.head? ≠ some (byte '\n')) : Return [byte '\r'] rest

/-- Octal digits in front of some bytes: **as many as there are**, up to three. -/
structure OctalRun (digits rest : Bytes) : Prop where
  ne_nil : digits ≠ []
  length_le : digits.length ≤ 3
  octal : ∀ d ∈ digits, isOctalDigit d = true
  maximal : digits.length = 3 ∨ ∀ d ∈ rest.head?, isOctalDigit d = false

/-- A **body of a literal string** denotes some bytes, item by item. -/
inductive Denotes : (body meaning : Bytes) → Prop
  | nil : Denotes [] []
  /-- A byte that stands for itself. -/
  | plain {b : UInt8} {body meaning : Bytes}
      (hb : b ∉ [byte '(', byte ')', byte '\\', byte '\r']) (h : Denotes body meaning) :
      Denotes (b :: body) (b :: meaning)
  /-- A body in parentheses, which stand for themselves. -/
  | nested {inner innerMeaning body meaning : Bytes} (hinner : Denotes inner innerMeaning)
      (h : Denotes body meaning) :
      Denotes (byte '(' :: (inner ++ byte ')' :: body))
        (byte '(' :: (innerMeaning ++ byte ')' :: meaning))
  /-- A line end, which reads as a line feed. -/
  | lineEnd {line body meaning : Bytes} (hline : Return line body) (h : Denotes body meaning) :
      Denotes (line ++ body) (byte '\n' :: meaning)
  | letter {c v : UInt8} {body meaning : Bytes} (hc : (c, v) ∈ letters)
      (h : Denotes body meaning) : Denotes (byte '\\' :: c :: body) (v :: meaning)
  /-- A line feed behind a backslash, which stands for nothing. -/
  | continueFeed {body meaning : Bytes} (h : Denotes body meaning) :
      Denotes (byte '\\' :: byte '\n' :: body) meaning
  /-- A carriage return behind a backslash, which stands for nothing. -/
  | continueReturn {line body meaning : Bytes} (hline : Return line body)
      (h : Denotes body meaning) : Denotes (byte '\\' :: (line ++ body)) meaning
  /-- Octal digits, of whose number the low eight bits count. -/
  | octal {digits body meaning : Bytes} (hdigits : OctalRun digits body)
      (h : Denotes body meaning) :
      Denotes (byte '\\' :: (digits ++ body)) (UInt8.ofNat (octalValue digits) :: meaning)
  /-- Any other byte behind a backslash, which stands for itself. -/
  | other {c : UInt8} {body meaning : Bytes} (hletter : c ∉ letters.map Prod.fst)
      (hline : isLineEnd c = false) (hdigit : isOctalDigit c = false) (h : Denotes body meaning) :
      Denotes (byte '\\' :: c :: body) (c :: meaning)

/-! ### Counting parentheses -/

/-- Bytes that are no parenthesis and no backslash have no meaning for the end of a literal
string. -/
theorem literalLength?_append_of_plain {a : Bytes}
    (ha : ∀ b ∈ a, b ∉ [byte '(', byte ')', byte '\\']) (depth : Nat) (rest : Bytes) :
    literalLength? depth (a ++ rest) = (literalLength? depth rest).map (· + a.length) := by
  induction a with
  | nil => simp
  | cons b a ih =>
      have hb := ha b List.mem_cons_self
      simp only [List.mem_cons, List.not_mem_nil, or_false, not_or] at hb
      obtain ⟨hopen, hclose, hescape⟩ := hb
      rw [List.cons_append, literalLength?.eq_def]
      simp only [beq_false_of_ne hopen, beq_false_of_ne hclose, beq_false_of_ne hescape,
        Bool.false_eq_true, if_false, ih fun c hc => ha c (List.mem_cons_of_mem b hc),
        Option.map_map, List.length_cons]
      rfl

/-- Behind a backslash, one byte is passed over. -/
theorem literalLength?_escape (depth : Nat) (c : UInt8) (rest : Bytes) :
    literalLength? depth (byte '\\' :: c :: rest) = (literalLength? depth rest).map (· + 2) := by
  rw [literalLength?.eq_def]
  rfl

/-- An opening parenthesis is counted up, and is itself part of the string. -/
theorem literalLength?_open (depth : Nat) (rest : Bytes) :
    literalLength? depth (byte '(' :: rest) =
      (literalLength? (depth + 1) rest).map (· + 1) := by
  rw [literalLength?.eq_def]
  rfl

/-- A closing one is counted down, as long as one is open. -/
theorem literalLength?_close (depth : Nat) (rest : Bytes) :
    literalLength? (depth + 1) (byte ')' :: rest) = (literalLength? depth rest).map (· + 1) := by
  rw [literalLength?.eq_def]
  rfl

/-- Where none is open, a closing parenthesis ends the string. -/
theorem literalLength?_end (rest : Bytes) : literalLength? 0 (byte ')' :: rest) = some 0 := by
  rw [literalLength?.eq_def]
  rfl

/-- Lengths that are added one after the other are added together. -/
theorem map_add_add {x : Option Nat} {k m n : Nat} (h : k = m + n) :
    (x.map (· + m)).map (· + n) = x.map (· + k) := by
  rw [Option.map_map, h]
  congr 1
  funext i
  exact Nat.add_assoc i m n

/-- Octal digits are plain for the count. -/
theorem plain_of_isOctalDigit {b : UInt8} (hb : isOctalDigit b = true) :
    b ∉ [byte '(', byte ')', byte '\\'] := by
  intro hmem
  simp only [List.mem_cons, List.not_mem_nil, or_false] at hmem
  obtain rfl | rfl | rfl := hmem <;> revert hb <;> decide

/-- Counting passes over a body, at whatever depth, and whatever follows. The induction is on the
body, item by item; parentheses within it come back to the depth they started from. -/
theorem Denotes.literalLength?_append {body meaning : Bytes} (h : Denotes body meaning)
    (depth : Nat) (rest : Bytes) :
    literalLength? depth (body ++ rest) = (literalLength? depth rest).map (· + body.length) := by
  induction h generalizing depth rest with
  | nil => simp
  | @plain b body meaning hb h ih =>
      have hplain : ∀ c ∈ [b], c ∉ [byte '(', byte ')', byte '\\'] := by
        simp only [List.mem_cons, List.not_mem_nil, or_false, not_or, forall_eq] at hb ⊢
        exact ⟨hb.1, hb.2.1, hb.2.2.1⟩
      have hstep := literalLength?_append_of_plain hplain depth (body ++ rest)
      rw [List.singleton_append] at hstep
      rw [List.cons_append, hstep, ih, map_add_add rfl]
      rfl
  | @nested inner innerMeaning body meaning hinner h ihinner ih =>
      rw [List.cons_append, List.append_assoc, literalLength?_open, ihinner, List.cons_append,
        literalLength?_close, ih, map_add_add rfl, map_add_add rfl]
      refine map_add_add ?_
      simp only [List.length_cons, List.length_append]
      omega
  | @lineEnd line body meaning hline h ih =>
      have hplain : ∀ c ∈ line, c ∉ [byte '(', byte ')', byte '\\'] := by
        cases hline with
        | pair =>
            exact List.forall_mem_cons.mpr ⟨by decide, List.forall_mem_singleton.mpr (by decide)⟩
        | single hfeed => exact List.forall_mem_singleton.mpr (by decide)
      rw [List.append_assoc, literalLength?_append_of_plain hplain, ih]
      exact map_add_add (by rw [List.length_append, Nat.add_comm])
  | letter hc h ih | continueFeed h ih | other hletter hline hdigit h ih =>
      rw [List.cons_append, List.cons_append, literalLength?_escape, ih, map_add_add rfl]
      rfl
  | @continueReturn line body meaning hline h ih =>
      cases hline with
      | single hfeed =>
          rw [List.cons_append, List.cons_append, List.nil_append, List.cons_append,
            literalLength?_escape, ih, map_add_add rfl]
          rfl
      | pair =>
          have hstep := literalLength?_append_of_plain (a := [byte '\n'])
            (List.forall_mem_singleton.mpr (by decide)) depth (body ++ rest)
          rw [List.singleton_append] at hstep
          rw [List.cons_append, List.cons_append, List.cons_append, List.cons_append,
            List.cons_append, List.nil_append, literalLength?_escape, hstep, ih, map_add_add rfl,
            map_add_add rfl]
          rfl
  | @octal digits body meaning hdigits h ih =>
      obtain ⟨d, ds, rfl⟩ := List.exists_cons_of_ne_nil hdigits.ne_nil
      have hplain : ∀ c ∈ ds, c ∉ [byte '(', byte ')', byte '\\'] :=
        fun c hc => plain_of_isOctalDigit (hdigits.octal c (List.mem_cons_of_mem d hc))
      rw [List.cons_append, List.cons_append, List.cons_append, List.append_assoc,
        literalLength?_escape, literalLength?_append_of_plain hplain, ih, map_add_add rfl]
      refine map_add_add ?_
      simp only [List.length_cons, List.length_append]
      omega

/-! ### Decoding -/

/-- Decoding takes an escape behind a backslash. -/
theorem literalUnit_backslash (bs : Bytes) : literalUnit (byte '\\') bs = escape bs :=
  if_pos (by decide)

/-- It makes a line feed of a carriage return, with the line feed after it if there is one. -/
theorem literalUnit_return (bs : Bytes) :
    literalUnit (byte '\r') bs = ([byte '\n'], lineFeed bs) := by
  rw [literalUnit, if_neg (by decide), if_pos (by decide)]

/-- Every other byte stands for itself. -/
theorem literalUnit_of_ne {b : UInt8} (hescape : b ≠ byte '\\') (hreturn : b ≠ byte '\r')
    (bs : Bytes) : literalUnit b bs = ([b], 0) := by
  rw [literalUnit, beq_false_of_ne hescape, beq_false_of_ne hreturn]
  rfl

/-- A letter of an escape stands for its byte. -/
theorem escape_letter {c v : UInt8} (hc : (c, v) ∈ letters) (rest : Bytes) :
    escape (c :: rest) = ([v], 1) := by
  simp only [letters, List.mem_cons, List.not_mem_nil, or_false, Prod.mk.injEq] at hc
  obtain ⟨rfl, rfl⟩ | ⟨rfl, rfl⟩ | ⟨rfl, rfl⟩ | ⟨rfl, rfl⟩ | ⟨rfl, rfl⟩ | ⟨rfl, rfl⟩ | ⟨rfl, rfl⟩ |
    ⟨rfl, rfl⟩ := hc
  all_goals rfl

/-- An escaped line feed stands for nothing. -/
theorem escape_feed (rest : Bytes) : escape (byte '\n' :: rest) = ([], 1) :=
  rfl

/-- So does an escaped carriage return, with the line feed after it. -/
theorem escape_return (rest : Bytes) : escape (byte '\r' :: rest) = ([], 1 + lineFeed rest) :=
  rfl

/-- A byte that begins none of the escapes with letters and none with a line end begins one with
octal digits, or stands for itself. -/
theorem escape_eq {c : UInt8} (hletter : c ∉ letters.map Prod.fst) (hline : isLineEnd c = false)
    (rest : Bytes) :
    escape (c :: rest) =
      if isOctalDigit c then
        let digits := c :: (rest.take 2).takeWhile isOctalDigit
        ([digits.foldl (fun v d => v * 8 + (d - byte '0')) 0], digits.length)
      else ([c], 1) := by
  simp only [letters, List.map_cons, List.map_nil, List.mem_cons, List.not_mem_nil, or_false,
    not_or] at hletter
  obtain ⟨hn, hr, ht, hb, hf, -⟩ := hletter
  simp only [isLineEnd, Bool.or_eq_false_iff] at hline
  simp only [escape, beq_false_of_ne hn, beq_false_of_ne hr, beq_false_of_ne ht,
    beq_false_of_ne hb, beq_false_of_ne hf, hline.1, hline.2, Bool.false_eq_true, if_false]

/-- No octal digit is the letter of an escape or a line end, which is why the cases of an escape
exclude each other. -/
theorem not_mem_letters_of_isOctalDigit {d : UInt8} (hd : isOctalDigit d = true) :
    d ∉ letters.map Prod.fst ∧ isLineEnd d = false := by
  constructor
  · intro hmem
    simp only [letters, List.map_cons, List.map_nil, List.mem_cons, List.not_mem_nil,
      or_false] at hmem
    obtain rfl | rfl | rfl | rfl | rfl | rfl | rfl | rfl := hmem <;> revert hd <;> decide
  · refine Bool.eq_false_iff.mpr fun hline => ?_
    simp only [isLineEnd, Bool.or_eq_true, beq_iff_eq] at hline
    obtain rfl | rfl := hline <;> revert hd <;> decide

/-- The low eight bits of a number are what the digits add up to as bytes. -/
theorem foldl_octal (digits : Bytes) (v : Nat) :
    digits.foldl (fun (v : UInt8) d => v * 8 + (d - byte '0')) (UInt8.ofNat v) =
      UInt8.ofNat (digits.foldl (fun v d => v * 8 + (d - byte '0').toNat) v) := by
  induction digits generalizing v with
  | nil => rfl
  | cons d ds ih =>
      rw [List.foldl_cons, List.foldl_cons, ← ih, UInt8.ofNat_add, UInt8.ofNat_mul,
        UInt8.ofNat_toNat]
      rfl

/-- A run of octal digits stands for the byte that they write, cut off to eight bits. The look-ahead
takes all of the run, since it is as long as can be. -/
theorem escape_octalRun {digits rest : Bytes} (h : OctalRun digits rest) :
    escape (digits ++ rest) = ([UInt8.ofNat (octalValue digits)], digits.length) := by
  obtain ⟨d, ds, rfl⟩ := List.exists_cons_of_ne_nil h.ne_nil
  have hd := h.octal d List.mem_cons_self
  have hds : ∀ c ∈ ds, isOctalDigit c = true := fun c hc => h.octal c (List.mem_cons_of_mem d hc)
  have hlength := h.length_le
  have hmaximal := h.maximal
  rw [List.length_cons] at hlength hmaximal
  -- the look-ahead of two bytes ends with the digits, or the byte after them is none
  have htake : ((ds ++ rest).take 2).takeWhile isOctalDigit = ds := by
    rw [List.take_append, List.take_of_length_le (by omega)]
    refine takeWhile_append_of_all hds ?_
    obtain htwo | hnext := hmaximal
    · rw [show 2 - ds.length = 0 by omega, List.take_zero]
      rfl
    · cases rest with
      | nil => simp
      | cons c rest =>
          cases 2 - ds.length with
          | zero => rfl
          | succ n =>
              rw [List.take_succ_cons, List.takeWhile_cons_of_neg (by simp [hnext c rfl])]
  obtain ⟨hletter, hline⟩ := not_mem_letters_of_isOctalDigit hd
  rw [List.cons_append, escape_eq hletter hline, if_pos hd, htake]
  exact Prod.ext (congrArg (fun x => [x]) (foldl_octal (d :: ds) 0)) rfl

/-- Where no line feed comes first, none is taken. -/
theorem lineFeed_eq_zero {bs : Bytes} (h : bs.head? ≠ some (byte '\n')) : lineFeed bs = 0 := by
  rw [lineFeed, beq_false_of_ne h]
  rfl

/-- What is told by the first byte of a body holds in front of a closing parenthesis too. -/
theorem head?_append_of_close {p : UInt8 → Prop} {body rest : Bytes} (hbody : ∀ b ∈ body.head?, p b)
    (hclose : p (byte ')')) (hrest : ∀ b ∈ rest.head?, b = byte ')') :
    ∀ b ∈ (body ++ rest).head?, p b := by
  cases body with
  | nil => exact fun b hb => hrest b hb ▸ hclose
  | cons c body => exact hbody

/-- Decoding passes over a body that is followed by a closing parenthesis or by nothing. Line feeds
and octal digits at its end cannot be taken from elsewhere then. -/
theorem Denotes.units_append {body meaning : Bytes} (h : Denotes body meaning) {rest : Bytes}
    (hrest : ∀ b ∈ rest.head?, b = byte ')') :
    units literalUnit (body ++ rest) = meaning ++ units literalUnit rest := by
  have hfeed {body rest : Bytes} (hbody : body.head? ≠ some (byte '\n'))
      (hrest : ∀ b ∈ rest.head?, b = byte ')') : (body ++ rest).head? ≠ some (byte '\n') :=
    fun hhead => head?_append_of_close (p := (· ≠ byte '\n'))
      (fun b hb hfeed => hbody (hfeed ▸ hb)) (by decide) hrest _ hhead rfl
  induction h generalizing rest with
  | nil => rfl
  | @plain b body meaning hb h ih =>
      simp only [List.mem_cons, List.not_mem_nil, or_false, not_or] at hb
      rw [List.cons_append, units_cons, literalUnit_of_ne hb.2.2.1 hb.2.2.2]
      exact congrArg (b :: ·) (ih hrest)
  | @nested inner innerMeaning body meaning hinner h ihinner ih =>
      have hclose : ∀ b ∈ (byte ')' :: (body ++ rest)).head?, b = byte ')' := by simp
      have hinner := ihinner hclose
      rw [units_cons literalUnit (byte ')'), literalUnit_of_ne (by decide) (by decide),
        List.drop_zero, ih hrest] at hinner
      simp only [List.cons_append, List.append_assoc]
      rw [units_cons, literalUnit_of_ne (by decide) (by decide), List.drop_zero, hinner]
      rfl
  | @lineEnd line body meaning hline h ih =>
      cases hline with
      | pair =>
          rw [List.append_assoc, List.cons_append, units_cons, literalUnit_return]
          exact congrArg (byte '\n' :: ·) (ih hrest)
      | single hbody =>
          rw [List.append_assoc, List.cons_append, List.nil_append, units_cons, literalUnit_return,
            lineFeed_eq_zero (hfeed hbody hrest)]
          exact congrArg (byte '\n' :: ·) (ih hrest)
  | @letter c v body meaning hc h ih =>
      rw [List.cons_append, List.cons_append, units_cons, literalUnit_backslash, escape_letter hc]
      exact congrArg (v :: ·) (ih hrest)
  | @continueFeed body meaning h ih =>
      rw [List.cons_append, List.cons_append, units_cons, literalUnit_backslash, escape_feed]
      exact ih hrest
  | @continueReturn line body meaning hline h ih =>
      cases hline with
      | pair =>
          rw [List.cons_append, List.append_assoc, List.cons_append, units_cons,
            literalUnit_backslash, escape_return]
          exact ih hrest
      | single hbody =>
          rw [List.cons_append, List.append_assoc, List.cons_append, List.nil_append, units_cons,
            literalUnit_backslash, escape_return, lineFeed_eq_zero (hfeed hbody hrest)]
          exact ih hrest
  | @octal digits body meaning hdigits h ih =>
      have hrun : OctalRun digits (body ++ rest) :=
        { hdigits with
          maximal := hdigits.maximal.imp_right fun hbody =>
            head?_append_of_close hbody (by decide) hrest }
      rw [List.cons_append, List.append_assoc, units_cons, literalUnit_backslash,
        escape_octalRun hrun, List.drop_left, ih hrest]
      rfl
  | @other c body meaning hletter hline hdigit h ih =>
      rw [List.cons_append, List.cons_append, units_cons, literalUnit_backslash,
        escape_eq hletter hline, if_neg (by simp [hdigit])]
      exact congrArg (c :: ·) (ih hrest)

/-- What a body decodes to. -/
theorem Denotes.decodeLiteral {body meaning : Bytes} (h : Denotes body meaning) :
    decodeLiteral body = meaning := by
  have hnothing : ∀ b ∈ ([] : Bytes).head?, b = byte ')' := by simp
  have happend := h.units_append hnothing
  rw [List.append_nil] at happend
  exact happend.trans (List.append_nil meaning)

/-! ### Finding the body -/

/-- An octal digit and those after it, as many as the look-ahead takes, are a run. There may be one,
two or three of them. -/
theorem exists_octalRun {d : UInt8} (hd : isOctalDigit d = true) (bs : Bytes) :
    ∃ ds rest, bs = ds ++ rest ∧ OctalRun (d :: ds) rest := by
  rcases bs with _ | ⟨e, bs⟩
  · exact ⟨[], [], rfl, by simp, by simp, by simpa using hd, .inr (by simp)⟩
  by_cases he : isOctalDigit e = true
  · rcases bs with _ | ⟨f, bs⟩
    · exact ⟨[e], [], rfl, by simp, by simp, by simp [hd, he], .inr (by simp)⟩
    by_cases hf : isOctalDigit f = true
    · exact ⟨[e, f], bs, rfl, by simp, by simp, by simp [hd, he, hf], .inl rfl⟩
    · exact ⟨[e], f :: bs, rfl, by simp, by simp, by simp [hd, he], .inr (by simpa using hf)⟩
  · exact ⟨[], e :: bs, rfl, by simp, by simp, by simpa using hd, .inr (by simpa using he)⟩

/-- What is told by the first byte of what follows is told by that of the body there. -/
theorem head?_body {p : UInt8 → Prop} {body rest : Bytes}
    (h : ∀ b ∈ (body ++ byte ')' :: rest).head?, p b) : ∀ b ∈ body.head?, p b := by
  cases body with
  | nil => simp
  | cons c body => exact h

/-- Bytes that begin with **a body and a closing parenthesis**. -/
def Closes (a : Bytes) : Prop :=
  ∃ body meaning rest, Denotes body meaning ∧ a = body ++ byte ')' :: rest

/-- An item in front of a body makes a body. -/
theorem Closes.append (item : Bytes) {a : Bytes} (h : Closes a)
    (hitem : ∀ body meaning rest, a = body ++ byte ')' :: rest → Denotes body meaning →
      ∃ meaning', Denotes (item ++ body) meaning') : Closes (item ++ a) := by
  obtain ⟨body, meaning, rest, hbody, rfl⟩ := h
  obtain ⟨meaning', hdenotes⟩ := hitem body meaning rest rfl hbody
  exact ⟨item ++ body, meaning', rest, hdenotes, (List.append_assoc _ _ _).symm⟩

/-- Counting comes to an end in some bytes **and finds a body** there. -/
def Finds (depth : Nat) (a : Bytes) : Prop :=
  (literalLength? depth a).isSome = true → Closes a

section Items

variable {depth : Nat} {bs : Bytes}

/-- Behind a carriage return, the line feed is part of the same item if there is one. If there is
none, the body behind cannot begin with one, for that would be found here. -/
theorem finds_return (first : Bytes)
    (hfirst : ∀ line body meaning, Return line body → Denotes body meaning →
      ∃ meaning', Denotes (first ++ (line ++ body)) meaning')
    (ih : ∀ a : Bytes, a.length ≤ bs.length → Finds depth a)
    (h : (literalLength? depth bs).isSome = true) : Closes (first ++ byte '\r' :: bs) := by
  by_cases hfeed : bs.head? = some (byte '\n')
  · obtain ⟨bs, rfl⟩ := List.head?_eq_some_iff.mp hfeed
    have hplain := literalLength?_append_of_plain (a := [byte '\n'])
      (List.forall_mem_singleton.mpr (by decide)) depth bs
    rw [List.singleton_append] at hplain
    rw [hplain, Option.isSome_map] at h
    have hclosed := (ih bs (Nat.le_succ _) h).append (first ++ [byte '\r', byte '\n'])
      fun body meaning rest _ hbody => by
        rw [List.append_assoc]
        exact hfirst _ body meaning (.pair body) hbody
    rwa [List.append_assoc] at hclosed
  · have hclosed := (ih bs (Nat.le_refl _) h).append (first ++ [byte '\r'])
      fun body meaning rest hbs hbody => by
        have hhead : ∀ b ∈ bs.head?, b ≠ byte '\n' := fun b hb heq => hfeed (heq ▸ hb)
        rw [hbs] at hhead
        rw [List.append_assoc]
        exact hfirst _ body meaning (.single fun heq => head?_body hhead _ heq rfl) hbody
    rwa [List.append_assoc] at hclosed

/-- Behind a backslash, any byte is the beginning of an item. There is a case for each kind of
escape, and those that no grammar knows stand for the byte. -/
theorem finds_escape {c : UInt8} (ih : ∀ a : Bytes, a.length ≤ bs.length → Finds depth a)
    (h : (literalLength? depth bs).isSome = true) : Closes (byte '\\' :: c :: bs) := by
  by_cases hletter : c ∈ letters.map Prod.fst
  · obtain ⟨⟨c, v⟩, hc, rfl⟩ := List.mem_map.mp hletter
    exact (ih bs (Nat.le_refl _) h).append [byte '\\', c]
      fun body meaning rest _ hbody => ⟨v :: meaning, .letter hc hbody⟩
  by_cases hfeed : c = byte '\n'
  · subst hfeed
    exact (ih bs (Nat.le_refl _) h).append [byte '\\', byte '\n']
      fun body meaning rest _ hbody => ⟨meaning, .continueFeed hbody⟩
  by_cases hreturn : c = byte '\r'
  · subst hreturn
    refine finds_return [byte '\\'] (fun line body meaning hline hbody => ⟨meaning, ?_⟩) ih h
    have hitem := Denotes.continueReturn hline hbody
    exact hitem
  by_cases hoctal : isOctalDigit c = true
  · obtain ⟨ds, rest, rfl, hrun⟩ := exists_octalRun hoctal bs
    have hplain : ∀ d ∈ ds, d ∉ [byte '(', byte ')', byte '\\'] :=
      fun d hd => plain_of_isOctalDigit (hrun.octal d (List.mem_cons_of_mem c hd))
    rw [literalLength?_append_of_plain hplain, Option.isSome_map] at h
    refine (ih rest (by simp) h).append (byte '\\' :: c :: ds)
      fun body meaning rest' hrest hbody => ?_
    have hbodyRun : OctalRun (c :: ds) body :=
      { hrun with maximal := hrun.maximal.imp_right fun hnext => head?_body (hrest ▸ hnext) }
    exact ⟨_, .octal hbodyRun hbody⟩
  · have hline : isLineEnd c = false := by
      rw [isLineEnd, beq_false_of_ne hfeed, beq_false_of_ne hreturn]
      rfl
    exact (ih bs (Nat.le_refl _) h).append [byte '\\', c] fun body meaning rest _ hbody =>
      ⟨c :: meaning, .other hletter hline (Bool.eq_false_iff.mpr hoctal) hbody⟩

/-- Behind an opening parenthesis, the body up to the one that closes it is part of the same
item. -/
theorem finds_open (ih : ∀ depth, ∀ a : Bytes, a.length ≤ bs.length → Finds depth a)
    (h : (literalLength? (depth + 1) bs).isSome = true) : Closes (byte '(' :: bs) := by
  obtain ⟨inner, innerMeaning, rest, hinner, rfl⟩ := ih (depth + 1) bs (Nat.le_refl _) h
  rw [hinner.literalLength?_append, literalLength?_close, Option.isSome_map, Option.isSome_map] at h
  have hrest : rest.length ≤ (inner ++ byte ')' :: rest).length := by
    rw [List.length_append, List.length_cons]
    omega
  have hclosed := (ih depth rest hrest h).append (byte '(' :: (inner ++ [byte ')']))
    fun body meaning _ _ hbody => by
      rw [List.cons_append, List.append_assoc]
      exact ⟨_, .nested hinner hbody⟩
  rwa [List.cons_append, List.append_assoc] at hclosed

end Items

/-- Counting that comes to an end has found a body and a closing parenthesis. The induction is on
the number of bytes that are left, since an item may take several of them. -/
theorem finds (depth : Nat) (a : Bytes) : Finds depth a := by
  induction hlength : a.length using Nat.strongRecOn generalizing a depth with
  | ind length ih =>
      intro h
      rcases a with _ | ⟨b, bs⟩
      · cases h
      have ih' (depth : Nat) (a : Bytes) (ha : a.length ≤ bs.length) : Finds depth a :=
        ih a.length (by rw [← hlength, List.length_cons]; omega) depth a rfl
      by_cases hescape : b = byte '\\'
      · subst hescape
        rcases bs with _ | ⟨c, cs⟩
        · cases h
        rw [literalLength?_escape, Option.isSome_map] at h
        exact finds_escape (fun a ha => ih' depth a (Nat.le_succ_of_le ha)) h
      by_cases hopen : b = byte '('
      · subst hopen
        rw [literalLength?_open, Option.isSome_map] at h
        exact finds_open ih' h
      by_cases hclose : b = byte ')'
      · exact ⟨[], [], bs, .nil, by rw [hclose]; rfl⟩
      have hplain := literalLength?_append_of_plain (a := [b]) (by simp [hescape, hopen, hclose])
        depth bs
      rw [List.singleton_append] at hplain
      rw [hplain, Option.isSome_map] at h
      by_cases hreturn : b = byte '\r'
      · subst hreturn
        refine finds_return [] (fun line body meaning hline hbody => ⟨byte '\n' :: meaning, ?_⟩)
          (ih' depth) h
        have hitem := Denotes.lineEnd hline hbody
        exact hitem
      · exact (ih' depth bs (Nat.le_refl _) h).append [b] fun body meaning rest _ hbody =>
          ⟨b :: meaning, .plain (by simp [hescape, hopen, hclose, hreturn]) hbody⟩

end Literal

/-! ### Reading a literal string -/

open Literal

/-- A body with a closing parenthesis behind it is read. -/
theorem Literal.Denotes.readLiteral {body meaning : Bytes} (h : Denotes body meaning)
    (rest : Bytes) :
    Lexeme.readLiteral (body ++ byte ')' :: rest) = .ok (.string meaning, body.length + 1) := by
  have hlength : literalLength? 0 (body ++ byte ')' :: rest) = some body.length := by
    rw [h.literalLength?_append, literalLength?_end, Option.map_some, Nat.zero_add]
  simp only [Lexeme.readLiteral, hlength, List.take_left, h.decodeLiteral]

/-- Where no body with a closing parenthesis follows, the string is not terminated. -/
theorem readLiteral_of_not_closes {bs : Bytes} (h : ¬ Closes bs) :
    Lexeme.readLiteral bs = .error (0, .unterminatedString) := by
  have hlength : literalLength? 0 bs = none :=
    Option.not_isSome_iff_eq_none.mp fun hsome => h (finds 0 bs hsome)
  rw [Lexeme.readLiteral, hlength]

/-- A scan that comes to a body in parentheses finds the string that it denotes, and goes on behind
the closing parenthesis. -/
theorem Literal.Denotes.scanFrom {body meaning : Bytes} (h : Denotes body meaning) (strict : Bool)
    (position : Nat) (rest : Bytes) :
    scanFrom strict position 0 (byte '(' :: (body ++ byte ')' :: rest)) =
      (scanFrom strict (position + body.length + 2) 0 rest).cons ⟨position, .string meaning⟩ := by
  have hreads : Lexeme.Reads strict (byte '(' :: (body ++ [byte ')'])) rest (.string meaning) := by
    refine ⟨_, _, rfl, by decide, by decide, ?_⟩
    rw [Lexeme.read, if_pos (by decide), List.append_assoc, List.singleton_append, h.readLiteral,
      List.length_append]
    rfl
  have hscan := hreads.scanFrom_append position
  rw [List.cons_append, List.append_assoc, List.singleton_append] at hscan
  rw [hscan, List.length_cons, List.length_append, List.length_singleton, ← Nat.add_assoc]
  rfl

/-- **Literal strings are read by their grammar and by nothing else.** Behind an opening parenthesis
a string is read exactly if a body with a closing parenthesis follows. The scan goes on just behind
that one, and the string is what the body denotes, which is what it adds to the arena. If no body
with a closing parenthesis follows, and only then, the scan stops there, with a flaw at the opening
parenthesis. -/
theorem scanFrom_literal (strict : Bool) (position : Nat) (bs : Bytes) :
    (∀ lexeme n, Lexeme.read strict (byte '(') bs = .ok (lexeme, n) ↔
      ∃ body meaning rest, Denotes body meaning ∧ bs = body ++ byte ')' :: rest ∧
        lexeme = .string meaning ∧ n = body.length + 1) ∧
    (∀ body meaning rest, Denotes body meaning → bs = body ++ byte ')' :: rest →
      let s := scanFrom strict position 0 (byte '(' :: bs)
      let s' := scanFrom strict (position + body.length + 2) 0 rest
      s = s'.cons ⟨position, .string meaning⟩ ∧ s.arena = meaning ++ s'.arena) ∧
    (scanFrom strict position 0 (byte '(' :: bs) = ⟨[], .flawed position .unterminatedString⟩ ↔
      ¬ ∃ body meaning rest, Denotes body meaning ∧ bs = body ++ byte ')' :: rest) ∧
    LexicalFlaw.unterminatedString.message = "unterminated string" := by
  have hread : Lexeme.read strict (byte '(') bs = Lexeme.readLiteral bs := if_pos (by decide)
  have hnone (h : ¬ Closes bs) : scanFrom strict position 0 (byte '(' :: bs) =
      ⟨[], .flawed position .unterminatedString⟩ := by
    rw [scanFrom, if_neg (by decide), if_neg (by decide), hread, readLiteral_of_not_closes h]
    rfl
  refine ⟨fun lexeme n => ⟨fun h => ?_, ?_⟩, ?_, ⟨fun h => ?_, hnone⟩, rfl⟩
  · rw [hread] at h
    by_cases hcloses : Closes bs
    · obtain ⟨body, meaning, rest, hbody, rfl⟩ := hcloses
      rw [hbody.readLiteral] at h
      obtain ⟨rfl, rfl⟩ := Prod.mk.inj (Except.ok.inj h)
      exact ⟨body, meaning, rest, hbody, rfl, rfl, rfl⟩
    · rw [readLiteral_of_not_closes hcloses] at h
      cases h
  · rintro ⟨body, meaning, rest, hbody, rfl, rfl, rfl⟩
    rw [hread, hbody.readLiteral]
  · rintro body meaning rest hbody rfl
    have hscan := hbody.scanFrom strict position rest
    exact ⟨hscan, by rw [hscan]; exact List.flatMap_cons⟩
  · rintro ⟨body, meaning, rest, hbody, rfl⟩
    rw [hbody.scanFrom strict position rest] at h
    cases h

/-- Of four octal digits three are a run, and a carriage return before the closing parenthesis is a
line end. -/
theorem scanFrom_literal_of_run :
    let body : Bytes := [byte '(', byte 'a', byte ')', byte '\\', byte '0', byte '5', byte '3',
      byte '4', byte '\r']
    let meaning : Bytes := [byte '(', byte 'a', byte ')', byte '+', byte '4', byte '\n']
    Denotes body meaning ∧
    scanFrom false 7 0 (byte '(' :: (body ++ byte ')' :: [byte 'q'])) =
      (scanFrom false 18 0 [byte 'q']).cons ⟨7, .string meaning⟩ := by
  intro body meaning
  have hline : Denotes [byte '\r'] [byte '\n'] := .lineEnd (.single (by decide)) .nil
  have hdigit : Denotes [byte '4', byte '\r'] [byte '4', byte '\n'] := .plain (by decide) hline
  have hrun : OctalRun [byte '0', byte '5', byte '3'] [byte '4', byte '\r'] :=
    ⟨by decide, by decide, List.all_eq_true.mp (by decide), .inl rfl⟩
  have hinner : Denotes [byte 'a'] [byte 'a'] := .plain (by decide) .nil
  have hbody : Denotes body meaning := .nested hinner (.octal hrun hdigit)
  obtain ⟨hscan, -⟩ := (scanFrom_literal false 7 _).2.1 body meaning [byte 'q'] hbody rfl
  exact ⟨hbody, hscan⟩

end ContentStream

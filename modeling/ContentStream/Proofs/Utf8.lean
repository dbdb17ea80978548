import ContentStream.Proofs.Written
import Mathlib.Data.List.Forall2

/-!
# Text and bytes

Reading bytes as text never fails, but it can lose something: bytes that form no character come out
as replacement characters. What is lost, and what is not, shows when the text is written as bytes
again.

Nothing is lost of a text: written as bytes and read again, it is itself, whatever bytes follow. Of
bytes, the ASCII characters are kept, each in its place, and what stands between two of them stays
between them and has no ASCII character in it afterwards either.

## Main definitions

* `Utf8.Promised`: bytes that keep the promise of a lead byte, and the character they form.
* `Utf8.rewrite`: bytes read as text and written again.

## Main results

* `Utf8.decode_encode_append`: reading undoes writing.
* `Utf8.rewrite_cons`, `Utf8.rewrite_cons_of_not_ascii`: what becomes of bytes that are read as text
  and written again.
* `Utf8.rewrite_eq_iff_of_ascii`: words of ASCII characters come of nothing else.
-/

namespace ContentStream

namespace Utf8

/-! ### Writing -/

/-- Bytes are listed from where the loop has come to, behind those that it has read. The induction
is on how many are left. -/
theorem toList_loop_eq (bytes : ByteArray) (i : Nat) (read : Bytes) :
    ByteArray.toList.loop bytes i read = read.reverse ++ bytes.data.toList.drop i := by
  have hlength : bytes.data.toList.length = bytes.size := rfl
  induction h : bytes.size - i generalizing i read with
  | zero =>
      rw [ByteArray.toList.loop, if_neg (by omega), List.drop_eq_nil_of_le (by omega),
        List.append_nil]
  | succ n ih =>
      have hi : i < bytes.size := by omega
      rw [ByteArray.toList.loop, if_pos hi, ih (i + 1) _ (by omega), List.reverse_cons,
        List.append_assoc, List.drop_eq_getElem_cons (i := i) (by omega)]
      simp [ByteArray.get!, hi]

/-- A list of the bytes of an array has them in order. -/
theorem toList_eq (bytes : ByteArray) : bytes.toList = bytes.data.toList := by
  rw [ByteArray.toList, toList_loop_eq]
  rfl

/-- The bytes of a text are those of its characters. -/
theorem encode_eq (text : String) : encode text = text.toList.flatMap String.utf8EncodeChar := by
  have hbytes : text.toUTF8 = text.toList.utf8Encode := String.utf8Encode_toList.symm
  rw [encode, hbytes, toList_eq, List.utf8Encode, List.toList_data_toByteArray]

/-- The bytes of a text that is made of characters are theirs, one after the other. -/
theorem encode_ofList (cs : List Char) :
    encode (String.ofList cs) = cs.flatMap String.utf8EncodeChar := by
  rw [encode_eq, String.toList_ofList]

/-- A text is written part by part. -/
theorem encode_append (s t : String) : encode (s ++ t) = encode s ++ encode t := by
  rw [encode_eq, encode_eq, encode_eq, String.toList_append, List.flatMap_append]

/-- An ASCII character is one byte. -/
theorem utf8EncodeChar_of_ascii {c : Char} (hc : c.toNat < 0x80) :
    String.utf8EncodeChar c = [byte c] := by
  have hval : c.val.toNat ≤ 127 := Nat.le_of_lt_succ hc
  rw [String.utf8EncodeChar, if_pos hval]
  rfl

/-- ASCII characters are written as their bytes. -/
theorem encode_ofList_of_ascii {cs : List Char} (hcs : ∀ c ∈ cs, c.toNat < 0x80) :
    encode (String.ofList cs) = cs.map byte := by
  rw [encode_ofList]
  induction cs with
  | nil => rfl
  | cons c cs ih =>
      rw [List.flatMap_cons, utf8EncodeChar_of_ascii (hcs c List.mem_cons_self),
        ih fun d hd => hcs d (List.mem_cons_of_mem c hd)]
      rfl

/-! ### Lead bytes and their promises -/

/-- The bounds of a byte **in the middle of a character**. -/
def middle : UInt8 × UInt8 :=
  (0x80, 0xBF)

/-- A lead byte that promises one byte more. -/
theorem lead?_two {b : UInt8} (h : 0xC2 ≤ b.toNat) (h' : b.toNat < 0xE0) :
    lead? b = some ⟨b.toNat - 0xC0, [middle]⟩ := by
  simp only [lead?, UInt8.lt_iff_toNat_lt, UInt8.reduceToNat]
  rw [if_neg (by omega), if_neg (by omega), if_pos h']
  rfl

/-- A lead byte that promises two bytes more. The first of them is bounded for two of the lead
bytes, to keep out what could be written shorter, and surrogates. -/
theorem lead?_three {b : UInt8} (h : 0xE0 ≤ b.toNat) (h' : b.toNat < 0xF0) :
    lead? b = some ⟨b.toNat - 0xE0, [(if b.toNat = 0xE0 then 0xA0 else 0x80,
      if b.toNat = 0xED then 0x9F else 0xBF), middle]⟩ := by
  simp only [lead?, UInt8.lt_iff_toNat_lt, UInt8.reduceToNat, beq_iff_eq, ← UInt8.toNat_inj]
  rw [if_neg (by omega), if_neg (by omega), if_neg (by omega)]
  split
  next hfirst => simp [hfirst, middle]
  next hfirst =>
    split
    next hlast => simp [hlast, middle]
    next hlast => rfl

/-- A lead byte that promises three bytes more, with bounds for two of the lead bytes as well. They
keep overlong forms out, and what is beyond the last character. -/
theorem lead?_four {b : UInt8} (h : 0xF0 ≤ b.toNat) (h' : b.toNat ≤ 0xF4) :
    lead? b = some ⟨b.toNat - 0xF0, [(if b.toNat = 0xF0 then 0x90 else 0x80,
      if b.toNat = 0xF4 then 0x8F else 0xBF), middle, middle]⟩ := by
  simp only [lead?, UInt8.lt_iff_toNat_lt, UInt8.reduceToNat, beq_iff_eq, ← UInt8.toNat_inj]
  rw [if_neg (by omega), if_neg (by omega), if_neg (by omega), if_neg (by omega),
    if_neg (by omega), if_neg (by omega)]
  split
  next hfirst => simp [hfirst, middle]
  next hfirst =>
    split
    next hlast =>
      rw [if_neg (by omega)]
      rfl
    next hlast =>
      have hb : b.toNat = 0xF4 := by omega
      simp [hb, middle]

/-- Bytes that **keep the promise** of a lead byte, and the number of the character that they form
with it. -/
structure Promised (b : UInt8) (run : Bytes) (point : Nat) : Prop where
  exists_lead : ∃ lead, lead? b = some lead ∧
    List.Forall₂ (fun bounds c => bounds.1 ≤ c ∧ c ≤ bounds.2) lead.followers run ∧
    run.foldl (fun point c => point * 64 + (c.toNat - 0x80)) lead.share = point

/-- What is kept of a promise that is kept is all of it. -/
theorem kept_eq {followers : List (UInt8 × UInt8)} {run : Bytes}
    (h : List.Forall₂ (fun bounds c => bounds.1 ≤ c ∧ c ≤ bounds.2) followers run) (rest : Bytes) :
    kept followers (run ++ rest) = run := by
  induction h with
  | nil => cases rest <;> rfl
  | cons hc _ ih =>
      obtain ⟨hlow, hhigh⟩ := hc
      rw [List.cons_append, kept, if_pos (by simp [hlow, hhigh]), ih]

/-- The first character of bytes that keep a promise is the one that they form, whatever follows. -/
theorem Promised.first_eq {b : UInt8} {run : Bytes} {point : Nat} (h : Promised b run point)
    (rest : Bytes) : first b (run ++ rest) = (Char.ofNat point, run.length) := by
  obtain ⟨lead, hlead, hrun, rfl⟩ := h
  simp only [first, hlead, kept_eq hrun, hrun.length_eq, beq_self_eq_true, if_true]

/-- A byte with six bits of a number is one in the middle of a character. -/
theorem middle_ofNat (n : Nat) :
    middle.1 ≤ UInt8.ofNat (n % 64 + 128) ∧ UInt8.ofNat (n % 64 + 128) ≤ middle.2 := by
  simp only [middle, UInt8.le_iff_toNat_le, UInt8.toNat_ofNat', UInt8.reduceToNat]
  omega

/-- A number of seven bits is a byte by itself. This and the next three are the four ways to write a
character, by the size of its number. -/
theorem promised_one {v : Nat} (h : v ≤ 0x7F) : Promised (UInt8.ofNat v) [] v := by
  have hb : (UInt8.ofNat v).toNat = v := by
    rw [UInt8.toNat_ofNat']
    omega
  have hlt : UInt8.ofNat v < 0x80 := by
    rw [UInt8.lt_iff_toNat_lt, hb]
    exact Nat.lt_succ_of_le h
  exact ⟨⟨v, []⟩, by rw [lead?, if_pos hlt, hb], .nil, rfl⟩

/-- A number of up to eleven bits takes two bytes. -/
theorem promised_two {v : Nat} (h : 0x7F < v) (h' : v ≤ 0x7FF) :
    Promised (UInt8.ofNat (v / 64 % 32 + 192)) [UInt8.ofNat (v % 64 + 128)] v := by
  have hb : (UInt8.ofNat (v / 64 % 32 + 192)).toNat = v / 64 + 192 := by
    rw [UInt8.toNat_ofNat']
    omega
  refine ⟨_, lead?_two (by omega) (by omega), .cons (middle_ofNat v) .nil, ?_⟩
  simp only [List.foldl_cons, List.foldl_nil, hb, UInt8.toNat_ofNat']
  omega

/-- A number of up to sixteen bits takes three bytes, if it is no surrogate. The second byte has a
bound of its own after two of the lead bytes. -/
theorem promised_three {v : Nat} (h : 0x7FF < v) (h' : v ≤ 0xFFFF)
    (hsurrogate : v < 0xD800 ∨ 0xDFFF < v) :
    Promised (UInt8.ofNat (v / 4096 % 16 + 224))
      [UInt8.ofNat (v / 64 % 64 + 128), UInt8.ofNat (v % 64 + 128)] v := by
  have hb : (UInt8.ofNat (v / 4096 % 16 + 224)).toNat = v / 4096 + 224 := by
    rw [UInt8.toNat_ofNat']
    omega
  refine ⟨_, lead?_three (by omega) (by omega), .cons ⟨?_, ?_⟩ (.cons (middle_ofNat v) .nil), ?_⟩
  · simp only [UInt8.le_iff_toNat_le, UInt8.toNat_ofNat', apply_ite UInt8.toNat, UInt8.reduceToNat,
      hb]
    split <;> omega
  · simp only [UInt8.le_iff_toNat_le, UInt8.toNat_ofNat', apply_ite UInt8.toNat, UInt8.reduceToNat,
      hb]
    split <;> omega
  · simp only [List.foldl_cons, List.foldl_nil, hb, UInt8.toNat_ofNat']
    omega

/-- Any other number of a character takes four bytes. Here too the second byte has a bound of its
own after two of the lead bytes. -/
theorem promised_four {v : Nat} (h : 0xFFFF < v) (h' : v < 0x110000) :
    Promised (UInt8.ofNat (v / 262144 % 8 + 240)) [UInt8.ofNat (v / 4096 % 64 + 128),
      UInt8.ofNat (v / 64 % 64 + 128), UInt8.ofNat (v % 64 + 128)] v := by
  have hb : (UInt8.ofNat (v / 262144 % 8 + 240)).toNat = v / 262144 + 240 := by
    rw [UInt8.toNat_ofNat']
    omega
  refine ⟨_, lead?_four (by omega) (by omega),
    .cons ⟨?_, ?_⟩ (.cons (middle_ofNat (v / 64)) (.cons (middle_ofNat v) .nil)), ?_⟩
  · simp only [UInt8.le_iff_toNat_le, UInt8.toNat_ofNat', apply_ite UInt8.toNat, UInt8.reduceToNat,
      hb]
    split <;> omega
  · simp only [UInt8.le_iff_toNat_le, UInt8.toNat_ofNat', apply_ite UInt8.toNat, UInt8.reduceToNat,
      hb]
    split <;> omega
  · simp only [List.foldl_cons, List.foldl_nil, hb, UInt8.toNat_ofNat']
    omega

/-- The bytes of a character **keep the promise** of the first of them. There are as many as the
number of the character needs, from one to four. -/
theorem exists_promised (c : Char) :
    ∃ b run, String.utf8EncodeChar c = b :: run ∧ Promised b run c.toNat := by
  have hvalid : c.val.toNat < 0xD800 ∨ 0xDFFF < c.val.toNat ∧ c.val.toNat < 0x110000 := c.valid
  rw [String.utf8EncodeChar]
  change ∃ b run, (if c.val.toNat ≤ 127 then _ else _) = b :: run ∧ Promised b run c.val.toNat
  split
  next h1 => exact ⟨_, _, rfl, promised_one h1⟩
  next h1 =>
    split
    next h2 => exact ⟨_, _, rfl, promised_two (by omega) h2⟩
    next h2 =>
      split
      next h3 => exact ⟨_, _, rfl, promised_three (by omega) h3 (by omega)⟩
      next h3 => exact ⟨_, _, rfl, promised_four (by omega) (by omega)⟩

/-! ### Reading undoes writing -/

/-- A character that was written is the first one that is read. -/
theorem decode_utf8EncodeChar_append (c : Char) (rest : Bytes) :
    decode (String.utf8EncodeChar c ++ rest) = String.ofList (c :: (decode rest).toList) := by
  obtain ⟨b, run, hrun, hpromised⟩ := exists_promised c
  rw [decode, decode, hrun, List.cons_append, units_cons, hpromised.first_eq, Char.ofNat_toNat,
    List.drop_left, String.toList_ofList]
  rfl

/-- Reading undoes writing, whatever bytes follow. -/
theorem decode_encode_append (text : String) (rest : Bytes) :
    decode (encode text ++ rest) = text ++ decode rest := by
  rw [← String.ofList_toList (s := text), encode_ofList]
  induction text.toList with
  | nil => exact (String.empty_append).symm
  | cons c cs ih =>
      rw [List.flatMap_cons, List.append_assoc, decode_utf8EncodeChar_append, ih,
        String.toList_append, String.toList_ofList, ← List.cons_append, String.ofList_append,
        String.ofList_toList]

/-- A text that is written and read is itself. -/
@[simp]
theorem decode_encode (text : String) : decode (encode text) = text := by
  have happend := decode_encode_append text []
  rwa [List.append_nil, show decode [] = "" from rfl, String.append_empty] at happend

/-! ### Writing what was read -/

/-- Bytes **read as text and written again**. -/
def rewrite (bytes : Bytes) : Bytes :=
  encode (decode bytes)

/-- Nothing is read of no bytes. -/
theorem rewrite_nil : rewrite [] = [] := by
  rw [rewrite, show decode [] = "" from rfl, encode_eq]
  rfl

/-- A character that was written is written again as it was. -/
theorem rewrite_utf8EncodeChar_append (c : Char) (rest : Bytes) :
    rewrite (String.utf8EncodeChar c ++ rest) = String.utf8EncodeChar c ++ rewrite rest := by
  rw [rewrite, decode_utf8EncodeChar_append, encode_ofList, List.flatMap_cons, rewrite, encode_eq]

/-- The first character of some bytes is the first that is written again. -/
theorem rewrite_cons (b : UInt8) (bs : Bytes) : rewrite (b :: bs) =
    String.utf8EncodeChar (first b bs).1 ++ rewrite (bs.drop (first b bs).2) := by
  rw [rewrite, decode, encode_ofList, units_cons, List.flatMap_append, List.flatMap_singleton,
    rewrite, decode, encode_ofList]

/-- The character with a number, if there is one, has this number. -/
theorem toNat_ofNat {point : Nat} (h : point.isValidChar) : (Char.ofNat point).toNat = point := by
  rw [Char.ofNat, dif_pos h]
  rfl

/-- An ASCII character is kept, as it is a promise of no more bytes. What is behind it is decoded as
if it stood alone. -/
theorem rewrite_cons_of_ascii {b : UInt8} (hb : b < 0x80) (bs : Bytes) :
    rewrite (b :: bs) = b :: rewrite bs := by
  have hlt : b.toNat < 0x80 := UInt8.lt_iff_toNat_lt.mp hb
  have hpromised : Promised b [] b.toNat := by
    have hone := promised_one (Nat.le_of_lt_succ hlt)
    rwa [UInt8.ofNat_toNat] at hone
  have hchar : (Char.ofNat b.toNat).toNat = b.toNat :=
    toNat_ofNat (.inl (Nat.lt_trans hlt (by decide)))
  have hfirst : first b bs = (Char.ofNat b.toNat, 0) := hpromised.first_eq bs
  have hbyte : byte (Char.ofNat b.toNat) = b := by
    apply UInt8.toNat_inj.mp
    change (Char.ofNat b.toNat).toNat % 256 = b.toNat
    rw [hchar]
    omega
  rw [rewrite_cons, hfirst, utf8EncodeChar_of_ascii (by rw [hchar]; exact hlt), hbyte]
  rfl

/-- A promise kept to the end is kept: as many bytes are taken as are promised, so each of them was
within its bounds. -/
theorem forall₂_kept {followers : List (UInt8 × UInt8)} {bs : Bytes}
    (h : (kept followers bs).length = followers.length) :
    List.Forall₂ (fun bounds c => bounds.1 ≤ c ∧ c ≤ bounds.2) followers (kept followers bs) := by
  induction followers generalizing bs with
  | nil =>
      rw [List.length_eq_zero_iff.mp h]
      exact .nil
  | cons bounds followers ih =>
      cases bs with
      | nil => cases h
      | cons c bs =>
          rw [kept] at h ⊢
          split at h
          next hc =>
            rw [if_pos hc]
            simp only [Bool.and_eq_true, decide_eq_true_eq] at hc
            exact .cons hc (ih (Nat.succ.inj h))
          next => cases h

/-- A byte that is no ASCII character makes a promise of one, two or three bytes or none. The three
ranges of such bytes follow one another. -/
theorem lead?_of_not_ascii {b : UInt8} (hb : 0x80 ≤ b.toNat) :
    lead? b = none ∨ 0xC2 ≤ b.toNat ∧ b.toNat < 0xE0 ∨ 0xE0 ≤ b.toNat ∧ b.toNat < 0xF0 ∨
      0xF0 ≤ b.toNat ∧ b.toNat ≤ 0xF4 := by
  by_cases hlow : b.toNat < 0xC2
  · left
    simp only [lead?, UInt8.lt_iff_toNat_lt, UInt8.reduceToNat]
    rw [if_neg (by omega), if_pos hlow]
  · by_cases hhigh : 0xF4 < b.toNat
    · left
      simp only [lead?, UInt8.lt_iff_toNat_lt, UInt8.reduceToNat, beq_iff_eq, ← UInt8.toNat_inj]
      rw [if_neg (by omega), if_neg (by omega), if_neg (by omega), if_neg (by omega),
        if_neg (by omega), if_neg (by omega), if_neg (by omega), if_neg (by omega),
        if_neg (by omega)]
    · omega

/-- Bytes that keep the promise of a byte that is no ASCII character form none either. The character
is a valid one, as the bounds leave surrogates out. -/
theorem Promised.not_ascii {b : UInt8} {run : Bytes} {point : Nat} (h : Promised b run point)
    (hb : 0x80 ≤ b.toNat) : 0x80 ≤ point ∧ point.isValidChar := by
  obtain ⟨lead, hlead, hrun, rfl⟩ := h
  obtain hnone | ⟨hlow, hhigh⟩ | ⟨hlow, hhigh⟩ | ⟨hlow, hhigh⟩ := lead?_of_not_ascii hb
  · rw [hnone] at hlead
    cases hlead
  · rw [lead?_two hlow hhigh] at hlead
    obtain rfl := Option.some.inj hlead
    obtain _ | ⟨h1, _ | _⟩ := hrun
    simp only [middle, UInt8.le_iff_toNat_le, UInt8.reduceToNat, List.foldl_cons, List.foldl_nil,
      Nat.isValidChar] at h1 ⊢
    omega
  · rw [lead?_three hlow hhigh] at hlead
    obtain rfl := Option.some.inj hlead
    obtain _ | ⟨h1, _ | ⟨h2, _ | _⟩⟩ := hrun
    simp only [middle, UInt8.le_iff_toNat_le, UInt8.reduceToNat, List.foldl_cons, List.foldl_nil,
      apply_ite UInt8.toNat, Nat.isValidChar] at h1 h2 ⊢
    obtain ⟨hleast, hgreatest⟩ := h1
    split at hleast <;> split at hgreatest <;> omega
  · rw [lead?_four hlow hhigh] at hlead
    obtain rfl := Option.some.inj hlead
    obtain _ | ⟨h1, _ | ⟨h2, _ | ⟨h3, _ | _⟩⟩⟩ := hrun
    simp only [middle, UInt8.le_iff_toNat_le, UInt8.reduceToNat, List.foldl_cons, List.foldl_nil,
      apply_ite UInt8.toNat, Nat.isValidChar] at h1 h2 h3 ⊢
    obtain ⟨hleast, hgreatest⟩ := h1
    split at hleast <;> split at hgreatest <;> omega

/-- The first character of bytes that begin with no ASCII character is none. If the promise is not
kept it is the replacement character. -/
theorem first_of_not_ascii {b : UInt8} (hb : 0x80 ≤ b) (bs : Bytes) :
    0x80 ≤ (first b bs).1.toNat := by
  rw [first]
  split
  next => decide
  next lead hlead =>
    dsimp only
    split
    next hlength =>
      have hpromised : Promised b (kept lead.followers bs) _ :=
        ⟨lead, hlead, forall₂_kept (by simpa using hlength), rfl⟩
      obtain ⟨hle, hvalid⟩ := hpromised.not_ascii (UInt8.le_iff_toNat_le.mp hb)
      rw [toNat_ofNat hvalid]
      exact hle
    next => exact Nat.le_of_ble_eq_true rfl

/-- A character that is no ASCII character is written with bytes that are none. -/
theorem utf8EncodeChar_of_not_ascii {c : Char} (hc : 0x80 ≤ c.toNat) {x : UInt8}
    (hx : x ∈ String.utf8EncodeChar c) : 0x80 ≤ x := by
  have hle {n : Nat} (hn : 0x80 ≤ n ∧ n < 0x100) : (0x80 : UInt8) ≤ UInt8.ofNat n := by
    rw [UInt8.le_iff_toNat_le, UInt8.toNat_ofNat_of_lt' (by exact hn.2)]
    exact hn.1
  rw [String.utf8EncodeChar] at hx
  change x ∈ (if c.toNat ≤ 127 then _ else _) at hx
  rw [if_neg (by omega)] at hx
  split at hx
  next =>
    simp only [List.mem_cons, List.not_mem_nil, or_false] at hx
    obtain rfl | rfl := hx <;> exact hle (by omega)
  next =>
    split at hx
    next =>
      simp only [List.mem_cons, List.not_mem_nil, or_false] at hx
      obtain rfl | rfl | rfl := hx <;> exact hle (by omega)
    next =>
      simp only [List.mem_cons, List.not_mem_nil, or_false] at hx
      obtain rfl | rfl | rfl | rfl := hx <;> exact hle (by omega)

/-- Bytes that begin with no ASCII character are written again as such a character, and what becomes
of the rest. -/
theorem rewrite_cons_of_not_ascii {b : UInt8} (hb : 0x80 ≤ b) (bs : Bytes) :
    ∃ c n, 0x80 ≤ c.toNat ∧ rewrite (b :: bs) = String.utf8EncodeChar c ++ rewrite (bs.drop n) :=
  ⟨_, _, first_of_not_ascii hb bs, rewrite_cons b bs⟩

/-- What was written again was there or is no ASCII character. -/
theorem mem_rewrite {bytes : Bytes} {x : UInt8} (hx : x ∈ rewrite bytes) :
    x ∈ bytes ∨ 0x80 ≤ x := by
  induction hlength : bytes.length using Nat.strong_induction_on generalizing bytes with
  | _ n ih =>
      subst hlength
      cases bytes with
      | nil =>
          rw [rewrite_nil] at hx
          cases hx
      | cons b bs =>
          by_cases hb : b < 0x80
          · rw [rewrite_cons_of_ascii hb, List.mem_cons] at hx
            obtain rfl | hx := hx
            · exact .inl List.mem_cons_self
            · exact (ih _ (Nat.lt_succ_self _) hx rfl).imp_left (List.mem_cons_of_mem b)
          · obtain ⟨c, k, hc, hrewrite⟩ := rewrite_cons_of_not_ascii (UInt8.not_lt.mp hb) bs
            rw [hrewrite, List.mem_append] at hx
            obtain hx | hx := hx
            · exact .inr (utf8EncodeChar_of_not_ascii hc hx)
            · have hlt : (bs.drop k).length < (b :: bs).length := by
                rw [List.length_drop, List.length_cons]
                omega
              exact (ih _ hlt hx rfl).imp_left fun h =>
                List.mem_cons_of_mem b (List.mem_of_mem_drop h)

/-- An ASCII character in front of what was written again was there. -/
theorem exists_cons_of_rewrite {bytes rest : Bytes} {x : UInt8} (h : rewrite bytes = x :: rest)
    (hx : x < 0x80) : ∃ bs, bytes = x :: bs ∧ rewrite bs = rest := by
  cases bytes with
  | nil =>
      rw [rewrite_nil] at h
      cases h
  | cons b bs =>
      by_cases hb : b < 0x80
      · rw [rewrite_cons_of_ascii hb] at h
        obtain ⟨rfl, rfl⟩ := List.cons.inj h
        exact ⟨bs, rfl, rfl⟩
      · obtain ⟨c, k, hc, hrewrite⟩ := rewrite_cons_of_not_ascii (UInt8.not_lt.mp hb) bs
        obtain ⟨y, run, hrun, -⟩ := exists_promised c
        rw [hrewrite, hrun, List.cons_append] at h
        obtain ⟨rfl, -⟩ := List.cons.inj h
        have hy : 0x80 ≤ y :=
          utf8EncodeChar_of_not_ascii hc (by rw [hrun]; exact List.mem_cons_self)
        exact absurd hx (UInt8.not_lt.mpr hy)

/-- An ASCII word in front of what was written again was there. -/
theorem isPrefix_of_rewrite {w bytes : Bytes} (hw : ∀ x ∈ w, x < 0x80) (h : w <+: rewrite bytes) :
    w <+: bytes := by
  induction w generalizing bytes with
  | nil => exact List.nil_prefix
  | cons x w ih =>
      obtain ⟨rest, hrest⟩ := h
      obtain ⟨bs, rfl, hbs⟩ := exists_cons_of_rewrite hrest.symm (hw x List.mem_cons_self)
      exact List.cons_prefix_cons.mpr ⟨rfl, ih (fun y hy => hw y (List.mem_cons_of_mem x hy))
        (by rw [hbs]; exact List.prefix_append w rest)⟩

/-- Something is read of any bytes that there are. -/
theorem rewrite_ne_nil {bytes : Bytes} (h : bytes ≠ []) : rewrite bytes ≠ [] := by
  obtain ⟨b, bs, rfl⟩ := List.exists_cons_of_ne_nil h
  obtain ⟨y, run, hrun, -⟩ := exists_promised (first b bs).1
  rw [rewrite_cons, hrun]
  exact nofun

/-- An ASCII word comes of no bytes but its own. -/
theorem rewrite_eq_iff_of_ascii {w bytes : Bytes} (hw : ∀ x ∈ w, x < 0x80) :
    rewrite bytes = w ↔ bytes = w := by
  induction w generalizing bytes with
  | nil =>
      constructor
      · intro h
        by_contra hne
        exact rewrite_ne_nil hne h
      · rintro rfl
        exact rewrite_nil
  | cons x w ih =>
      have hx : x < 0x80 := hw x List.mem_cons_self
      have hrest {bs : Bytes} : rewrite bs = w ↔ bs = w :=
        ih fun y hy => hw y (List.mem_cons_of_mem x hy)
      constructor
      · intro h
        obtain ⟨bs, rfl, hbs⟩ := exists_cons_of_rewrite h hx
        rw [hrest.mp hbs]
      · rintro rfl
        rw [rewrite_cons_of_ascii hx, hrest.mpr rfl]

end Utf8

end ContentStream

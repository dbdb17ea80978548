import ContentStream.Lexer

/-!
# Locality

A lexeme that has been read at the end of some bytes is read in the same way if a line feed and
further bytes follow. Most readers look for a byte that ends the lexeme, and a line feed is one, or
belongs to white space that they skip in any case. Those that look for a closing mark have found it
before the bytes end; and the byte after the mark of an inline image, which strict mode asks to be
white space, may be the line feed.

## Main definitions

* `Lexeme.IsLocal`: what a reader has read does not depend on the lines that follow.

## Main results

* `Lexeme.isLocal_read`: reading a lexeme is local.
-/

namespace ContentStream

/-! ### Looking past a byte -/

/-- What is taken up to a byte that is not taken is not affected by the bytes after it. -/
theorem takeWhile_append_cons {p : UInt8 → Bool} {s : UInt8} (hp : p s = false) (a b : Bytes) :
    (a ++ s :: b).takeWhile p = a.takeWhile p := by
  rw [List.takeWhile_append, List.takeWhile_cons_of_neg (by simp [hp]), List.append_nil]
  split
  · rename_i h
    exact ((List.takeWhile_prefix p).eq_of_length h).symm
  · rfl

/-- A byte other than the one that follows is not found in it. -/
theorem head?_append_cons {s c : UInt8} (hc : s ≠ c) (a b : Bytes) :
    ((a ++ s :: b).head? == some c) = (a.head? == some c) := by
  cases a with
  | nil => simpa using hc
  | cons x a => rfl

/-- Where there is a first byte, there is at least one. -/
theorem one_le_length_of_head? {a : Bytes} {c : UInt8} (h : (a.head? == some c) = true) :
    1 ≤ a.length := by
  cases a with
  | nil => simp at h
  | cons x a => exact Nat.succ_pos _

/-- A word that does not contain the byte that follows is found before it or not at all. The
induction is on the word, letter by letter. -/
theorem isPrefixOf_append_cons {w : Bytes} {s : UInt8} (hw : s ∉ w) (a b : Bytes) :
    w.isPrefixOf (a ++ s :: b) = w.isPrefixOf a := by
  induction w generalizing a with
  | nil => simp
  | cons c w ih =>
      obtain ⟨hc, hw⟩ := not_or.mp fun h => hw (List.mem_cons.mpr h)
      cases a with
      | nil =>
          have hne : (c == s) = false := beq_false_of_ne (Ne.symm hc)
          rw [List.nil_append, List.isPrefixOf_cons_cons, hne]
          rfl
      | cons x a =>
          rw [List.cons_append, List.isPrefixOf_cons_cons, List.isPrefixOf_cons_cons, ih hw]

/-! ### Closing marks -/

/-- A parenthesis that closes a literal string is found among the bytes there are, and closes it
whatever follows. -/
theorem literalLength?_append {depth n : Nat} {a : Bytes} (h : literalLength? depth a = some n)
    (b : Bytes) : n < a.length ∧ literalLength? depth (a ++ b) = some n := by
  fun_induction literalLength? depth a generalizing n with
  | case1 depth => simp at h
  | case2 depth x hx => simp at h
  | case3 depth x hx y a ih =>
      obtain ⟨k, hk, rfl⟩ := Option.map_eq_some_iff.mp h
      obtain ⟨hlt, happend⟩ := ih hk
      refine ⟨by simp only [List.length_cons]; omega, ?_⟩
      simp [literalLength?, hx, happend]
  | case4 depth x a hx hopen ih =>
      obtain ⟨k, hk, rfl⟩ := Option.map_eq_some_iff.mp h
      obtain ⟨hlt, happend⟩ := ih hk
      refine ⟨by simp only [List.length_cons]; omega, ?_⟩
      rw [List.cons_append, literalLength?.eq_def]
      simp [hx, hopen, happend]
  | case5 x a hx hopen hclose =>
      obtain rfl : 0 = n := by simpa using h
      refine ⟨Nat.succ_pos _, ?_⟩
      rw [List.cons_append, literalLength?.eq_def]
      simp [hx, hopen, hclose]
  | case6 x a hx hopen hclose depth ih =>
      obtain ⟨k, hk, rfl⟩ := Option.map_eq_some_iff.mp h
      obtain ⟨hlt, happend⟩ := ih hk
      refine ⟨by simp only [List.length_cons]; omega, ?_⟩
      rw [List.cons_append, literalLength?.eq_def]
      simp [hx, hopen, hclose, happend]
  | case7 depth x a hx hopen hclose ih =>
      obtain ⟨k, hk, rfl⟩ := Option.map_eq_some_iff.mp h
      obtain ⟨hlt, happend⟩ := ih hk
      refine ⟨by simp only [List.length_cons]; omega, ?_⟩
      rw [List.cons_append, literalLength?.eq_def]
      simp [hx, hopen, hclose, happend]

/-- Three bytes or more tell whether they end inline image data: a fourth one is there or is a line
feed. -/
theorem endsImage_append {strict : Bool} {a : Bytes} (ha : 3 ≤ a.length) (b : Bytes) :
    endsImage strict (a ++ byte '\n' :: b) = endsImage strict a := by
  match a, ha with
  | [s, e, i], _ => simp [endsImage, isSpace]
  | s :: e :: i :: x :: rest, _ => simp [endsImage]

/-- Bytes that end inline image data are at least three. -/
theorem le_length_of_endsImage {strict : Bool} {a : Bytes} (h : endsImage strict a = true) :
    3 ≤ a.length := by
  match a with
  | [] | [_] | [_, _] => simp [endsImage] at h
  | _ :: _ :: _ :: _ => exact Nat.le_add_left 3 _

/-- The mark that ends inline image data is found among the bytes there are, and is the first one
whatever follows. -/
theorem imageLength?_append {strict : Bool} {n : Nat} {a : Bytes}
    (h : imageLength? strict a = some n) (b : Bytes) :
    n + 3 ≤ a.length ∧ imageLength? strict (a ++ byte '\n' :: b) = some n := by
  induction a generalizing n with
  | nil => simp [imageLength?] at h
  | cons x a ih =>
      rw [imageLength?] at h
      by_cases hx : endsImage strict (x :: a) = true
      · have hlen := le_length_of_endsImage hx
        rw [if_pos hx] at h
        obtain rfl : 0 = n := by simpa using h
        refine ⟨by omega, ?_⟩
        rw [List.cons_append, imageLength?, ← List.cons_append, endsImage_append hlen, if_pos hx]
      · rw [if_neg hx] at h
        obtain ⟨k, hk, rfl⟩ := Option.map_eq_some_iff.mp h
        obtain ⟨hle, happend⟩ := ih hk
        refine ⟨by simp only [List.length_cons]; omega, ?_⟩
        rw [List.cons_append, imageLength?, ← List.cons_append,
          endsImage_append (by simp only [List.length_cons]; omega), if_neg hx, happend,
          Option.map_some]

namespace Lexeme

/-! ### Readers -/

/-- A reader is **local** if the lexemes it reads are among the bytes there are, and are read in the
same way if a line feed and further bytes follow. -/
def IsLocal (reader : Bytes → Reading) : Prop :=
  ∀ a lexeme n, reader a = .ok (lexeme, n) →
    n ≤ a.length ∧ ∀ b, reader (a ++ byte '\n' :: b) = .ok (lexeme, n)

namespace IsLocal

variable {reader reader' : Bytes → Reading}

/-- A reader that makes its choice beforehand is local if both of the others are. -/
theorem ite {c : Prop} [Decidable c] (h : IsLocal reader) (h' : IsLocal reader') :
    IsLocal fun a => if c then reader a else reader' a := by
  by_cases hc : c
  · simpa only [hc, if_true] using h
  · simpa only [hc, if_false] using h'

/-- A lexeme that is found to be there by a condition that does not look past a line feed. Where the
condition does not hold, it is up to the next reader. -/
theorem found {c : Bytes → Bool} {lexeme : Lexeme} {n : Nat}
    (h : IsLocal reader) (hc : ∀ a b, c (a ++ byte '\n' :: b) = c a)
    (hlen : ∀ a, c a = true → n ≤ a.length) :
    IsLocal fun a => if c a then .ok (lexeme, n) else reader a := by
  intro a lexeme' n' ha
  simp only [hc]
  by_cases hfound : c a = true
  · simp only [hfound, if_true, Except.ok.injEq, Prod.mk.injEq] at ha ⊢
    exact ⟨ha.2 ▸ hlen a hfound, fun _ => ha⟩
  · simp only [hfound] at ha ⊢
    exact h a lexeme' n' ha

/-- A lexeme that is spelled out by a word of which `x` is the first letter. -/
theorem word {w : Bytes} {x : UInt8} {lexeme : Lexeme} {n : Nat} (hw : byte '\n' ∉ w)
    (hn : w.length = n + 1) (h : IsLocal reader) :
    IsLocal fun a => if w.isPrefixOf (x :: a) then .ok (lexeme, n) else reader a := by
  refine h.found (fun a b => isPrefixOf_append_cons hw (x :: a) b) fun a ha => ?_
  have hle := (List.isPrefixOf_iff_prefix.mp ha).length_le
  rw [hn, List.length_cons] at hle
  omega

end IsLocal

/-- The parenthesis that ends a literal string is there already, and the bytes in front of it are
the same whatever follows. -/
theorem isLocal_readLiteral : IsLocal readLiteral := by
  intro a lexeme n h
  rw [readLiteral] at h
  rcases hk : literalLength? 0 a with _ | k
  · simp [hk] at h
  · simp only [hk, Except.ok.injEq, Prod.mk.injEq] at h
    obtain ⟨rfl, rfl⟩ := h
    have hlt := (literalLength?_append hk []).1
    refine ⟨hlt, fun b => ?_⟩
    simp only [readLiteral, (literalLength?_append hk _).2,
      List.take_append_of_le_length (Nat.le_of_lt hlt)]

/-- The body of a hexadecimal string may continue after the line feed; it does not if the byte that
ends it was there before. -/
theorem isLocal_readHex : IsLocal readHex := by
  intro a lexeme n h
  simp only [readHex] at h
  generalize hp : (fun b => isSpace b || (hexValue? b).isSome) = p at h
  have hle := (List.takeWhile_prefix (l := a) p).length_le
  rcases hrest : a.drop (a.takeWhile p).length with _ | ⟨x, rest⟩
  · simp [hrest] at h
  · have hlen := congrArg List.length hrest
    simp only [List.length_drop, List.length_cons] at hlen
    have htake (b : Bytes) : (a ++ b).takeWhile p = a.takeWhile p := by
      rw [List.takeWhile_append, if_neg (by omega)]
    have hdrop (b : Bytes) : (a ++ b).drop (a.takeWhile p).length = x :: (rest ++ b) := by
      rw [List.drop_append_of_le_length hle, hrest, List.cons_append]
    simp only [hrest] at h
    by_cases hx : (x == byte '>') = true
    · rw [if_pos hx] at h
      simp only [Except.ok.injEq, Prod.mk.injEq] at h
      obtain ⟨rfl, rfl⟩ := h
      refine ⟨by omega, fun b => ?_⟩
      simp only [readHex, hp, htake, hdrop, if_pos hx]
    · simp [hx] at h

/-- A name ends with its bytes or at the line feed, which is no byte of a name. -/
theorem isLocal_readName : IsLocal readName := by
  intro a lexeme n h
  simp only [readName, Except.ok.injEq, Prod.mk.injEq] at h
  obtain ⟨rfl, rfl⟩ := h
  refine ⟨(List.takeWhile_prefix _).length_le, fun b => ?_⟩
  simp (disch := decide) only [readName, takeWhile_append_cons]

/-- So does a number. The run of digits and points that it is made of ends at the line feed, and all
that is asked about a number is asked about that run. -/
theorem isLocal_readNumber (x : UInt8) : IsLocal (readNumber x) := by
  intro a lexeme n h
  -- the sign, if there is one, is not part of the run
  generalize hsigned : (x == byte '+' || x == byte '-') = signed
  have hrun (b : Bytes) :
      (if signed then a ++ byte '\n' :: b else x :: (a ++ byte '\n' :: b)).takeWhile
        (fun c => isDigit c || c == byte '.') =
      (if signed then a else x :: a).takeWhile fun c => isDigit c || c == byte '.' := by
    cases signed
    · exact takeWhile_append_cons (by decide) (x :: a) b
    · exact takeWhile_append_cons (by decide) a b
  simp only [readNumber, hsigned, hrun] at h ⊢
  refine ⟨?_, fun _ => h⟩
  generalize hp : (fun c => isDigit c || c == byte '.') = p at h
  have hle := (List.takeWhile_prefix (l := if signed then a else x :: a) p).length_le
  generalize (if signed then a else x :: a).takeWhile p = run at h hle
  by_cases hpoint : (run.takeWhile isDigit).length + 1 +
      ((run.drop ((run.takeWhile isDigit).length + 1)).takeWhile isDigit).length < run.length
  · simp [hpoint] at h
  · rw [if_neg hpoint] at h
    split at h
    · simp at h
    · simp only [Except.ok.injEq, Prod.mk.injEq] at h
      obtain ⟨-, rfl⟩ := h
      cases signed with
      | false | true => simpa using hle

/-- Image data are read with the mark that ends them, of which one byte more is counted than there
is after the operator's first two. -/
theorem readImage_append {strict : Bool} {a : Bytes} {lexeme : Lexeme} {n : Nat}
    (h : readImage strict a = .ok (lexeme, n)) (b : Bytes) :
    n ≤ a.length + 1 ∧ readImage strict (a ++ byte '\n' :: b) = .ok (lexeme, n) := by
  rw [readImage] at h
  rcases hk : imageLength? strict a with _ | k
  · simp [hk] at h
  · obtain ⟨hle, hlength⟩ := imageLength?_append hk b
    have hhead : (a ++ byte '\n' :: b).head? = a.head? := by
      cases a with
      | nil => simp at hle
      | cons y a => rfl
    have htake : (a ++ byte '\n' :: b).take k = a.take k :=
      List.take_append_of_le_length (by omega)
    simp only [hk, Except.ok.injEq, Prod.mk.injEq] at h
    obtain ⟨rfl, rfl⟩ := h
    refine ⟨by omega, ?_⟩
    simp only [readImage, hlength, hhead, htake]

/-- An operator ends there, too, and the data of an inline image end among the bytes there are. It
is the second byte that decides which of the two it is. -/
theorem isLocal_readOperator (strict : Bool) (x : UInt8) : IsLocal (readOperator strict x) := by
  intro a lexeme n h
  have hbody (b : Bytes) : (a ++ byte '\n' :: b).takeWhile (fun c => !isOperatorEnd c) =
      a.takeWhile fun c => !isOperatorEnd c := takeWhile_append_cons (by decide) a b
  simp only [readOperator, hbody] at h ⊢
  by_cases himage : (x == byte 'I' &&
      (a.takeWhile fun c => !isOperatorEnd c).head? == some (byte 'D')) = true
  · simp only [himage, if_true] at h ⊢
    obtain _ | ⟨d, a⟩ := a
    · simp at himage
    · simp only [List.drop_one, List.tail_cons, List.cons_append] at h ⊢
      exact ⟨(readImage_append h []).1, fun b => (readImage_append h b).2⟩
  · simp only [himage] at h ⊢
    simp only [Bool.false_eq_true, if_false, Except.ok.injEq, Prod.mk.injEq] at h ⊢
    exact ⟨h.2 ▸ (List.takeWhile_prefix _).length_le, fun _ => h⟩

/-- Reading a lexeme is local. The cases are those of the first byte, then those of the words that
are no operators. -/
theorem isLocal_read (strict : Bool) (x : UInt8) : IsLocal (read strict x) := by
  have hhead {c : UInt8} (hc : byte '\n' ≠ c) {reader : Bytes → Reading} {lexeme : Lexeme}
      (h : IsLocal reader) :
      IsLocal fun a => if a.head? == some c then .ok (lexeme, 1) else reader a :=
    h.found (head?_append_cons hc) fun a => one_le_length_of_head?
  have hclose {reader : Bytes → Reading} (h : IsLocal reader) : IsLocal fun a =>
      if x == byte '>' && a.head? == some (byte '>') then .ok (.dictClose, 1) else reader a :=
    h.found (fun a b => by rw [head?_append_cons (by decide)])
      fun a ha => one_le_length_of_head? (Bool.and_eq_true_iff.mp ha).2
  have hfixed {c : Bool} {reader : Bytes → Reading} {lexeme : Lexeme} (h : IsLocal reader) :
      IsLocal fun a => if c then .ok (lexeme, 0) else reader a :=
    h.found (fun _ _ => rfl) fun _ _ => Nat.zero_le _
  exact .ite isLocal_readLiteral <| .ite (hhead (by decide) isLocal_readHex) <| hclose <|
    hfixed <| hfixed <| .ite isLocal_readName <| .ite (isLocal_readNumber x) <|
    .word (by decide +kernel) (by decide +kernel) <|
    .word (by decide +kernel) (by decide +kernel) <| isLocal_readOperator strict x

end Lexeme

end ContentStream

import ContentStream.Proofs.RoundTrip

/-!
# Inline image data

Inline image data have no length of their own. They begin behind the operator that introduces them,
after one byte of white space if there is one, and they end where the first acceptable mark stands:
white space and the letters `EI`, in strict mode before white space or the end of the stream. So
data are recovered exactly if no such mark stands in them, or together with what is in front of
them. The byte of white space that separates them from the operator may be the first byte of a mark,
of one that ends data that are empty.

A mark cannot reach beyond the white space with which the next one begins, since neither of its
letters is white space. That is why it is enough to look at the data themselves, and in strict mode
at the byte after them.

## Main definitions

* `ImageEnd`: an acceptable mark stands at the front of some bytes.
* `TakesImage`: a scan takes inline image data and goes on behind the mark that ends them.

## Main results

* `imageLength?_eq_some_iff`, `imageLength?_eq_none_iff`: the mark that is found is the first one.
* `scanFrom_imageData`: what is taken for inline image data.
-/

namespace ContentStream

/-! ### The first mark -/

/-- An **acceptable mark** stands at the front of some bytes. -/
def ImageEnd (strict : Bool) (bs : Bytes) : Prop :=
  ∃ w rest, bs = w :: byte 'E' :: byte 'I' :: rest ∧ isSpace w = true ∧
    (strict = true → ∀ b ∈ rest.head?, isSpace b = true)

/-- The function that looks for a mark finds those that are acceptable. It looks at three bytes, and
in strict mode at a fourth one if there is one. -/
theorem endsImage_iff {strict : Bool} {bs : Bytes} :
    endsImage strict bs = true ↔ ImageEnd strict bs := by
  rcases bs with _ | ⟨w, _ | ⟨e, _ | ⟨i, rest⟩⟩⟩
  · exact iff_of_false nofun nofun
  · exact iff_of_false nofun nofun
  · exact iff_of_false nofun nofun
  · simp only [endsImage, Bool.and_eq_true, beq_iff_eq, Bool.or_eq_true, Bool.not_eq_true',
      ← Bool.not_eq_true, ImageEnd]
    constructor
    · rintro ⟨⟨⟨hw, rfl⟩, rfl⟩, hrest⟩
      refine ⟨w, rest, rfl, hw, fun hstrict b hb => ?_⟩
      have hall := hrest.resolve_left (not_not_intro hstrict)
      exact (Option.all_eq_true _ _).mp hall b hb
    · rintro ⟨w', rest', heq, hw, hrest⟩
      obtain ⟨rfl, rfl, rfl, rfl⟩ : w = w' ∧ e = byte 'E' ∧ i = byte 'I' ∧ rest = rest' := by
        simpa using heq
      refine ⟨⟨⟨hw, rfl⟩, rfl⟩, ?_⟩
      by_cases hstrict : strict = true
      · exact .inr ((Option.all_eq_true _ _).mpr (hrest hstrict))
      · exact .inl hstrict

/-- The mark that ends inline image data is the first acceptable one: none begins at any byte before
it. -/
theorem imageLength?_eq_some_iff {strict : Bool} {bs : Bytes} {n : Nat} :
    imageLength? strict bs = some n ↔
      ImageEnd strict (bs.drop n) ∧ ∀ k < n, ¬ ImageEnd strict (bs.drop k) := by
  induction bs generalizing n with
  | nil =>
      rw [List.drop_nil]
      exact iff_of_false nofun fun h => nomatch h.1
  | cons b bs ih =>
      rw [imageLength?]
      by_cases hend : endsImage strict (b :: bs) = true
      · rw [if_pos hend, Option.some.injEq]
        have hfirst := endsImage_iff.mp hend
        constructor
        · rintro rfl
          exact ⟨hfirst, fun k hk => absurd hk (Nat.not_lt_zero k)⟩
        · rintro ⟨-, hnone⟩
          by_contra hn
          exact hnone 0 (Nat.pos_of_ne_zero (Ne.symm hn)) hfirst
      · rw [if_neg hend, Option.map_eq_some_iff]
        rw [endsImage_iff] at hend
        constructor
        · rintro ⟨k, hk, rfl⟩
          obtain ⟨hmark, hnone⟩ := ih.mp hk
          refine ⟨hmark, fun j hj => ?_⟩
          cases j with
          | zero => exact hend
          | succ j => exact hnone j (Nat.lt_of_succ_lt_succ hj)
        · rintro ⟨hmark, hnone⟩
          cases n with
          | zero => exact absurd hmark hend
          | succ n =>
              exact ⟨n, ih.mpr ⟨hmark, fun k hk => hnone (k + 1) (Nat.succ_lt_succ hk)⟩, rfl⟩

/-- Inline image data do not end if there is **no acceptable mark**. -/
theorem imageLength?_eq_none_iff {strict : Bool} {bs : Bytes} :
    imageLength? strict bs = none ↔ ∀ n, ¬ ImageEnd strict (bs.drop n) := by
  constructor
  · intro hnone n
    -- of the marks there are, one would be the first
    induction n using Nat.strongRecOn with
    | ind n ih =>
        intro hmark
        have hsome := imageLength?_eq_some_iff.mpr ⟨hmark, ih⟩
        rw [hnone] at hsome
        cases hsome
  · intro h
    rcases hlength : imageLength? strict bs with _ | n
    · rfl
    · exact absurd (imageLength?_eq_some_iff.mp hlength).1 (h n)

/-! ### Taking the data -/

/-- Data **without the byte of white space** that separates them from their operator. -/
def withoutSeparator : Bytes → Bytes
  | [] => []
  | b :: bs => if isSpace b then bs else b :: bs

/-- A scan that comes to an inline image **takes its data** and goes on with the bytes `rest`. The
operator is followed by the bytes `taken`, the last of which are the mark, and the token that the
scan finds refers to the data in the source. -/
def TakesImage (strict : Bool) (position : Nat) (taken data rest : Bytes) : Prop :=
  ∃ lexeme span,
    scanFrom strict position 0 (byte 'I' :: byte 'D' :: (taken ++ rest)) =
      (scanFrom strict (position + 2 + taken.length) 0 rest).cons ⟨position, lexeme⟩ ∧
    (∀ used, lexeme.token? position used = some (.imageData span)) ∧
    ∀ p : Program, p.source.drop position = byte 'I' :: byte 'D' :: (taken ++ rest) →
      p.raw span = data

/-- Behind its first two bytes, the operator introduces data. So what follows them may be anything,
and in particular need not end the operator. -/
theorem read_image (strict : Bool) (bs : Bytes) :
    Lexeme.read strict (byte 'I') (byte 'D' :: bs) = Lexeme.readImage strict bs := by
  have hbody : (byte 'D' :: bs).takeWhile (fun b => !isOperatorEnd b) =
      byte 'D' :: bs.takeWhile fun b => !isOperatorEnd b :=
    List.takeWhile_cons_of_pos (by decide)
  have hoperator : Lexeme.read strict (byte 'I') (byte 'D' :: bs) =
      Lexeme.readOperator strict (byte 'I') (byte 'D' :: bs) := by
    rw [Lexeme.read, encode_true, encode_false]
    rfl
  rw [hoperator, Lexeme.readOperator, hbody]
  rfl

/-- The **number of bytes**, one or none, that separate data from their operator. -/
def separator (bs : Bytes) : Nat :=
  if bs.head?.any isSpace then 1 else 0

/-- At most one byte of white space is skipped. -/
theorem separator_le_one (bs : Bytes) : separator bs ≤ 1 := by
  rw [separator]
  split <;> decide

/-- The separator is a byte of the data, or the first of the mark if there are no data. In that case
nothing is left to be taken away. -/
theorem drop_separator (bs : Bytes) (n : Nat) :
    (bs.take n).drop (separator bs) = withoutSeparator (bs.take n) := by
  cases n with
  | zero => rw [List.take_zero, List.drop_nil, withoutSeparator]
  | succ n =>
      cases bs with
      | nil => rfl
      | cons b bs =>
          rw [List.take_succ_cons, withoutSeparator, separator, List.head?_cons, Option.any_some]
          by_cases hb : isSpace b = true
          · rw [if_pos hb, if_pos hb, List.drop_one, List.tail_cons]
          · rw [if_neg hb, if_neg hb, List.drop_zero]

/-- Data of some bytes behind the operator are found there in the source, behind the two bytes of
the operator and the separator. -/
theorem Program.raw_of_drop {p : Program} {position n : Nat} {bs : Bytes}
    (hp : p.source.drop position = byte 'I' :: byte 'D' :: bs) (hn : n < bs.length) :
    p.raw ⟨position + (2 + separator bs), (withoutSeparator (bs.take n)).length⟩ =
      withoutSeparator (bs.take n) := by
  have hlength := congrArg List.length hp
  have hle := separator_le_one bs
  have hprefix : withoutSeparator (bs.take n) <+: bs.drop (separator bs) := by
    rw [← drop_separator, List.drop_take]
    exact List.take_prefix _ _
  have hdata := hprefix.length_le
  simp only [List.length_drop, List.length_cons] at hlength hdata
  rw [Program.raw, Span.of_eq (by simp only; omega), ← List.drop_drop, hp, Nat.add_comm 2,
    List.drop_succ_cons, List.drop_succ_cons]
  exact (List.prefix_iff_eq_take.mp hprefix).symm

/-- The data up to the first acceptable mark are taken, and the scan goes on behind the mark. What
the token of the data refers to are these bytes of the source. -/
theorem takesImage_of_first {strict : Bool} {bs : Bytes} {n : Nat}
    (hmark : ImageEnd strict (bs.drop n)) (hfirst : ∀ k < n, ¬ ImageEnd strict (bs.drop k))
    (position : Nat) :
    TakesImage strict position (bs.take (n + 3)) (withoutSeparator (bs.take n))
      (bs.drop (n + 3)) := by
  have hlength := imageLength?_eq_some_iff.mpr ⟨hmark, hfirst⟩
  obtain ⟨w, rest, hdrop, -⟩ := hmark
  have hn : n + 3 ≤ bs.length := by
    have hlen := congrArg List.length hdrop
    simp only [List.length_drop, List.length_cons] at hlen
    omega
  have hreads : Lexeme.Reads strict (byte 'I' :: byte 'D' :: bs.take (n + 3)) (bs.drop (n + 3))
      (.imageData (2 + separator bs) (withoutSeparator (bs.take n))) := by
    refine ⟨_, _, rfl, by decide, by decide, ?_⟩
    rw [List.cons_append, List.take_append_drop, read_image, Lexeme.readImage, hlength,
      List.length_cons, List.length_take, Nat.min_eq_left hn, ← drop_separator]
    rfl
  have hscan := hreads.scanFrom_append position
  have hstop : position + (byte 'I' :: byte 'D' :: bs.take (n + 3)).length =
      position + 2 + (bs.take (n + 3)).length := by
    rw [List.length_cons, List.length_cons]
    omega
  rw [hstop] at hscan
  refine ⟨_, _, hscan, fun used => rfl, fun p hp => ?_⟩
  rw [List.take_append_drop] at hp
  exact Program.raw_of_drop hp (by omega)

/-- Where there is no acceptable mark, the data are not terminated. -/
theorem scanFrom_of_no_mark {strict : Bool} {bs : Bytes} (h : ∀ n, ¬ ImageEnd strict (bs.drop n))
    (position : Nat) :
    scanFrom strict position 0 (byte 'I' :: byte 'D' :: bs) =
      ⟨[], .flawed position .unterminatedImage⟩ := by
  rw [scanFrom, if_neg (by decide), if_neg (by decide), read_image, Lexeme.readImage,
    imageLength?_eq_none_iff.mpr h]
  rfl

/-! ### Data without a mark -/

/-- Bytes **hold no mark** that would end the data before the byte `t` of white space behind
them. -/
def HoldsNoMark (strict : Bool) (bytes : Bytes) (t : UInt8) : Prop :=
  if strict then
    ∀ w f, isSpace w = true → isSpace f = true → ¬ [w, byte 'E', byte 'I', f] <:+: bytes ++ [t]
  else
    ∀ w, isSpace w = true → ¬ [w, byte 'E', byte 'I'] <:+: bytes

/-- No mark begins in bytes that hold none: it would have to reach beyond the byte of white space
behind them. -/
theorem HoldsNoMark.not_imageEnd {strict : Bool} {bytes : Bytes} {t : UInt8}
    (h : HoldsNoMark strict bytes t) (ht : isSpace t = true) (rest : Bytes) {k : Nat}
    (hk : k < bytes.length) : ¬ ImageEnd strict ((bytes ++ t :: rest).drop k) := by
  have hE : t ≠ byte 'E' := by
    rintro rfl
    revert ht
    decide
  have hI : t ≠ byte 'I' := by
    rintro rfl
    revert ht
    decide
  obtain ⟨before, w, after, rfl, rfl⟩ : ∃ before w after, bytes = before ++ w :: after ∧
      k = before.length := by
    refine ⟨bytes.take k, bytes[k], bytes.drop (k + 1), ?_, by rw [List.length_take]; omega⟩
    rw [List.getElem_cons_drop, List.take_append_drop]
  rw [List.append_assoc, List.drop_left, List.cons_append]
  rintro ⟨w', rest', hmark, hw, hstrict⟩
  obtain ⟨rfl, hletters⟩ := List.cons.inj hmark
  -- the two letters come before the byte of white space
  rcases after with _ | ⟨e, _ | ⟨i, after⟩⟩
  · exact hE (List.cons.inj hletters).1
  · exact hI (List.cons.inj (List.cons.inj hletters).2).1
  obtain ⟨rfl, hletter⟩ := List.cons.inj hletters
  obtain ⟨rfl, hrest⟩ := List.cons.inj hletter
  cases strict with
  | false => exact h w hw ⟨before, after, by simp⟩
  | true =>
      -- in strict mode the byte after the letters is one of the data, or the white space itself
      obtain ⟨f, more, hf⟩ : ∃ f more, after ++ [t] = f :: more :=
        List.exists_cons_of_ne_nil (by simp)
      have hhead : rest' = f :: (more ++ rest) := by
        rw [← hrest, ← List.cons_append, ← hf]
        simp
      exact h w f hw (hstrict rfl f (by rw [hhead]; rfl)) ⟨before, more, by simp [hf]⟩

/-- Bytes that hold no mark, and a mark behind them, make data. The mark is the first one then, for
none begins in the bytes and reaches beyond them. -/
theorem HoldsNoMark.takesImage {strict : Bool} {bytes rest : Bytes} {t : UInt8}
    (h : HoldsNoMark strict bytes t) (ht : isSpace t = true)
    (hrest : strict = true → ∀ b ∈ rest.head?, isSpace b = true) (position : Nat) :
    TakesImage strict position (bytes ++ [t, byte 'E', byte 'I']) (withoutSeparator bytes)
      rest := by
  have hmark : ImageEnd strict
      ((bytes ++ t :: byte 'E' :: byte 'I' :: rest).drop bytes.length) := by
    rw [List.drop_left]
    exact ⟨t, rest, rfl, ht, hrest⟩
  have htaken := takesImage_of_first hmark
    (fun k hk => h.not_imageEnd ht (byte 'E' :: byte 'I' :: rest) hk) position
  rw [List.take_left, List.take_length_add_append, List.drop_length_add_append] at htaken
  exact htaken

/-- **Inline image data are recovered exactly.** If data stand behind their operator and a byte of
white space, with a mark behind them, they are taken for what they are and the scan goes on behind
the mark, provided that no mark stands in the white space and the data before. So they are without
the byte of white space, if they do not begin with one. In strict mode the mark has to be followed
by white space or nothing, and a mark before counts only if it is followed by white space. Whatever
the bytes behind the operator are, the data end at the first acceptable mark, and the scan stops
with a flaw at the operator exactly if there is none. -/
theorem scanFrom_imageData (strict : Bool) (position : Nat) :
    (∀ (s : UInt8) (d : Bytes) (t : UInt8) (r : Bytes), isSpace s = true → isSpace t = true →
      HoldsNoMark strict (s :: d) t → (strict = true → ∀ b ∈ r.head?, isSpace b = true) →
      TakesImage strict position (s :: d ++ [t, byte 'E', byte 'I']) d r) ∧
    (∀ (d : Bytes) (t : UInt8) (r : Bytes), (∀ b ∈ d.head?, isSpace b = false) →
      isSpace t = true → HoldsNoMark strict d t →
      (strict = true → ∀ b ∈ r.head?, isSpace b = true) →
      TakesImage strict position (d ++ [t, byte 'E', byte 'I']) d r) ∧
    (∀ (bs : Bytes) n, ImageEnd strict (bs.drop n) → (∀ k < n, ¬ ImageEnd strict (bs.drop k)) →
      TakesImage strict position (bs.take (n + 3)) (withoutSeparator (bs.take n))
        (bs.drop (n + 3))) ∧
    (∀ bs : Bytes, scanFrom strict position 0 (byte 'I' :: byte 'D' :: bs) =
        ⟨[], .flawed position .unterminatedImage⟩ ↔ ∀ n, ¬ ImageEnd strict (bs.drop n)) ∧
    LexicalFlaw.unterminatedImage.message = "unterminated inline image" := by
  refine ⟨fun s d t r hs ht hdata hr => ?_, fun d t r hd ht hdata hr => ?_,
    fun bs n hmark hfirst => takesImage_of_first hmark hfirst position,
    fun bs => ⟨fun hflaw n hmark => ?_, fun h => scanFrom_of_no_mark h position⟩, rfl⟩
  · have htaken := hdata.takesImage ht hr position
    rwa [withoutSeparator, if_pos hs] at htaken
  · have htaken := hdata.takesImage ht hr position
    have hsame : withoutSeparator d = d := by
      cases d with
      | nil => rfl
      | cons b d => rw [withoutSeparator, if_neg (Bool.eq_false_iff.mp (hd b rfl))]
    rwa [hsame] at htaken
  · rcases hlength : imageLength? strict bs with _ | k
    · exact imageLength?_eq_none_iff.mp hlength n hmark
    · obtain ⟨hmark, hfirst⟩ := imageLength?_eq_some_iff.mp hlength
      obtain ⟨lexeme, span, hscan, -⟩ := takesImage_of_first hmark hfirst position
      rw [List.take_append_drop, hflaw] at hscan
      cases hscan

/-- In strict mode, data may hold white space and the letters of the mark in front of another
byte. -/
theorem scanFrom_imageData_of_letters :
    let d : Bytes := [byte ' ', byte 'E', byte 'I', byte 'x']
    HoldsNoMark true (byte '\n' :: d) (byte ' ') ∧
    TakesImage true 4 (byte '\n' :: d ++ [byte ' ', byte 'E', byte 'I']) d
      [byte '\n', byte 'Q'] := by
  intro d
  have hdata : HoldsNoMark true (byte '\n' :: d) (byte ' ') := by
    rintro w f - hf hmark
    simp only [d, List.cons_append, List.nil_append, List.infix_cons_iff, List.cons_prefix_cons,
      List.nil_prefix, and_true, true_and, List.prefix_rfl, List.prefix_nil, List.cons_ne_self,
      and_false, reduceCtorEq, List.infix_nil, or_self, or_false] at hmark
    obtain ⟨-, h, -⟩ | ⟨-, rfl⟩ | ⟨-, h, -⟩ := hmark
    · exact absurd h (by decide)
    · exact absurd hf (by decide)
    · exact absurd h (by decide)
  refine ⟨hdata, (scanFrom_imageData true 4).1 (byte '\n') d (byte ' ') _ (by decide) (by decide)
    hdata fun _ b hb => ?_⟩
  obtain rfl := Option.some.inj hb
  decide

end ContentStream

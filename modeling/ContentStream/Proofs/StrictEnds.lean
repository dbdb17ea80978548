import ContentStream.Proofs.ImageData

/-!
# Strict ends

By default, inline image data end at the first white space with the letters `EI` behind it. Strict
mode asks in addition for white space or the end of the source behind the letters. So it accepts
fewer marks, and all it can do is to pass over a mark and to find a later one, or none. If every
mark that is accepted by default happens to be acceptable in strict mode too, then both modes come
to the same, tokens or fault.

The two scans go together as long as the marks that are found are acceptable in both modes. At the
first one that is not they *depart*, and nothing can be said about what comes after: it is not even
read from the same places. Only gathering can make them agree nevertheless. It fails at a bracket
that closes no array, and if there is one before the image where the scans depart, then it fails
there in both modes. This is why only those marks count that are accepted before the fault.

## Main definitions

* `MarkEnds`: where the mark ends that is found by default behind the operator of an inline image.
* `AcceptsMark`: tokenizing accepts such a mark by default, before it fails, if it does.
* `Departs`: two scans go together up to an image whose mark strict mode passes over.

## Main results

* `scanFrom_true_eq_or_departs`: the scan in strict mode is the same, or they depart.
* `assemble_of_departs`: gathering departs at that image, or it has failed before.
* `tokenize_true`: strict mode only ever delays a mark.
-/

namespace ContentStream

/-! ### Marks -/

/-- What is acceptable in strict mode is so by default. -/
theorem ImageEnd.of_strict {bs : Bytes} (h : ImageEnd true bs) : ImageEnd false bs := by
  obtain ⟨w, rest, rfl, hw, -⟩ := h
  exact ⟨w, rest, rfl, hw, nofun⟩

/-- A mark that is acceptable by default is so in strict mode if white space or nothing is behind
it. -/
theorem ImageEnd.strict {bs : Bytes} (h : ImageEnd false bs)
    (hbehind : ∀ b ∈ bs[3]?, isSpace b = true) : ImageEnd true bs := by
  obtain ⟨w, rest, rfl, hw, -⟩ := h
  exact ⟨w, rest, rfl, hw, fun _ b hb => hbehind b (by rwa [List.head?_eq_getElem?] at hb)⟩

/-- The operator of an inline image stands at `position`, and **the mark that is found by default**
behind it ends before `stop`. -/
def MarkEnds (source : Bytes) (position stop : Nat) : Prop :=
  ∃ m, stop = m + 3 ∧ position + 2 ≤ m ∧ ImageEnd false (source.drop m) ∧
    ∀ k, position + 2 ≤ k → k < m → ¬ ImageEnd false (source.drop k)

/-- What the search by default finds is such a place: there is a mark, and none before it. Its
position is counted from the beginning of the source. -/
theorem markEnds_of_imageLength? {source bs : Bytes} {position n : Nat}
    (hdrop : source.drop (position + 2) = bs) (hlength : imageLength? false bs = some n) :
    MarkEnds source position (position + 2 + n + 3) := by
  obtain ⟨hmark, hfirst⟩ := imageLength?_eq_some_iff.mp hlength
  subst hdrop
  refine ⟨position + 2 + n, rfl, Nat.le_add_right _ _, by rwa [List.drop_drop] at hmark, ?_⟩
  intro k hk hlt
  obtain ⟨j, rfl⟩ := Nat.exists_eq_add_of_le hk
  have hnone := hfirst j (by omega)
  rwa [List.drop_drop] at hnone

/-- There is only one such place. -/
theorem MarkEnds.unique {source : Bytes} {position stop stop' : Nat}
    (h : MarkEnds source position stop) (h' : MarkEnds source position stop') : stop = stop' := by
  obtain ⟨m, rfl, hm, hmark, hfirst⟩ := h
  obtain ⟨m', rfl, hm', hmark', hfirst'⟩ := h'
  obtain hlt | rfl | hlt := Nat.lt_trichotomy m m'
  · exact absurd hmark (hfirst' m hm hlt)
  · rfl
  · exact absurd hmark' (hfirst m' hm' hlt)

/-- The data end at the same mark in strict mode, unless a byte other than white space is behind
it. -/
theorem imageLength?_strict {bs : Bytes} {n : Nat} (h : imageLength? false bs = some n)
    (hbehind : ∀ b ∈ bs[n + 3]?, isSpace b = true) : imageLength? true bs = some n := by
  obtain ⟨hmark, hfirst⟩ := imageLength?_eq_some_iff.mp h
  refine imageLength?_eq_some_iff.mpr
    ⟨hmark.strict fun b hb => hbehind b ?_, fun k hk hstrict => hfirst k hk hstrict.of_strict⟩
  rwa [List.getElem?_drop] at hb

/-- Where strict mode finds a mark, one is found by default, and not behind it. -/
theorem imageLength?_of_strict {bs : Bytes} {n : Nat} (h : imageLength? true bs = some n) :
    ∃ m ≤ n, imageLength? false bs = some m := by
  have hmark := (imageLength?_eq_some_iff.mp h).1.of_strict
  rcases hlength : imageLength? false bs with _ | m
  · exact absurd hmark (imageLength?_eq_none_iff.mp hlength n)
  · refine ⟨m, Nat.le_of_not_lt fun hlt => ?_, rfl⟩
    exact (imageLength?_eq_some_iff.mp hlength).2 n hlt hmark

/-! ### Lexemes -/

namespace Lexeme

variable {b : UInt8} {bs : Bytes}

/-- Only inline images are read in different ways. An operator whose body begins with the second
letter of `ID` is the only one that is looked at again. -/
theorem read_true_eq_or (b : UInt8) (bs : Bytes) : read true b bs = read false b bs ∨
    ∃ rest, b = byte 'I' ∧ bs = byte 'D' :: rest := by
  by_cases himage : (b == byte 'I' &&
      (bs.takeWhile fun b => !isOperatorEnd b).head? == some (byte 'D')) = true
  · rw [Bool.and_eq_true, beq_iff_eq, beq_iff_eq] at himage
    obtain ⟨hb, hhead⟩ := himage
    cases bs with
    | nil => cases hhead
    | cons d rest =>
        rw [List.takeWhile_cons] at hhead
        split at hhead
        · exact .inr ⟨rest, hb, by rw [Option.some.inj hhead]⟩
        · cases hhead
  · have hoperator : readOperator true b bs = readOperator false b bs := by
      simp only [readOperator, himage]
      rfl
    exact .inl (by simp only [read, hoperator])

/-- A lexeme is read in the same way, unless it is an inline image and the mark that ends its data
by default is followed by another byte than white space. -/
theorem read_true_eq_or_lax (b : UInt8) (bs : Bytes) : read true b bs = read false b bs ∨
    ∃ rest n c, b = byte 'I' ∧ bs = byte 'D' :: rest ∧ imageLength? false rest = some n ∧
      rest[n + 3]? = some c ∧ isSpace c = false := by
  obtain heq | ⟨rest, rfl, rfl⟩ := read_true_eq_or b bs
  · exact .inl heq
  rw [read_image, read_image]
  rcases hdefault : imageLength? false rest with _ | n
  · rcases hstrict : imageLength? true rest with _ | n
    · exact .inl (by rw [readImage, readImage, hdefault, hstrict])
    · obtain ⟨m, -, hm⟩ := imageLength?_of_strict hstrict
      rw [hdefault] at hm
      cases hm
  · by_cases hbehind : ∀ c ∈ rest[n + 3]?, isSpace c = true
    · exact .inl (by rw [readImage, readImage, hdefault, imageLength?_strict hdefault hbehind])
    · push Not at hbehind
      obtain ⟨c, hc, hspace⟩ := hbehind
      exact .inr ⟨rest, n, c, rfl, rfl, hdefault, hc, Bool.eq_false_iff.mpr hspace⟩

/-- Data that are read in strict mode begin with those that are read by default, from the same
place. -/
theorem readImage_of_strict {lead n : Nat} {data : Bytes}
    (h : readImage true bs = .ok (.imageData lead data, n)) :
    ∃ data' n', readImage false bs = .ok (.imageData lead data', n') ∧ n' ≤ n ∧
      data' <+: data := by
  rw [readImage] at h
  rcases hstrict : imageLength? true bs with _ | k
  · rw [hstrict] at h
    cases h
  · obtain ⟨m, hle, hdefault⟩ := imageLength?_of_strict hstrict
    rw [hstrict] at h
    obtain ⟨hlexeme, rfl⟩ := Prod.mk.inj (Except.ok.inj h)
    obtain ⟨rfl, rfl⟩ := Lexeme.imageData.inj hlexeme
    refine ⟨_, m + 4, by rw [readImage, hdefault], Nat.add_le_add_right hle 4, ?_⟩
    rw [List.drop_take, List.drop_take]
    exact List.take_prefix_take_left (Nat.sub_le_sub_right hle _)

end Lexeme

/-! ### Scanning -/

/-- The **position** of a stop. -/
def Stop.position : Stop → Nat
  | .finished position => position
  | .flawed position _ => position

/-- Everything in a scan is **at some position or behind it**. -/
structure Scan.From (position : Nat) (s : Scan) : Prop where
  lexemes : ∀ x ∈ s.lexemes, position ≤ x.position
  stop : position ≤ s.stop.position

/-- What is behind some position is behind an earlier one. -/
theorem Scan.From.of_le {position position' : Nat} {s : Scan} (h : s.From position)
    (hle : position' ≤ position) : s.From position' :=
  ⟨fun x hx => Nat.le_trans hle (h.lexemes x hx), Nat.le_trans hle h.stop⟩

/-- A scan finds nothing before the place where it begins, by induction along the scan. It may find
an error there, or further on. -/
theorem from_scanFrom (strict : Bool) (position passed : Nat) (bs : Bytes) :
    (scanFrom strict position passed bs).From position := by
  fun_induction scanFrom strict position passed bs with
  | case1 passed position => exact ⟨List.forall_mem_nil _, Nat.le_refl _⟩
  | case2 position passed b bs ih | case3 position b bs hspace ih
  | case4 position b bs hspace hcomment ih => exact ih.of_le (Nat.le_succ _)
  | case5 position b bs hspace hcomment offset flaw hread =>
      exact ⟨List.forall_mem_nil _, Nat.le_add_right _ _⟩
  | case6 position b bs hspace hcomment lexeme passed hread ih =>
      refine ⟨fun x hx => ?_, (ih.of_le (Nat.le_succ _)).stop⟩
      obtain rfl | hx := List.mem_cons.mp hx
      · exact Nat.le_refl _
      · exact (ih.of_le (Nat.le_succ _)).lexemes x hx

/-- Two scans **depart** from one another if they go together up to an inline image, and the mark
that ends its data in the first is followed by another byte than white space. -/
inductive Departs (source : Bytes) : (s s' : Scan) → Prop
  | here {position lead stop : Nat} {data : Bytes} {b : UInt8} {after : Scan} (s' : Scan)
      (hmark : MarkEnds source position stop) (hb : source[stop]? = some b)
      (hspace : isSpace b = false) (hafter : after.From (position + 1)) :
      Departs source (after.cons ⟨position, .imageData lead data⟩) s'
  | cons {s s' : Scan} (x : Placed) (h : Departs source s s') :
      Departs source (s.cons x) (s'.cons x)

/-- **Scans go together until they depart.** The induction is on the scan by default; a lexeme that
both modes read in the same way is followed by the same bytes. -/
theorem scanFrom_true_eq_or_departs {source : Bytes} {position : Nat} {bs : Bytes}
    (h : source.drop position = bs) (passed : Nat) :
    scanFrom true position passed bs = scanFrom false position passed bs ∨
    Departs source (scanFrom false position passed bs) (scanFrom true position passed bs) := by
  have hnext {position : Nat} {b : UInt8} {bs : Bytes} (h : source.drop position = b :: bs) :
      source.drop (position + 1) = bs := by
    rw [← List.drop_drop, h, List.drop_one, List.tail_cons]
  fun_induction scanFrom false position passed bs with
  | case1 passed position => exact .inl (by rw [scanFrom])
  | case2 position passed b bs ih =>
      rw [scanFrom]
      exact ih (hnext h)
  | case3 position b bs hspace ih =>
      rw [scanFrom, if_pos hspace]
      exact ih (hnext h)
  | case4 position b bs hspace hcomment ih =>
      rw [scanFrom, if_neg hspace, if_pos hcomment]
      exact ih (hnext h)
  | case5 position b bs hspace hcomment offset flaw hread =>
      obtain heq | ⟨rest, n, c, rfl, rfl, hlength, -⟩ := Lexeme.read_true_eq_or_lax b bs
      · rw [scanFrom, if_neg hspace, if_neg hcomment, heq, hread]
        exact .inl rfl
      · rw [read_image, Lexeme.readImage, hlength] at hread
        cases hread
  | case6 position b bs hspace hcomment lexeme passed hread ih =>
      obtain heq | ⟨rest, n, c, rfl, rfl, hlength, hc, hlax⟩ := Lexeme.read_true_eq_or_lax b bs
      · rw [scanFrom, if_neg hspace, if_neg hcomment, heq, hread]
        exact (ih (hnext h)).imp (congrArg (Scan.cons _)) (.cons _)
      · have hdrop : source.drop (position + 2) = rest := hnext (hnext h)
        rw [read_image, Lexeme.readImage, hlength] at hread
        obtain ⟨rfl, -⟩ := Prod.mk.inj (Except.ok.inj hread)
        refine .inr (.here _ (markEnds_of_imageLength? hdrop hlength) ?_ hlax
          (from_scanFrom false (position + 1) passed _))
        rw [← hc, ← hdrop, List.getElem?_drop, Nat.add_assoc]

/-! ### Gathering -/

/-- Gathering fails at the position of a closing bracket, or where the scan stops. Neither of them
is before the place where the scan begins. -/
theorem Scan.From.le_of_assemble {position used p : Nat} {level : List Token}
    {outer : List (List Token)} {s : Scan} {flaw : LexicalFlaw} (hs : s.From position)
    (h : assemble used level outer s.lexemes s.stop = .error (.lexical p flaw)) :
    position ≤ p := by
  obtain ⟨lexemes, stop⟩ := s
  fun_induction assemble used level outer lexemes stop with
  | case1 used level q => cases h
  | case2 used level around outer q | case3 used level outer q flaw' =>
      obtain ⟨rfl, -⟩ := Fault.lexical.inj (Except.error.inj h)
      exact hs.stop
  | case5 used level q rest stop =>
      obtain ⟨rfl, -⟩ := Fault.lexical.inj (Except.error.inj h)
      exact hs.lexemes _ List.mem_cons_self
  | case4 _ _ _ _ _ _ ih | case6 _ _ _ _ _ _ _ ih | case7 _ _ _ _ _ _ _ _ _ ih =>
      exact ih ⟨fun x hx => hs.lexemes x (List.mem_cons_of_mem _ hx), hs.stop⟩ h

/-- Among the lexemes of a scan there is an inline image whose mark **strict mode passes over**, and
gathering has not failed before it. -/
def Scan.MeetsLaxMark (source : Bytes) (s : Scan) (result : Except Fault (List Token)) : Prop :=
  ∃ position lead data stop b, ⟨position, .imageData lead data⟩ ∈ s.lexemes ∧
    MarkEnds source position stop ∧ source[stop]? = some b ∧ isSpace b = false ∧
    ∀ p flaw, result = .error (.lexical p flaw) → position < p

/-- A mark that is met further on is met in all of the scan. -/
theorem Scan.MeetsLaxMark.cons {source : Bytes} {s : Scan} {result : Except Fault (List Token)}
    (h : s.MeetsLaxMark source result) (x : Placed) : (s.cons x).MeetsLaxMark source result := by
  obtain ⟨position, lead, data, stop, b, hmem, hrest⟩ := h
  exact ⟨position, lead, data, stop, b, List.mem_cons_of_mem x hmem, hrest⟩

/-- **Gathering departs where the scans do**, or it has failed before that in both. Until then the
scans have the same lexemes, and so the same brackets are open. -/
theorem assemble_of_departs {source : Bytes} {s s' : Scan} (h : Departs source s s') (used : Nat)
    (level : List Token) (outer : List (List Token)) :
    (∃ fault, assemble used level outer s.lexemes s.stop = .error fault ∧
      assemble used level outer s'.lexemes s'.stop = .error fault) ∨
    s.MeetsLaxMark source (assemble used level outer s.lexemes s.stop) := by
  induction h generalizing used level outer with
  | @here position lead stop data b after s' hmark hb hspace hafter =>
      refine .inr ⟨position, lead, data, stop, b, List.mem_cons_self, hmark, hb, hspace,
        fun p flaw herror => ?_⟩
      simp only [Scan.cons, assemble] at herror
      exact hafter.le_of_assemble herror
  | @cons s s' x h ih =>
      obtain ⟨position, lexeme⟩ := x
      cases lexeme with
      | arrayOpen =>
          simp only [Scan.cons, assemble]
          exact (ih used [] (level :: outer)).imp_right (.cons · _)
      | arrayClose =>
          cases outer with
          | nil => exact .inl ⟨_, rfl, rfl⟩
          | cons around outer =>
              simp only [Scan.cons, assemble]
              exact (ih used (.array level.reverse :: around) outer).imp_right (.cons · _)
      | _ =>
          simp only [Scan.cons, assemble]
          exact (ih _ _ outer).imp_right (.cons · _)

/-! ### Tokenizing -/

/-- Tokenizing **accepts a mark** by default: it takes inline image data at `position`, before it
fails if it does, and the mark that ends them ends before `stop`. -/
structure AcceptsMark (source : Bytes) (position stop : Nat) : Prop where
  taken : ∃ lead data, ⟨position, .imageData lead data⟩ ∈ (scan false source).lexemes
  before : ∀ p flaw, tokenize false source = .error (.lexical p flaw) → position < p
  mark : MarkEnds source position stop

/-- **Strict mode only ever delays a mark.** If every mark that tokenizing accepts by default is
followed by white space or the end of the source, then strict mode comes to the same: the same
program, with its tokens, spans and arena, or the same fault. And wherever the operator of an inline
image stands in a source, if strict mode finds a mark behind it, then one is found by default, which
is the same or an earlier one, and the data by default are the first of those in strict mode. -/
theorem tokenize_true (source : Bytes) :
    ((∀ position stop, AcceptsMark source position stop →
        ∀ b ∈ source[stop]?, isSpace b = true) →
      tokenize true source = tokenize false source) ∧
    (∀ position bs, source.drop position = byte 'I' :: byte 'D' :: bs →
      ∀ lead data n,
        Lexeme.read true (byte 'I') (byte 'D' :: bs) = .ok (.imageData lead data, n) →
        ∃ data' n',
          Lexeme.read false (byte 'I') (byte 'D' :: bs) = .ok (.imageData lead data', n') ∧
          n' ≤ n ∧ data' <+: data) := by
  refine ⟨fun hmarks => ?_, fun position bs _ lead data n hread => ?_⟩
  · obtain heq | hdeparts := scanFrom_true_eq_or_departs (List.drop_zero : source.drop 0 = _) 0
    · rw [tokenize, tokenize, scan, scan, heq]
    obtain ⟨fault, htokens, htokens'⟩ | hlax := assemble_of_departs hdeparts 0 [] []
    · change (scan false source).tokens = .error fault at htokens
      change (scan true source).tokens = .error fault at htokens'
      rw [tokenize_eq, tokenize_eq, htokens, htokens']
      rfl
    · obtain ⟨position, lead, data, stop, b, hmem, hmark, hb, hspace, hbefore⟩ := hlax
      have haccepts : AcceptsMark source position stop := by
        refine ⟨⟨lead, data, hmem⟩, fun p flaw herror => hbefore p flaw ?_, hmark⟩
        rw [tokenize_eq] at herror
        rcases htokens : (scan false source).tokens with fault | tokens
        · rw [htokens] at herror
          rw [← Except.error.inj herror]
          exact htokens
        · rw [htokens] at herror
          cases herror
      rw [hmarks position stop haccepts b hb] at hspace
      cases hspace
  · rw [read_image] at hread ⊢
    exact Lexeme.readImage_of_strict hread

/-- A mark that strict mode passes over has no effect behind a bracket out of place. Tokenizing has
failed there in both modes, before the second image is read. -/
theorem tokenize_true_of_bracket :
    let source : Bytes := [byte 'I', byte 'D', byte ' ', byte 'a', byte ' ', byte 'E', byte 'I',
      byte ' ', byte ']', byte 'I', byte 'D', byte ' ', byte 'b', byte ' ', byte 'E', byte 'I',
      byte '/', byte ' ', byte 'E', byte 'I']
    (∀ position stop, AcceptsMark source position stop →
      ∀ b ∈ source[stop]?, isSpace b = true) ∧
    tokenize true source = tokenize false source ∧
    (∃ data n, Lexeme.read false (byte 'I') (source.drop 10) = .ok (.imageData 3 data, n) ∧
      n ≤ 10 ∧ data <+: [byte 'b', byte ' ', byte 'E', byte 'I', byte '/']) := by
  intro source
  have herror : tokenize false source = .error (.lexical 8 .unbalancedBracket) := by
    with_unfolding_all rfl
  have hlexemes : (scan false source).lexemes = [⟨0, .imageData 3 [byte 'a']⟩, ⟨8, .arrayClose⟩,
      ⟨9, .imageData 3 [byte 'b']⟩, ⟨16, .name []⟩,
      ⟨18, .operator (Operator.ofBytes [byte 'E', byte 'I'])⟩] := by
    with_unfolding_all rfl
  have hmarks : ∀ position stop, AcceptsMark source position stop →
      ∀ b ∈ source[stop]?, isSpace b = true := by
    rintro position stop ⟨⟨lead, data, hmem⟩, hbefore, hmark⟩
    have hlt := hbefore 8 .unbalancedBracket herror
    have hposition : position = 0 := by
      rw [hlexemes] at hmem
      simp only [List.mem_cons, Placed.mk.injEq, List.not_mem_nil, or_false] at hmem
      omega
    subst hposition
    obtain rfl := hmark.unique (markEnds_of_imageLength? (n := 2) rfl rfl)
    exact fun b hb => Option.some.inj hb ▸ rfl
  obtain ⟨hsame, hdata⟩ := tokenize_true source
  refine ⟨hmarks, hsame hmarks, hdata 9 (source.drop 11) rfl 3 _ _ ?_⟩
  rw [read_image]
  rfl

end ContentStream

import ContentStream.Proofs.Carrying

/-!
# Spans

The spans of a program lie where there is something to be found. Those of its strings and names
cover the arena without a gap, each beginning where the one before it ends, however the tokens are
nested in arrays. Those of its inline image data lie in the source, one after the other, with the
mark that ends the data between them. So whatever a token of a program refers to is found there.

Both are seen in the lexemes that the tokens are gathered from. Gathering puts tokens into arrays
but does not change their order: the leaves of the tokens of a program are the tokens of its
lexemes. A string or name is put where the arena has been filled so far. And the data of an inline
image are among the bytes that its lexeme takes.

## Main definitions

* `Span.Consecutive`: spans that cover some bytes without a gap.
* `Span.Apart`: spans that lie in some bytes, one after the other.
* `Span.Separate`: spans that lie apart and do not touch.
* `Token.textSpans`: the spans of all strings and names in some tokens.
* `Token.imageSpans`: the spans of all inline image data in some tokens.
* `Lexeme.Covers`: a reader takes the bytes that inline image data are among.

## Main results

* `leavesAll_assemble`: the leaves of tokens are the tokens of the lexemes.
* `Lexeme.covers_read`: reading a lexeme covers it.
* `consecutive_textSpans`: the spans of strings and names cover the arena.
* `separate_imageSpans`: the spans of inline image data lie apart in the source, and do not touch.
* `spans_of_tokenize`: the spans of a program find what they refer to.
-/

namespace ContentStream

/-! ### Spans one after the other -/

namespace Span

/-- Spans that **cover** the bytes from `start` up to `stop`: each begins where the one before it
ends. -/
def Consecutive : (start : Nat) → List Span → (stop : Nat) → Prop
  | start, [], stop => start = stop
  | start, s :: rest, stop => s.start = start ∧ Consecutive (start + s.length) rest stop

/-- Spans that lie **apart** between `start` and `stop`, one after the other. -/
def Apart : (start : Nat) → List Span → (stop : Nat) → Prop
  | start, [], stop => start ≤ stop
  | start, s :: rest, stop => start ≤ s.start ∧ Apart (s.start + s.length) rest stop

/-- Spans that lie **separate** between `start` and `stop`: each of them ends before a byte that
does not belong to the next one. -/
def Separate : (start : Nat) → List Span → (stop : Nat) → Prop
  | start, [], stop => start ≤ stop
  | start, s :: rest, stop => start ≤ s.start ∧ Separate (s.start + s.length + 1) rest stop

variable {start start' stop : Nat} {spans : List Span}

/-- Spans that cover some bytes lie apart among them. -/
theorem Consecutive.apart (h : Consecutive start spans stop) : Apart start spans stop := by
  induction spans generalizing start with
  | nil => exact Nat.le_of_eq h
  | cons s rest ih =>
      obtain ⟨rfl, hrest⟩ := h
      exact ⟨Nat.le_refl _, ih hrest⟩

namespace Apart

/-- Where spans lie apart, there is room for them. -/
theorem start_le_stop (h : Apart start spans stop) : start ≤ stop := by
  induction spans generalizing start with
  | nil => exact h
  | cons s rest ih => exact Nat.le_trans (Nat.le_add_right_of_le h.1) (ih h.2)

/-- They lie apart between bounds that are further apart, too. -/
theorem of_le (h : Apart start spans stop) (hstart : start' ≤ start) : Apart start' spans stop := by
  cases spans with
  | nil => exact Nat.le_trans hstart h
  | cons s rest => exact ⟨Nat.le_trans hstart h.1, h.2⟩

/-- Each of the spans lies inside. -/
theorem stop_le (h : Apart start spans stop) {s : Span} (hs : s ∈ spans) :
    s.start + s.length ≤ stop := by
  induction spans generalizing start with
  | nil => cases hs
  | cons s' rest ih =>
      obtain rfl | hs := List.mem_cons.mp hs
      · exact h.2.start_le_stop
      · exact ih h.2 hs

end Apart

namespace Separate

/-- So it is with spans that lie separate. -/
theorem of_le (h : Separate start spans stop) (hstart : start' ≤ start) :
    Separate start' spans stop := by
  cases spans with
  | nil => exact Nat.le_trans hstart h
  | cons s rest => exact ⟨Nat.le_trans hstart h.1, h.2⟩

/-- Spans that lie separate lie apart. -/
theorem apart (h : Separate start spans stop) : Apart start spans stop := by
  induction spans generalizing start with
  | nil => exact h
  | cons s rest ih => exact ⟨h.1, (ih h.2).of_le (Nat.le_succ _)⟩

/-- Each of them starts behind the lower bound. -/
theorem start_le (h : Separate start spans stop) {s : Span} (hs : s ∈ spans) : start ≤ s.start := by
  induction spans generalizing start with
  | nil => cases hs
  | cons s' rest ih =>
      obtain rfl | hs := List.mem_cons.mp hs
      · exact h.1
      · have hrest := ih h.2 hs
        have hstart := h.1
        omega

/-- Of any two of the spans, the first one ends before the second one starts. -/
theorem pairwise (h : Separate start spans stop) :
    spans.Pairwise fun s s' => s.start + s.length < s'.start := by
  induction spans generalizing start with
  | nil => exact .nil
  | cons s rest ih => exact .cons (fun s' hs' => h.2.start_le hs') (ih h.2)

end Separate

/-! ### What is found by a span -/

/-- What a span finds that lies inside. -/
theorem of_eq {s : Span} {bytes : Bytes} (h : s.start + s.length ≤ bytes.length) :
    s.of bytes = (bytes.drop s.start).take s.length :=
  if_pos h

/-- A span that lies inside finds as many bytes as it is long. -/
theorem length_of {s : Span} {bytes : Bytes} (h : s.start + s.length ≤ bytes.length) :
    (s.of bytes).length = s.length := by
  rw [of_eq h, List.length_take, List.length_drop]
  omega

/-- Spans that cover some bytes find all of them, by induction on the spans: the first of them is
where the bytes begin, and the others cover the rest. -/
theorem Consecutive.flatten_map_of {bytes : Bytes} (h : Consecutive start spans bytes.length) :
    (spans.map fun s => s.of bytes).flatten = bytes.drop start := by
  induction spans generalizing start with
  | nil =>
      obtain rfl : start = bytes.length := h
      rw [List.drop_length]
      rfl
  | cons s rest ih =>
      have hinside := h.apart.stop_le List.mem_cons_self
      obtain ⟨rfl, hrest⟩ := h
      rw [List.map_cons, List.flatten_cons, ih hrest, of_eq hinside, ← List.drop_drop,
        List.take_append_drop]

/-- What a span finds is found further on if other bytes come before. -/
theorem of_append_left (s : Span) (before bytes : Bytes) :
    Span.of { s with start := s.start + before.length } (before ++ bytes) = s.of bytes := by
  have hinside : s.start + before.length + s.length ≤ (before ++ bytes).length ↔
      s.start + s.length ≤ bytes.length := by
    rw [List.length_append]
    omega
  have hdrop : (before ++ bytes).drop (s.start + before.length) = bytes.drop s.start := by
    rw [Nat.add_comm, List.drop_length_add_append]
  simp only [Span.of, hinside, hdrop]

/-- What lies inside some bytes is found there whatever follows. -/
theorem of_append_right {s : Span} {bytes : Bytes} (h : s.start + s.length ≤ bytes.length)
    (more : Bytes) : s.of (bytes ++ more) = s.of bytes := by
  have hlen : s.start + s.length ≤ (bytes ++ more).length := by
    rw [List.length_append]
    omega
  rw [Span.of, Span.of, if_pos h, if_pos hlen, List.drop_append_of_le_length (by omega),
    List.take_append_of_le_length (by rw [List.length_drop]; omega)]

end Span

/-! ### Spans of tokens -/

namespace Token

/-- The span of a **string or name**. -/
def textSpan? : Token → Option Span
  | .string span => some span
  | .name span => some span
  | _ => none

/-- The span of **inline image data**. -/
def imageSpan? : Token → Option Span
  | .imageData span => some span
  | _ => none

/-- The spans of **all strings and names** in some tokens, at every level, from left to right. -/
def textSpans (ts : List Token) : List Span :=
  (leavesAll ts).filterMap textSpan?

/-- The spans of **all inline image data** in some tokens, at every level, from left to right. -/
def imageSpans (ts : List Token) : List Span :=
  (leavesAll ts).filterMap imageSpan?

end Token

/-! ### Gathering keeps the order -/

/-- The **tokens of lexemes**, brackets of arrays apart. -/
def placedLeaves : (used : Nat) → List Placed → List Token
  | _, [] => []
  | used, ⟨position, lexeme⟩ :: rest =>
    (lexeme.token? position used).toList ++ placedLeaves (used + lexeme.decoded.length) rest

/-- The leaves that have been **gathered so far**, on all levels that are open. -/
def gathered : (level : List Token) → (outer : List (List Token)) → List Token
  | level, [] => Token.leavesAll level.reverse
  | level, around :: outer => gathered around outer ++ Token.leavesAll level.reverse

/-- The leaves of tokens, one list after the other. -/
theorem Token.leavesAll_append (ts ts' : List Token) :
    leavesAll (ts ++ ts') = leavesAll ts ++ leavesAll ts' := by
  simp only [leavesAll_eq_flatMap, List.flatMap_append]

/-- A token that is gathered brings its leaves, which come last. -/
theorem gathered_cons (t : Token) (level : List Token) (outer : List (List Token)) :
    gathered (t :: level) outer = gathered level outer ++ t.leaves := by
  have hlevel : Token.leavesAll (t :: level).reverse =
      Token.leavesAll level.reverse ++ t.leaves := by
    rw [List.reverse_cons, Token.leavesAll_append, Token.leavesAll, Token.leavesAll,
      List.append_nil]
  cases outer with
  | nil => exact hlevel
  | cons around outer => rw [gathered, hlevel, gathered, List.append_assoc]

/-- A lexeme makes a token that is a leaf. -/
theorem Lexeme.leaves_of_token? {lexeme : Lexeme} {position used : Nat} {t : Token}
    (h : lexeme.token? position used = some t) : t.leaves = [t] := by
  cases lexeme with
  | arrayOpen | arrayClose => cases h
  | _ =>
      obtain rfl := Option.some.inj h
      rfl

/-- So does the token of a lexeme, which is its own leaf. -/
theorem gathered_token? (lexeme : Lexeme) (position used : Nat) (level : List Token)
    (outer : List (List Token)) :
    gathered ((lexeme.token? position used).toList ++ level) outer =
      gathered level outer ++ (lexeme.token? position used).toList := by
  rcases h : lexeme.token? position used with _ | t
  · exact (List.append_nil _).symm
  · rw [Option.toList_some, List.singleton_append, gathered_cons, Lexeme.leaves_of_token? h]

/-- The leaves of the tokens that are gathered from lexemes are those gathered before, and the
tokens of the lexemes. Brackets of arrays move tokens from one level to another, and their leaves
stay in order. -/
theorem leavesAll_assemble {used : Nat} {level tokens : List Token} {outer : List (List Token)}
    {lexemes : List Placed} {stop : Stop}
    (h : assemble used level outer lexemes stop = .ok tokens) :
    Token.leavesAll tokens = gathered level outer ++ placedLeaves used lexemes := by
  fun_induction assemble used level outer lexemes stop with
  | case1 used level position =>
      obtain rfl := Except.ok.inj h
      exact (List.append_nil _).symm
  | case2 used level around outer position => cases h
  | case3 used level outer position flaw => cases h
  | case4 used level outer position rest stop ih =>
      rw [ih h, gathered]
      exact congrArg (· ++ _) (List.append_nil _)
  | case5 used level position rest stop => cases h
  | case6 used level position rest stop around outer ih =>
      rw [ih h, gathered_cons]
      rfl
  | case7 used level outer position rest stop lexeme hopen hclose ih =>
      rw [ih h, gathered_token?, List.append_assoc]
      rfl

/-! ### Strings and names -/

/-- The strings and names of lexemes **fill the arena**, one after the other. Each of them has the
span that begins where the last one has ended. -/
theorem consecutive_placedLeaves (used : Nat) (lexemes : List Placed) :
    Span.Consecutive used ((placedLeaves used lexemes).filterMap Token.textSpan?)
      (used + (lexemes.flatMap fun x => x.lexeme.decoded).length) := by
  induction lexemes generalizing used with
  | nil => rfl
  | cons x rest ih =>
      obtain ⟨position, lexeme⟩ := x
      have hrest := ih (used + lexeme.decoded.length)
      rw [Nat.add_assoc, ← List.length_append] at hrest
      rw [placedLeaves, List.filterMap_append, List.flatMap_cons]
      cases lexeme with
      | string bytes | name bytes => exact ⟨rfl, hrest⟩
      | _ => exact hrest

/-! ### Inline image data -/

namespace Lexeme

/-- How far inline image data **reach** beyond the start of their lexeme. -/
def extent : Lexeme → Nat
  | .imageData lead data => lead + data.length
  | _ => 0

/-- A reader **covers** its lexemes if inline image data are among the bytes that it takes, and not
the last of them. -/
def Covers (reader : Bytes → Reading) : Prop :=
  ∀ a lexeme n, reader a = .ok (lexeme, n) → lexeme.extent ≤ n

namespace Covers

variable {reader reader' : Bytes → Reading}

/-- A reader that makes a choice covers its lexemes if both of the others do. -/
theorem ite {c : Bytes → Prop} [∀ a, Decidable (c a)] (h : Covers reader) (h' : Covers reader') :
    Covers fun a => if c a then reader a else reader' a := by
  intro a lexeme n ha
  by_cases hc : c a
  · simp only [hc, if_true] at ha
    exact h a lexeme n ha
  · simp only [hc, if_false] at ha
    exact h' a lexeme n ha

/-- A lexeme that is no inline image data is covered in any case. -/
theorem of_extent (h : ∀ a lexeme n, reader a = .ok (lexeme, n) → lexeme.extent = 0) :
    Covers reader := by
  intro a lexeme n ha
  rw [h a lexeme n ha]
  exact Nat.zero_le _

/-- A reader that never fails does so if its lexemes are no inline image data. -/
theorem ok {f : Bytes → Lexeme × Nat} (hf : ∀ a, (f a).1.extent = 0) :
    Covers fun a => .ok (f a) := by
  refine of_extent fun a lexeme n ha => ?_
  have hlexeme : (f a).1 = lexeme := congrArg Prod.fst (Except.ok.inj ha)
  exact hlexeme ▸ hf a

end Covers

/-- Literal strings are no inline image data, so there is nothing to be covered by what is taken.
They have their bytes in the arena. -/
theorem covers_readLiteral : Covers readLiteral := by
  refine .of_extent fun a lexeme n h => ?_
  rw [readLiteral] at h
  cases hn : literalLength? 0 a with
  | none =>
      rw [hn] at h
      cases h
  | some k =>
      rw [hn] at h
      cases h
      rfl

/-- Neither are hexadecimal strings, however their digits end: with the bracket, with another byte,
which is an error, or with the source. -/
theorem covers_readHex : Covers readHex := by
  refine .of_extent fun a lexeme n h => ?_
  simp only [readHex] at h
  generalize a.takeWhile (fun b => isSpace b || (hexValue? b).isSome) = body at h
  rcases hrest : a.drop body.length with _ | ⟨x, rest⟩
  · rw [hrest] at h
    cases h
  · rw [hrest] at h
    by_cases hx : (x == byte '>') = true
    · simp only [hx, if_true, Except.ok.injEq, Prod.mk.injEq] at h
      exact h.1 ▸ rfl
    · simp [hx] at h

/-- Neither are names. -/
theorem covers_readName : Covers readName :=
  .ok fun _ => rfl

/-- Neither are numbers. The run of digits and points may be none that makes a number, which is an
error and no lexeme at all. -/
theorem covers_readNumber (x : UInt8) : Covers (readNumber x) := by
  refine .of_extent fun a lexeme n h => ?_
  simp only [readNumber] at h
  -- Whatever the run of digits is, it makes a number, or none at all.
  generalize (if (x == byte '+' || x == byte '-') = true then 1 else 0) = sign at h
  generalize (if (x == byte '+' || x == byte '-') = true then a else x :: a) = text at h
  split at h
  · cases h
  · split at h <;> cases h
    rfl

/-- Inline image data are among the bytes that are taken, with the mark that ends them behind. The
space in front of them may be skipped. -/
theorem covers_readImage (strict : Bool) : Covers (readImage strict) := by
  intro a lexeme n h
  rw [readImage] at h
  cases hk : imageLength? strict a with
  | none => simp [hk] at h
  | some k =>
      simp only [hk, Except.ok.injEq, Prod.mk.injEq] at h
      obtain ⟨rfl, rfl⟩ := h
      simp only [extent, List.length_drop, List.length_take]
      split <;> omega

/-- Reading a lexeme covers it. The cases are those of the first byte, then those of the words that
are no operators. -/
theorem covers_read (strict : Bool) (x : UInt8) : Covers (read strict x) :=
  have hfixed {lexeme : Lexeme} {n : Nat} (h : lexeme.extent = 0) :
      Covers fun _ => .ok (lexeme, n) := .ok fun _ => h
  .ite covers_readLiteral <| .ite (.ite (hfixed rfl) covers_readHex) <| .ite (hfixed rfl) <|
    .ite (hfixed rfl) <| .ite (hfixed rfl) <| .ite covers_readName <| .ite (covers_readNumber x) <|
    .ite (hfixed rfl) <| .ite (hfixed rfl) <|
    .ite (fun a => covers_readImage strict (a.drop 1)) (.ok fun _ => rfl)

end Lexeme

/-- The inline image data of a scan lie one after the other among the bytes scanned. The induction
is that of the scan, which goes on behind each lexeme. -/
theorem separate_scanFrom {strict : Bool} {position passed : Nat} {bs : Bytes}
    (hpassed : passed ≤ bs.length) (used : Nat) :
    Span.Separate (position + passed)
      ((placedLeaves used (scanFrom strict position passed bs).lexemes).filterMap Token.imageSpan?)
      (position + bs.length) := by
  fun_induction scanFrom strict position passed bs generalizing used with
  | case1 passed position => exact Nat.add_le_add_left hpassed position
  | case2 position passed x bs ih =>
      have hrest := ih (Nat.le_of_succ_le_succ hpassed) used
      rw [Nat.add_right_comm, Nat.add_right_comm _ 1 bs.length] at hrest
      exact hrest
  | case3 position x bs hspace ih =>
      have hrest := ih (Nat.zero_le _) used
      rw [Nat.add_right_comm _ 1 bs.length] at hrest
      exact hrest.of_le (Nat.le_succ position)
  | case4 position x bs hspace hcomment ih =>
      have hrest := ih (List.takeWhile_prefix _).length_le used
      rw [Nat.add_right_comm _ 1 bs.length] at hrest
      exact hrest.of_le (by omega)
  | case5 position x bs hspace hcomment offset flaw hread => exact Nat.le_add_right _ _
  | case6 position x bs hspace hcomment lexeme passed hread ih =>
      have hrest := ih (Lexeme.isLocal_read strict x bs lexeme passed hread).1
        (used + lexeme.decoded.length)
      rw [Nat.add_right_comm _ 1 bs.length] at hrest
      have hextent := Lexeme.covers_read strict x bs lexeme passed hread
      simp only [Scan.cons, placedLeaves, List.filterMap_append]
      cases lexeme with
      | imageData lead data =>
          simp only [Lexeme.extent] at hextent
          exact ⟨Nat.le_add_right _ _, hrest.of_le (by dsimp only; omega)⟩
      | _ => exact hrest.of_le (by omega)

/-! ### Spans of programs -/

section Programs

variable {strict : Bool} {source : Bytes} {p : Program}

/-- The leaves of a program are the tokens of its lexemes. -/
theorem leavesAll_tokenize (h : tokenize strict source = .ok p) :
    p.source = source ∧ p.arena = (scan strict source).arena ∧
      Token.leavesAll p.tokens = placedLeaves 0 (scan strict source).lexemes := by
  obtain ⟨hsource, harena, htokens⟩ := scan_of_tokenize h
  exact ⟨hsource, harena, leavesAll_assemble htokens⟩

/-- The spans of the strings and names of a program **cover its arena**. -/
theorem consecutive_textSpans (h : tokenize strict source = .ok p) :
    Span.Consecutive 0 (Token.textSpans p.tokens) p.arena.length := by
  obtain ⟨-, harena, hleaves⟩ := leavesAll_tokenize h
  have hspans := consecutive_placedLeaves 0 (scan strict source).lexemes
  rw [Nat.zero_add] at hspans
  rw [Token.textSpans, hleaves, harena]
  exact hspans

/-- The spans of the inline image data of a program lie **separate in its source**. -/
theorem separate_imageSpans (h : tokenize strict source = .ok p) :
    Span.Separate 0 (Token.imageSpans p.tokens) p.source.length := by
  obtain ⟨hsource, -, hleaves⟩ := leavesAll_tokenize h
  have hspans : Span.Separate (0 + 0) ((placedLeaves 0 (scan strict source).lexemes).filterMap
      Token.imageSpan?) (0 + source.length) := separate_scanFrom (Nat.zero_le source.length) 0
  rw [Nat.zero_add, Nat.zero_add] at hspans
  rw [Token.imageSpans, hleaves, hsource]
  exact hspans

/-- The spans of the inline image data of a program lie apart in its source. -/
theorem apart_imageSpans (h : tokenize strict source = .ok p) :
    Span.Apart 0 (Token.imageSpans p.tokens) p.source.length :=
  (separate_imageSpans h).apart

end Programs

/-- **The spans of a program find what they refer to.** Those of its strings and names, at every
level and from left to right, cover the arena: the first one starts at its beginning, each begins
where the one before it ends, and the last one ends where the arena does, so that together they find
the arena itself. Those of its inline image data lie in the source, each of them behind the end of
the one before. None of them is out of range, and so each finds as many bytes as it is long. -/
theorem spans_of_tokenize {strict : Bool} {source : Bytes} {p : Program}
    (h : tokenize strict source = .ok p) :
    p.source = source ∧
    Span.Consecutive 0 (Token.textSpans p.tokens) p.arena.length ∧
    ((Token.textSpans p.tokens).map p.decoded).flatten = p.arena ∧
    (∀ s ∈ Token.textSpans p.tokens, s.start + s.length ≤ p.arena.length ∧
      p.decoded s = (p.arena.drop s.start).take s.length ∧ (p.decoded s).length = s.length) ∧
    (Token.imageSpans p.tokens).Pairwise (fun s s' => s.start + s.length < s'.start) ∧
    ∀ s ∈ Token.imageSpans p.tokens, s.start + s.length ≤ source.length ∧
      p.raw s = (source.drop s.start).take s.length ∧ (p.raw s).length = s.length := by
  have hsource : p.source = source := (leavesAll_tokenize h).1
  have htexts := consecutive_textSpans h
  have himages := separate_imageSpans h
  rw [hsource] at himages
  refine ⟨hsource, htexts, ?_, fun s hs => ?_, himages.pairwise, fun s hs => ?_⟩
  · rw [← p.arena.drop_zero]
    exact htexts.flatten_map_of
  · have hinside := htexts.apart.stop_le hs
    exact ⟨hinside, Span.of_eq hinside, Span.length_of hinside⟩
  · have hinside := himages.apart.stop_le hs
    rw [Program.raw, hsource]
    exact ⟨hinside, Span.of_eq hinside, Span.length_of hinside⟩

namespace TwoImages

/-- A string, a name on a level of its own, and **two images**, of which the second has no data. -/
def source : Bytes := Utf8.encode "[(a) [/B#43] ID x EI] ID EI"

/-- The **program** of the source. -/
def program : Program where
  source := source
  arena := [0x61, 0x42, 0x43]
  tokens := [.array [.string ⟨0, 1⟩, .array [.name ⟨1, 2⟩], .imageData ⟨16, 1⟩],
    .imageData ⟨25, 0⟩]

/-- The source is tokenized to the program. -/
theorem tokenize_source : tokenize false source = .ok program := by
  with_unfolding_all rfl

end TwoImages

open TwoImages in
/-- The name is found behind the string, and the data that are empty behind the mark that ends the
others. -/
theorem spans_of_tokenize_of_images :
    tokenize false source = .ok program ∧
    Span.Consecutive 0 [⟨0, 1⟩, ⟨1, 2⟩] 3 ∧ program.decoded ⟨1, 2⟩ = [0x42, 0x43] ∧
    [⟨16, 1⟩, ⟨25, 0⟩].Pairwise (fun s s' : Span => s.start + s.length < s'.start) ∧
    (program.raw ⟨16, 1⟩).length = 1 ∧ (program.raw ⟨25, 0⟩).length = 0 := by
  obtain ⟨-, htexts, -, hdecoded, hapart, hraw⟩ := spans_of_tokenize tokenize_source
  exact ⟨tokenize_source, htexts, (hdecoded ⟨1, 2⟩ (.tail _ (.head _))).2.1, hapart,
    (hraw ⟨16, 1⟩ (.head _)).2.2, (hraw ⟨25, 0⟩ (.tail _ (.head _))).2.2⟩

end ContentStream

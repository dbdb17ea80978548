import ContentStream.Instruction
import ContentStream.Proofs.Concatenation

/-!
# Carrying tokens over

A token means what it means by the program that it stands in: strings, names and image data are
found there by their spans. If the tokens of one program are carried over into another, in which
their spans begin further on, and if the same bytes are found there, they mean the same. The
operands and objects that they stand for are the same, and so are the instructions.

One thing is not the same. What is wrong with an inline image is said by quoting a token, and a
token is quoted with its span.

## Main definitions

* `Token.leaves`: a token without the arrays around it.
* `Program.Carries`: tokens of one program are found in another, further on.
* `ImageFlaw.shift`: a flaw that quotes a token further on.

## Main results

* `Operand.ofToken_shift`: operands are carried over.
* `InlineImage.readEntries_shift`: and so are inline images, but for the tokens that are quoted.
-/

namespace ContentStream

/-! ### Leaves -/

mutual

/-- The **leaves of a token**, from left to right: the tokens in it that are no arrays. -/
def Token.leaves : Token → List Token
  | .array items => Token.leavesAll items
  | .operator op => [.operator op]
  | .string span => [.string span]
  | .number numeral => [.number numeral]
  | .name span => [.name span]
  | .dictOpen => [.dictOpen]
  | .dictClose => [.dictClose]
  | .boolean value => [.boolean value]
  | .imageData span => [.imageData span]

/-- The **leaves of some tokens**, from left to right. -/
def Token.leavesAll : List Token → List Token
  | [] => []
  | t :: ts => t.leaves ++ Token.leavesAll ts

end

/-- The leaves of some tokens are the leaves of each, one after the other. -/
theorem Token.leavesAll_eq_flatMap (ts : List Token) :
    Token.leavesAll ts = ts.flatMap Token.leaves := by
  induction ts with
  | nil => rfl
  | cons t ts ih => rw [leavesAll, ih, List.flatMap_cons]

mutual

/-- No further on is where a token is. The induction is on tokens, together with the lists in
arrays. -/
theorem Token.shift_zero (t : Token) : t.shift 0 0 = t := by
  cases t with
  | array items => exact congrArg Token.array (Token.shiftAll_zero items)
  | _ => rfl

/-- No further on is where tokens are. -/
theorem Token.shiftAll_zero (ts : List Token) : Token.shiftAll 0 0 ts = ts := by
  cases ts with
  | nil => rfl
  | cons t ts => rw [Token.shiftAll, Token.shift_zero, Token.shiftAll_zero]

end

/-! ### Programs that carry tokens -/

/-- What a leaf stands for in the program `p` is found in the program `r`, **further on**. -/
def Token.CarriedOver (p r : Program) (arena source : Nat) : Token → Prop
  | .string span => r.decoded { span with start := span.start + arena } = p.decoded span
  | .name span => r.decoded { span with start := span.start + arena } = p.decoded span
  | .imageData span => r.raw { span with start := span.start + source } = p.raw span
  | _ => True

/-- The program `r` **carries** tokens of the program `p`: what they stand for is found there, that
in the arena `arena` bytes further on, and that in the source `source` bytes. -/
def Program.Carries (p r : Program) (arena source : Nat) (ts : List Token) : Prop :=
  ∀ t ∈ Token.leavesAll ts, t.CarriedOver p r arena source

namespace Program.Carries

variable {p r : Program} {arena source : Nat} {t : Token} {ts : List Token}

/-- The first of the tokens is carried over, with all its leaves. -/
theorem head (h : p.Carries r arena source (t :: ts)) :
    ∀ leaf ∈ t.leaves, leaf.CarriedOver p r arena source :=
  fun leaf hleaf => h leaf (List.mem_append_left _ hleaf)

/-- So are those that follow it. -/
theorem tail (h : p.Carries r arena source (t :: ts)) : p.Carries r arena source ts :=
  fun leaf hleaf => h leaf (List.mem_append_right _ hleaf)

end Program.Carries

/-! ### Carrying on -/

section CarryingOn

variable {p q r : Program} {arena source arena' source' : Nat} {ts : List Token}

mutual

/-- A token is found further on and further on again: the two distances add up. -/
theorem Token.shift_shift (arena source arena' source' : Nat) (t : Token) :
    (t.shift arena source).shift arena' source' = t.shift (arena + arena') (source + source') := by
  cases t with
  | array items =>
      exact congrArg Token.array (Token.shiftAll_shiftAll arena source arena' source' items)
  | _ => simp only [Token.shift, Nat.add_assoc]

/-- So are the tokens of a list. -/
theorem Token.shiftAll_shiftAll (arena source arena' source' : Nat) (ts : List Token) :
    Token.shiftAll arena' source' (Token.shiftAll arena source ts) =
      Token.shiftAll (arena + arena') (source + source') ts := by
  cases ts with
  | nil => rfl
  | cons t ts =>
      rw [Token.shiftAll, Token.shiftAll, Token.shiftAll, Token.shift_shift,
        Token.shiftAll_shiftAll]

end

mutual

/-- The leaves of a token further on are its leaves, further on. -/
theorem Token.leaves_shift (arena source : Nat) (t : Token) :
    (t.shift arena source).leaves = t.leaves.map (Token.shift arena source) := by
  cases t with
  | array items => exact Token.leavesAll_shiftAll arena source items
  | _ => rfl

/-- So are those of some tokens. -/
theorem Token.leavesAll_shiftAll (arena source : Nat) (ts : List Token) :
    Token.leavesAll (Token.shiftAll arena source ts) =
      (Token.leavesAll ts).map (Token.shift arena source) := by
  cases ts with
  | nil => rfl
  | cons t ts =>
      rw [Token.shiftAll, Token.leavesAll, Token.leavesAll, List.map_append, Token.leaves_shift,
        Token.leavesAll_shiftAll]

end

namespace Program.Carries

/-- Tokens that are carried over are carried on. What is found so far on in the second program, and
as far on again in the third, is found there at both distances together. -/
theorem trans (h : p.Carries q arena source ts)
    (h' : q.Carries r arena' source' (Token.shiftAll arena source ts)) :
    p.Carries r (arena + arena') (source + source') ts := by
  intro t ht
  have hfirst := h t ht
  have hsecond := h' (t.shift arena source) (by
    rw [Token.leavesAll_shiftAll]
    exact List.mem_map_of_mem ht)
  cases t with
  | string span | name span | imageData span =>
      rw [Token.CarriedOver, ← Nat.add_assoc]
      exact hsecond.trans hfirst
  | _ => trivial

/-- Tokens that are carried over into two programs are carried over from one to the other, if the
second is further on than the first. -/
theorem between (h : p.Carries q arena source ts)
    (h' : p.Carries r (arena + arena') (source + source') ts) :
    q.Carries r arena' source' (Token.shiftAll arena source ts) := by
  intro t ht
  rw [Token.leavesAll_shiftAll] at ht
  obtain ⟨leaf, hleaf, rfl⟩ := List.mem_map.mp ht
  have hfirst := h leaf hleaf
  have hsecond := h' leaf hleaf
  cases leaf with
  | string span | name span | imageData span =>
      rw [Token.CarriedOver, ← Nat.add_assoc] at hsecond
      exact hsecond.trans hfirst.symm
  | _ => trivial

end Program.Carries

end CarryingOn

section Shifting

variable {p r : Program} {arena source : Nat}

/-- A name is carried over: the text of its span is the same, further on. -/
theorem Program.text_shift {span : Span}
    (h : ∀ leaf ∈ Token.leaves (.name span), leaf.CarriedOver p r arena source) :
    r.text { span with start := span.start + arena } = p.text span :=
  congrArg Utf8.decode (h _ List.mem_cons_self)

mutual

/-- An operand is carried over. The induction is on tokens; those that are not found by a span are
what they are anywhere. -/
theorem Operand.ofToken_shift {t : Token}
    (h : ∀ leaf ∈ t.leaves, leaf.CarriedOver p r arena source) :
    Operand.ofToken r (t.shift arena source) = Operand.ofToken p t := by
  cases t with
  | string span => exact congrArg Operand.string (h _ List.mem_cons_self)
  | name span => exact congrArg Operand.name (Program.text_shift h)
  | array items => exact congrArg Operand.array (Operand.ofTokens_shift h)
  | _ => rfl

/-- So are the operands in an array. -/
theorem Operand.ofTokens_shift {ts : List Token} (h : p.Carries r arena source ts) :
    Operand.ofTokens r (Token.shiftAll arena source ts) = Operand.ofTokens p ts := by
  cases ts with
  | nil => rfl
  | cons t ts =>
      rw [Token.shiftAll, Operand.ofTokens, Operand.ofTokens, Operand.ofToken_shift h.head,
        Operand.ofTokens_shift h.tail]

end

/-! ### Inline images -/

section

variable {ε ε' α : Type}

/-- A result is not changed with the faults. -/
theorem mapError_ok (f : ε → ε') (a : α) : (Except.ok a : Except ε α).mapError f = .ok a :=
  rfl

/-- A fault is what is changed. -/
theorem mapError_error (f : ε → ε') (e : ε) :
    (Except.error e : Except ε α).mapError f = .error (f e) :=
  rfl

end

/-- A flaw that **quotes a token further on**. -/
def ImageFlaw.shift (arena source : Nat) : ImageFlaw → ImageFlaw
  | .notAKey token => .notAKey (token.shift arena source)
  | .notAValue token => .notAValue (token.shift arena source)
  | .notANestedKey token => .notANestedKey (token.shift arena source)
  | flaw => flaw

/-- No further on, a flaw is the flaw that it is. -/
theorem ImageFlaw.shift_zero (flaw : ImageFlaw) : flaw.shift 0 0 = flaw := by
  cases flaw with
  | notAKey token => exact congrArg ImageFlaw.notAKey token.shift_zero
  | notAValue token => exact congrArg ImageFlaw.notAValue token.shift_zero
  | notANestedKey token => exact congrArg ImageFlaw.notANestedKey token.shift_zero
  | _ => rfl

namespace InlineImage

/-- An image that ends too early quotes no token, and is no different further on. -/
theorem endFlaw_shift (around : List Open) :
    (endFlaw around).shift arena source = endFlaw around := by
  unfold endFlaw
  split <;> rfl

/-- Taking in a token is the same further on. With the token comes its value, or what is wrong with
it, and that is quoted further on. -/
theorem feed_shift {t : Token} (h : ∀ leaf ∈ t.leaves, leaf.CarriedOver p r arena source)
    (value : Except ImageFlaw Object) (around : List Open) :
    feed r (t.shift arena source) (value.mapError (ImageFlaw.shift arena source)) around =
      (feed p t value around).mapError (ImageFlaw.shift arena source) := by
  rcases around with _ | ⟨⟨dict, _ | key⟩, around⟩
  · cases t with
    | dictOpen => rfl
    | _ => cases value <;> rfl
  · cases t with
    | name span =>
        simp only [Token.shift, feed, Program.text_shift h]
        rfl
    | _ => rfl
  · cases t with
    | dictOpen => rfl
    | _ => cases value <;> rfl

mutual

/-- The object of a token is carried over. An array that is taken apart has its items carried over
one by one, which is an induction on the tokens that are left. -/
theorem valueOf_shift {t : Token} (h : ∀ leaf ∈ t.leaves, leaf.CarriedOver p r arena source) :
    valueOf r (t.shift arena source) =
      (valueOf p t).mapError (ImageFlaw.shift arena source) := by
  cases t with
  | string span =>
      simp only [Token.shift, valueOf]
      exact congrArg (fun bytes => Except.ok (Object.string bytes)) (h _ List.mem_cons_self)
  | name span =>
      simp only [Token.shift, valueOf, Program.text_shift h]
      rfl
  | array items =>
      simp only [Token.shift, valueOf, readItems_shift [] [] h]
      cases readItems p [] [] items <;> rfl
  | _ => rfl

/-- So are the items of an array or a dictionary that is open, and what is wrong with them. The
recursion is mutual with that of `valueOf_shift`, on the tokens that are left. -/
theorem readItems_shift {ts : List Token} (around : List Open) (items : List Object)
    (h : p.Carries r arena source ts) :
    readItems r around items (Token.shiftAll arena source ts) =
      (readItems p around items ts).mapError (ImageFlaw.shift arena source) := by
  cases ts with
  | nil =>
      cases around with
      | nil => rfl
      | cons o around =>
          simp only [Token.shiftAll, readItems, mapError_error, endFlaw_shift]
  | cons t ts =>
      -- The token is fed with its value further on, which is its value with what it quotes shifted.
      have hfeed := feed_shift h.head (valueOf p t) around
      rw [← valueOf_shift h.head] at hfeed
      simp only [Token.shiftAll, readItems, hfeed]
      rcases feed p t (valueOf p t) around with flaw | ⟨around', _ | value⟩
      · rfl
      · exact readItems_shift around' items h.tail
      · exact readItems_shift around' (value :: items) h.tail

end

/-- So is an object that begins here, and what is wrong with it. It is followed along the tokens
that it takes, with the arrays and dictionaries that are open at each of them. -/
theorem readObject_shift {ts : List Token} (around : List Open)
    (h : p.Carries r arena source ts) :
    readObject r around (Token.shiftAll arena source ts) =
      (readObject p around ts).mapError (ImageFlaw.shift arena source) := by
  induction ts generalizing around with
  | nil => simp only [Token.shiftAll, readObject, mapError_error, endFlaw_shift]
  | cons t ts ih =>
      have hfeed := feed_shift h.head (valueOf p t) around
      rw [← valueOf_shift h.head] at hfeed
      simp only [Token.shiftAll, readObject, hfeed]
      rcases feed p t (valueOf p t) around with flaw | ⟨around', _ | value⟩
      · rfl
      · simp only [mapError_ok, ih around' h.tail]
        cases readObject p around' ts <;> rfl
      · rfl

/-- The dictionary and data of an inline image are carried over, and what is wrong with one is said
further on. -/
theorem readEntries_shift {ts : List Token} (passed : Nat) (dict : Dict)
    (h : p.Carries r arena source ts) :
    readEntries r passed dict (Token.shiftAll arena source ts) =
      (readEntries p passed dict ts).mapError (ImageFlaw.shift arena source) := by
  induction ts generalizing passed dict with
  | nil => rfl
  | cons t ts ih =>
      cases passed with
      | succ passed =>
          simp only [Token.shiftAll, readEntries, ih _ _ h.tail]
          cases readEntries p passed dict ts <;> rfl
      | zero =>
          cases t with
          | imageData span =>
              simp only [Token.shiftAll, Token.shift, readEntries]
              exact congrArg (fun data => Except.ok (Spelled.mk _ data 1))
                (h _ List.mem_cons_self)
          | name span =>
              simp only [Token.shiftAll, Token.shift, readEntries, readObject_shift [] h.tail,
                Program.text_shift h.head]
              rcases readObject p [] ts with flaw | ⟨value, n⟩
              · rfl
              · simp only [mapError_ok, ih _ _ h.tail]
                cases readEntries p n (addEntry dict (p.text span) value) ts <;> rfl
          | _ => rfl

end InlineImage

end Shifting

end ContentStream

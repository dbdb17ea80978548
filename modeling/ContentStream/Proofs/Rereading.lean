import ContentStream.Proofs.Flattening
import ContentStream.Proofs.Listed

/-!
# Reading a listing again

The text listing of a program shows its tokens much as they are written in a content stream. So it
can be tokenized itself, and one might expect the same tokens. They come out the same exactly if
each token *can be listed*, and this can be told of each token alone.

A listing writes the bytes of a string with escapes of its own. Those for bytes that are not
printable are no escapes of a literal string, and parentheses have none at all, so that they have to
nest. It writes a name as text without any escape, and the items of an array without a space before
the closing bracket, which does not end an operator. Numbers are written with digits enough to tell
them apart, but the lexer adds digits up one by one and may round on the way.

A text *spells lexemes if* a condition holds, in front of given bytes: a scan that comes to the text
reads exactly the lexemes from it if the condition holds, and does not come to an end with them
otherwise, whatever follows. Such statements can be put one behind the other as the texts are. Each
leaf has its own, and arrays and lines are made of those.

## Main definitions

* `SpellsIf`: a text spells lexemes exactly under a condition.
* `Token.IsListable`: the condition for a token.

## Main results

* `spellsIf_string`, `spellsIf_name`, `spellsIf_number`, `spellsIf_operator`: the leaves of a
  listing.
* `Token.spellsIf_write`: a token of a listing, with arrays nested to any depth.
* `Program.encode_listing`: a listing is made of its tokens, with a byte of white space behind each.
* `exists_tokenize_listing_iff`: a listing is read as the tokens listed exactly if they can be
  listed.
-/

namespace ContentStream

/-! ### Spelling lexemes -/

/-- What a scan spells is told lexeme by lexeme. -/
theorem Scan.spells_cons {s : Scan} {x : Placed} {lexeme : Lexeme} {more : List Lexeme} :
    (s.cons x).Spells (lexeme :: more) ↔ lexeme.Alike x.lexeme ∧ s.Spells more := by
  constructor
  · rintro ⟨halike, hfinished⟩
    rw [Scan.cons, List.map_cons, List.forall₂_cons] at halike
    exact ⟨halike.1, halike.2, hfinished⟩
  · rintro ⟨hx, halike, hfinished⟩
    exact ⟨.cons hx halike, hfinished⟩

/-- A text in front of further bytes **spells lexemes if** a condition holds: a scan that comes to
the text spells these and others exactly if the condition holds and the scan behind the text spells
the others. -/
def SpellsIf (strict : Bool) (text tail : Bytes) (lexemes : List Lexeme) (good : Prop) : Prop :=
  ∀ position more, (scanFrom strict position 0 (text ++ tail)).Spells (lexemes ++ more) ↔
    good ∧ (scanFrom strict (position + text.length) 0 tail).Spells more

namespace SpellsIf

variable {strict : Bool} {text text' tail : Bytes} {lexemes lexemes' : List Lexeme}
variable {lexeme : Lexeme} {good good' : Prop}

/-- No text spells no lexemes. -/
theorem nil : SpellsIf strict [] tail [] True :=
  fun _ _ => iff_of_eq (true_and _).symm

/-- A condition may be put in other words. -/
theorem congr (h : SpellsIf strict text tail lexemes good) (hiff : good ↔ good') :
    SpellsIf strict text tail lexemes good' := by
  rwa [propext hiff] at h

/-- Texts one after the other spell their lexemes one after the other. -/
theorem append (h : SpellsIf strict text (text' ++ tail) lexemes good)
    (h' : SpellsIf strict text' tail lexemes' good') :
    SpellsIf strict (text ++ text') tail (lexemes ++ lexemes') (good ∧ good') := by
  intro position more
  rw [List.append_assoc, List.append_assoc, h, h', List.length_append, Nat.add_assoc, and_assoc]

/-- White space spells nothing. -/
theorem space {s : UInt8} (hs : isSpace s = true) : SpellsIf strict [s] tail [] True := by
  intro position more
  rw [List.singleton_append, scanFrom, if_pos hs, true_and]
  rfl

/-- A text that is read as a lexeme spells those that it comes to the same as. -/
theorem of_reads {lexeme' : Lexeme} (h : Lexeme.Reads strict text tail lexeme') :
    SpellsIf strict text tail [lexeme] (lexeme.Alike lexeme') := by
  intro position more
  rw [h.scanFrom_append, List.singleton_append, Scan.spells_cons]

/-- What is read of a text, all of it if the condition holds, settles what it spells. Without the
condition it is enough that no lexeme alike is read, however much of the text it takes. -/
theorem of_read {b : UInt8} {bs : Bytes} (hspace : isSpace b = false) (hcomment : b ≠ byte '%')
    (hgood : good → ∃ lexeme', Lexeme.read strict b (bs ++ tail) = .ok (lexeme', bs.length) ∧
      lexeme.Alike lexeme')
    (hbad : ∀ lexeme' n, Lexeme.read strict b (bs ++ tail) = .ok (lexeme', n) →
      lexeme.Alike lexeme' → good) : SpellsIf strict (b :: bs) tail [lexeme] good := by
  by_cases h : good
  · obtain ⟨lexeme', hread, halike⟩ := hgood h
    have hreads : Lexeme.Reads strict (b :: bs) tail lexeme' :=
      ⟨b, bs, rfl, hspace, hcomment, hread⟩
    exact (of_reads hreads).congr ⟨fun _ => h, fun _ => halike⟩
  · refine fun position more => iff_of_false ?_ fun hand => h hand.1
    rw [List.cons_append, scanFrom, hspace, beq_false_of_ne hcomment]
    rcases hread : Lexeme.read strict b (bs ++ tail) with ⟨offset, flaw⟩ | ⟨lexeme', n⟩
    · rintro ⟨halike, -⟩
      cases halike
    · exact fun hspells => h (hbad lexeme' n hread (Scan.spells_cons.mp hspells).1)

/-- A lexeme that nothing comes to the same as is not spelled. -/
theorem of_not_alike (h : ∀ lexeme', ¬ lexeme.Alike lexeme') :
    SpellsIf strict text tail [lexeme] False := by
  intro position more
  rw [false_and, iff_false]
  rintro ⟨halike, -⟩
  obtain ⟨lexeme', -, hx, -⟩ := List.forall₂_cons_left_iff.mp halike
  exact h lexeme' hx

/-- A text alone spells its lexemes exactly if the condition holds. -/
theorem spells_scan_iff (h : SpellsIf strict text [] lexemes good) :
    (scan strict text).Spells lexemes ↔ good := by
  have hiff := h 0 []
  rw [List.append_nil, List.append_nil] at hiff
  have hend : (scanFrom strict (0 + text.length) 0 []).Spells [] := by
    rw [scanFrom]
    exact ⟨.nil, _, rfl⟩
  rw [scan, hiff, and_iff_left hend]

end SpellsIf

/-! ### Leaves -/

/-- A number **can be listed** if the text that is listed for it is read as a number of the same
value. -/
def Numeral.IsListable (n : Numeral) : Prop :=
  (scan false (Utf8.encode (Decimal.Style.plain.write n.value))).Spells [.number n]

section Leaves

variable {strict : Bool} {s : UInt8} {rest tail : Bytes}

/-- The bytes that stand behind listed tokens end a name. -/
theorem isNameEnd_of_mem_followers (hs : s ∈ OperatorText.followers) : isNameEnd s = true := by
  simp only [OperatorText.followers, List.mem_cons, List.not_mem_nil, or_false] at hs
  obtain rfl | rfl | rfl := hs <;> decide

/-- A listed string is read as itself exactly if its bytes **can be listed and its parentheses
nest**. -/
theorem spellsIf_string (strict : Bool) (bytes tail : Bytes) :
    SpellsIf strict (byte '(' :: (Literal.escapeAll bytes ++ [byte ')'])) tail [.string bytes]
      ((∀ b ∈ bytes, Literal.isListable b = true) ∧ Literal.nests 0 bytes = true) := by
  have hread (tail : Bytes) : Lexeme.read strict (byte '(')
      (Literal.escapeAll bytes ++ [byte ')'] ++ tail) =
        Lexeme.readLiteral (Literal.escapeAll bytes ++ byte ')' :: tail) := by
    rw [Lexeme.read, if_pos (by decide), List.append_assoc, List.singleton_append]
  refine .of_read (by decide) (by decide) (fun hgood => ⟨.string bytes, ?_, .string bytes⟩)
    fun lexeme n h halike => ?_
  · rw [hread, Lexeme.readLiteral, Literal.literalLength?_escapeAll hgood.1 hgood.2]
    simp only [List.take_left, Literal.decodeLiteral_escapeAll hgood.1, List.length_append,
      List.length_cons, List.length_nil]
  · rw [hread, Lexeme.readLiteral] at h
    split at h
    next k hk =>
      obtain ⟨rfl, -⟩ := Prod.mk.inj (Except.ok.inj h)
      generalize hdecode : decodeLiteral _ = decoded at halike
      cases halike
      exact Literal.listable_of_decodeLiteral hk hdecode
    next => cases h

/-- A listed name is read as itself exactly if it can be listed. It is followed by a byte that ends
it. -/
theorem spellsIf_name (strict : Bool) (bytes : Bytes) (hs : s ∈ OperatorText.followers)
    (rest : Bytes) :
    SpellsIf strict (byte '/' :: Utf8.rewrite bytes) (s :: rest) [.name bytes]
      (Name.IsListable bytes) := by
  have hend := isNameEnd_of_mem_followers hs
  have hread (text : Bytes) : Lexeme.read strict (byte '/') (text ++ s :: rest) =
      Lexeme.readName (text ++ s :: rest) := by
    rw [Lexeme.read]
    rfl
  refine .of_read (by decide) (by decide) (fun hgood => ⟨.name bytes, ?_, .name bytes⟩)
    fun lexeme n h halike => ?_
  · rw [hread, Lexeme.readName]
    simp only [hgood.takeWhile_append hend, hgood.decodeName_eq]
    rw [hgood.rewrite_eq]
  · rw [hread] at h
    simp only [Lexeme.readName, takeWhile_append_cons (p := fun b => !isNameEnd b)
      (by rw [hend, Bool.not_true])] at h
    obtain ⟨rfl, -⟩ := Prod.mk.inj (Except.ok.inj h)
    generalize hreread : decodeName _ = reread at halike
    cases halike
    exact Name.reread_eq_iff.mp hreread

/-- The words for what is no finite number are not read as a number. `NaN` and `inf` are operators
to the reader, and a sign in front of letters is an error. -/
theorem spellsIf_false_of_not_finite (strict : Bool) (n : Numeral) {x : Float}
    (h : x.isNaN = true ∨ x.isInf = true) (tail : Bytes) :
    SpellsIf strict (Utf8.encode (Decimal.Style.plain.write x)) tail [.number n] False := by
  have hbytes : Utf8.encode "NaN" = [byte 'N', byte 'a', byte 'N'] ∧
      Utf8.encode "inf" = [byte 'i', byte 'n', byte 'f'] ∧
      Utf8.encode "-inf" = [byte '-', byte 'i', byte 'n', byte 'f'] := by
    decide +kernel
  obtain ⟨hNaN, hinf, hminus⟩ := hbytes
  have htext : Decimal.Style.plain.write x = "NaN" ∨ Decimal.Style.plain.write x = "inf" ∨
      Decimal.Style.plain.write x = "-inf" := by
    rw [Decimal.Style.write]
    split
    · exact .inl rfl
    next hnan =>
      rw [if_pos (h.resolve_left hnan)]
      split
      · exact .inr (.inr rfl)
      · exact .inr (.inl rfl)
  obtain htext | htext | htext := htext
  · rw [htext, hNaN]
    refine .of_read (by decide) (by decide) False.elim fun lexeme k h halike => ?_
    rw [Lexeme.read, encode_true, encode_false] at h
    obtain ⟨rfl, -⟩ := Prod.mk.inj (Except.ok.inj h)
    cases halike
  · rw [htext, hinf]
    refine .of_read (by decide) (by decide) False.elim fun lexeme k h halike => ?_
    rw [Lexeme.read, encode_true, encode_false] at h
    obtain ⟨rfl, -⟩ := Prod.mk.inj (Except.ok.inj h)
    cases halike
  · rw [htext, hminus]
    refine .of_read (by decide) (by decide) False.elim fun lexeme k h => ?_
    cases h

/-- What is no finite number cannot be listed. -/
theorem Numeral.not_isListable {n : Numeral} (h : n.value.isNaN = true ∨ n.value.isInf = true) :
    ¬ n.IsListable :=
  (spellsIf_false_of_not_finite false n h []).spells_scan_iff.mp

/-- A written number is read as one of its value. -/
theorem NumberText.spellsIf (strict : Bool) (text : NumberText) (n : Numeral)
    (htail : tail.takeWhile (fun c => isDigit c || c == byte '.') = []) :
    SpellsIf strict text.write tail [.number n] ((n.value == text.numeral.value) = true) :=
  (SpellsIf.of_reads (text.reads strict htail)).congr
    ⟨fun | .number hvalue => hvalue, .number⟩

/-- A number that is listed with some digits can be listed exactly if these, added up one by one,
give its value. -/
theorem Numeral.isListable_iff {n : Numeral} {text : NumberText}
    (htext : text.write = Utf8.encode (Decimal.Style.plain.write n.value)) :
    n.IsListable ↔ (n.value == text.numeral.value) = true := by
  rw [Numeral.IsListable, ← htext]
  exact (text.spellsIf false n rfl).spells_scan_iff

/-- A listed number is read as itself exactly if it **can be listed**. It is followed by a space, a
line end or a bracket, none of which belongs to a number. -/
theorem spellsIf_number (strict : Bool) (n : Numeral) (hs : s ∈ OperatorText.followers)
    (rest : Bytes) :
    SpellsIf strict (Utf8.encode (Decimal.Style.plain.write n.value)) (s :: rest) [.number n]
      n.IsListable := by
  by_cases hfinite : n.value.isNaN = true ∨ n.value.isInf = true
  · exact (spellsIf_false_of_not_finite strict n hfinite _).congr
      ⟨False.elim, n.not_isListable hfinite⟩
  · rw [not_or, Bool.not_eq_true, Bool.not_eq_true] at hfinite
    obtain ⟨text, htext⟩ := NumberText.exists_write_eq_of_finite hfinite.1 hfinite.2
    have htail : (s :: rest).takeWhile (fun c => isDigit c || c == byte '.') = [] := by
      simp only [OperatorText.followers, List.mem_cons, List.not_mem_nil, or_false] at hs
      obtain rfl | rfl | rfl := hs <;> rfl
    rw [← htext]
    exact (text.spellsIf strict n htail).congr (Numeral.isListable_iff htext).symm

/-- A listed operator is read as itself exactly if **no bracket follows**. A closing bracket does
not end an operator, and would become part of its spelling. -/
theorem spellsIf_operator (strict : Bool) {op : Operator} (hop : op.IsWritten)
    (hs : s ∈ OperatorText.followers) (rest : Bytes) :
    SpellsIf strict (Utf8.encode op.spelling) (s :: rest) [.operator op] (s ≠ byte ']') := by
  obtain ⟨text, rfl⟩ := hop
  rw [← OperatorText.rewrite_bytes]
  by_cases hbracket : s = byte ']'
  · obtain ⟨b, bs, hbytes⟩ := List.exists_cons_of_ne_nil text.rewrite.ne_nil
    obtain ⟨hspace, hcomment, hread⟩ := OperatorText.read_append strict hbytes hs rest
    rw [hbytes]
    refine .of_read hspace hcomment (fun hne => absurd hbracket hne) fun lexeme n h halike => ?_
    rw [hread] at h
    obtain ⟨rfl, -⟩ := Prod.mk.inj (Except.ok.inj h)
    subst hbracket
    have hbody : (bs ++ byte ']' :: rest).takeWhile (fun c => !isOperatorEnd c) =
        bs ++ byte ']' :: rest.takeWhile fun c => !isOperatorEnd c := by
      rw [List.takeWhile_append_of_pos, List.takeWhile_cons_of_pos (by decide)]
      intro c hc
      rw [text.rewrite.not_isOperatorEnd (by rw [hbytes]; exact List.mem_cons_of_mem b hc),
        Bool.not_false]
    rw [hbody, ← List.cons_append, ← hbytes] at halike
    generalize hother : Operator.ofBytes _ = other at halike
    cases halike
    exact absurd hother.symm (text.ofBytes_rewrite_append_ne _ _)
  · have hend : isOperatorEnd s = true := by
      simp only [OperatorText.followers, List.mem_cons, List.not_mem_nil, or_false] at hs
      obtain rfl | rfl | rfl := hs
      · decide
      · decide
      · exact absurd rfl hbracket
    have hreads := text.rewrite.reads_append strict hs hend rest
    rw [text.ofBytes_rewrite] at hreads
    exact (SpellsIf.of_reads hreads).congr ⟨fun _ => hbracket, fun _ => .operator _⟩

end Leaves

/-! ### Tokens -/

mutual

/-- A token **can be listed**: a string if its bytes can be told apart and its parentheses nest, a
name if it is well-formed text without bytes that end it or would be taken for an escape, a number
if its digits give back its value, and an array if its tokens can be listed and the last of them is
no operator. Of the other tokens all can, except the data of inline images. -/
def Token.IsListable (p : Program) : Token → Prop
  | .operator _ => True
  | .string span => (∀ b ∈ p.decoded span, Literal.isListable b = true) ∧
      Literal.nests 0 (p.decoded span) = true
  | .number numeral => numeral.IsListable
  | .array items => Token.AreListable p items ∧ ∀ op, items.getLast? ≠ some (.operator op)
  | .name span => Name.IsListable (p.decoded span)
  | .dictOpen => True
  | .dictClose => True
  | .boolean _ => True
  | .imageData _ => False

/-- Tokens **can be listed** if each of them can. -/
def Token.AreListable (p : Program) : List Token → Prop
  | [] => True
  | t :: ts => t.IsListable p ∧ Token.AreListable p ts

end

/-- It may be said of the tokens one by one. -/
theorem Token.areListable_iff {p : Program} {ts : List Token} :
    Token.AreListable p ts ↔ ∀ t ∈ ts, t.IsListable p := by
  induction ts with
  | nil => exact ⟨fun _ => nofun, fun _ => trivial⟩
  | cons t ts ih => rw [Token.AreListable, ih, List.forall_mem_cons]

variable {p : Program}

namespace Token

/-- The bytes of a listed string. -/
theorem encode_string (bytes : Bytes) : Utf8.encode ("(" ++ Text.escaped bytes ++ ")") =
    byte '(' :: (Literal.escapeAll bytes ++ [byte ')']) := by
  rw [Utf8.encode_append, Utf8.encode_append, (by decide +kernel : Utf8.encode "(" = [byte '(']),
    (by decide +kernel : Utf8.encode ")" = [byte ')'])]
  rfl

/-- The bytes of a listed name. -/
theorem encode_name (span : Span) : Utf8.encode ("/" ++ p.text span) =
    byte '/' :: Utf8.rewrite (p.decoded span) := by
  rw [Utf8.encode_append, (by decide +kernel : Utf8.encode "/" = [byte '/'])]
  rfl

/-- The bytes of a listed array. -/
theorem encode_array (text : String) :
    Utf8.encode ("[" ++ text ++ "]") = [byte '['] ++ (Utf8.encode text ++ [byte ']']) := by
  rw [Utf8.encode_append, Utf8.encode_append, (by decide +kernel : Utf8.encode "[" = [byte '[']),
    (by decide +kernel : Utf8.encode "]" = [byte ']']), List.append_assoc]

/-- Words of a line are written with spaces in between. -/
theorem encode_words (word word' : String) (words : List String) :
    Utf8.encode (" ".intercalate (word :: word' :: words)) =
      Utf8.encode word ++ ([byte ' '] ++ Utf8.encode (" ".intercalate (word' :: words))) := by
  rw [String.intercalate_cons_cons, Utf8.encode_append, Utf8.encode_append,
    (by decide +kernel : Utf8.encode " " = [byte ' ']), List.append_assoc]

mutual

/-- A listed token is read as itself exactly if it can be listed, and is no operator in front of a
closing bracket. The induction is on tokens, together with the lists in arrays. -/
theorem spellsIf_write (strict : Bool) {s : UInt8} (hs : s ∈ OperatorText.followers)
    (rest : Bytes) : (t : Token) → (∀ op, .operator op ∈ t.lexemes p → op.IsWritten) →
      SpellsIf strict (Utf8.encode (t.write p)) (s :: rest) (t.lexemes p)
        (t.IsListable p ∧ (s = byte ']' → ∀ op, t ≠ .operator op))
  | .operator op, hop => by
      refine (spellsIf_operator strict (hop op List.mem_cons_self) hs rest).congr ?_
      simp [IsListable]
  | .string span, _ => by
      rw [write, encode_string]
      exact (spellsIf_string strict (p.decoded span) (s :: rest)).congr (by simp [IsListable])
  | .number numeral, _ =>
      (spellsIf_number strict numeral hs rest).congr (by simp [IsListable])
  | .array items, hop => by
      have hopen : Lexeme.Reads strict [byte '['] (Utf8.encode (" ".intercalate
          (writeAll p items)) ++ [byte ']'] ++ s :: rest) .arrayOpen :=
        ⟨_, _, rfl, by decide, by decide, rfl⟩
      have hclose : Lexeme.Reads strict [byte ']'] (s :: rest) .arrayClose :=
        ⟨_, _, rfl, by decide, by decide, rfl⟩
      have hitems := spellsIf_writeAll strict (s :: rest) items fun op h =>
        hop op (List.mem_cons_of_mem _ (List.mem_append_left _ h))
      rw [write, encode_array]
      refine ((SpellsIf.of_reads hopen).append (hitems.append (SpellsIf.of_reads hclose))).congr ?_
      simp [IsListable, Lexeme.Alike.arrayOpen, Lexeme.Alike.arrayClose]
  | .name span, _ => by
      rw [write, encode_name]
      exact (spellsIf_name strict (p.decoded span) hs rest).congr (by simp [IsListable])
  | .dictOpen, _ => by
      have hreads : Lexeme.Reads strict [byte '<', byte '<'] (s :: rest) .dictOpen :=
        ⟨_, _, rfl, by decide, by decide, rfl⟩
      rw [write, (by decide +kernel : Utf8.encode "<<" = [byte '<', byte '<'])]
      exact (SpellsIf.of_reads hreads).congr (by simp [IsListable, Lexeme.Alike.dictOpen])
  | .dictClose, _ => by
      have hreads : Lexeme.Reads strict [byte '>', byte '>'] (s :: rest) .dictClose :=
        ⟨_, _, rfl, by decide, by decide, rfl⟩
      rw [write, (by decide +kernel : Utf8.encode ">>" = [byte '>', byte '>'])]
      exact (SpellsIf.of_reads hreads).congr (by simp [IsListable, Lexeme.Alike.dictClose])
  | .boolean value, _ =>
      (SpellsIf.of_reads (Leaf.reads_boolean strict value (s :: rest))).congr
        (by simp [IsListable, Lexeme.Alike.boolean])
  | .imageData span, _ => by
      have hnone (lexeme : Lexeme) : ¬ (Lexeme.imageData 0 []).Alike lexeme := nofun
      exact (SpellsIf.of_not_alike hnone).congr (by simp [IsListable])

/-- The listed tokens of an array, in front of its closing bracket, are read as themselves exactly
if they can be listed, and the last one is no operator. -/
theorem spellsIf_writeAll (strict : Bool) (rest : Bytes) :
    (ts : List Token) → (∀ op, .operator op ∈ lexemesAll p ts → op.IsWritten) →
      SpellsIf strict (Utf8.encode (" ".intercalate (writeAll p ts))) (byte ']' :: rest)
        (lexemesAll p ts) (AreListable p ts ∧ ∀ op, ts.getLast? ≠ some (.operator op))
  | [], _ => by
      rw [writeAll, String.intercalate_nil, (by decide +kernel : Utf8.encode "" = [])]
      exact SpellsIf.nil.congr (by simp [AreListable])
  | [t], hop => by
      have ht := spellsIf_write strict (s := byte ']') (by decide) rest t fun op h =>
        hop op (List.mem_append_left _ h)
      rw [writeAll, writeAll, String.intercalate_singleton, lexemesAll, lexemesAll, List.append_nil]
      exact ht.congr (by simp [AreListable])
  | t :: t' :: ts, hop => by
      have hrest := spellsIf_writeAll strict rest (t' :: ts) fun op h =>
        hop op (List.mem_append_right _ h)
      have ht := spellsIf_write strict (s := byte ' ') (by decide)
        (Utf8.encode (" ".intercalate (writeAll p (t' :: ts))) ++ byte ']' :: rest) t fun op h =>
          hop op (List.mem_append_left _ h)
      rw [writeAll, writeAll, encode_words, ← writeAll]
      refine (ht.append ((SpellsIf.space (by decide)).append hrest)).congr ?_
      have hspace : byte ' ' ≠ byte ']' := by decide
      simp [AreListable, hspace, and_assoc]

end

end Token

/-! ### Listings -/

namespace Program

/-- The tokens of a program **as they are listed**, each with a line feed behind it if it ends a
line or is the last one, and with a space otherwise. -/
def listed (p : Program) : List Token → Bytes
  | [] => []
  | t :: ts => Utf8.encode (t.write p) ++
      (if t.endsLine || ts.isEmpty then byte '\n' else byte ' ') :: p.listed ts

/-- The words of a line **before the next one**. -/
def lineStart : (line : List String) → Bytes
  | [] => []
  | word :: words => Utf8.encode (" ".intercalate (word :: words)) ++ [byte ' ']

/-- The words of a line are those before the last one, and the last one. -/
theorem encode_line (line : List String) (word : String) :
    Utf8.encode (" ".intercalate (line ++ [word])) = lineStart line ++ Utf8.encode word := by
  cases line with
  | nil => rw [List.nil_append, String.intercalate_singleton]; rfl
  | cons word' words =>
      rw [String.intercalate_append_of_ne_nil (List.cons_ne_nil word' words)
        (List.cons_ne_nil word []), String.intercalate_singleton,
        Utf8.encode_append, Utf8.encode_append, lineStart,
        (by decide +kernel : Utf8.encode " " = [byte ' '])]

/-- Each word is followed by a space. -/
theorem lineStart_append (line : List String) (word : String) :
    lineStart (line ++ [word]) = lineStart line ++ Utf8.encode word ++ [byte ' '] := by
  obtain ⟨word', words, hcons⟩ := List.exists_cons_of_ne_nil (l := line ++ [word]) (by simp)
  rw [← encode_line, hcons, lineStart]

/-- The bytes of some lines, each with a **line feed** behind it. -/
def encodeLines (lines : List String) : Bytes :=
  Utf8.encode (String.join (lines.map fun line => line ++ "\n"))

/-- Lines are written one after the other. -/
theorem encodeLines_cons (line : String) (lines : List String) :
    encodeLines (line :: lines) = Utf8.encode line ++ byte '\n' :: encodeLines lines := by
  rw [encodeLines, List.map_cons, String.join_cons, Utf8.encode_append, Utf8.encode_append,
    (by decide +kernel : Utf8.encode "\n" = [byte '\n']), List.append_assoc]
  rfl

/-- Without lines there is nothing to write. -/
theorem encodeLines_nil : encodeLines [] = [] := by
  decide +kernel

/-- The lines that are begun with some words are these and the tokens as they are listed. The
induction is on the tokens, each of which goes on with the line or ends it. -/
theorem encodeLines_linesFrom (p : Program) (line : List String) (t : Token) (ts : List Token) :
    encodeLines (p.linesFrom line (t :: ts)) = lineStart line ++ p.listed (t :: ts) := by
  induction ts generalizing line t with
  | nil =>
      have hline : p.linesFrom line [t] = [" ".intercalate (line ++ [t.write p])] := by
        obtain ⟨word, words, hcons⟩ :=
          List.exists_cons_of_ne_nil (l := line ++ [t.write p]) (by simp)
        simp only [linesFrom, hcons, ite_self]
      rw [hline, encodeLines_cons, encode_line, encodeLines_nil, listed, listed, List.isEmpty_nil,
        Bool.or_true, if_pos rfl, List.append_assoc]
  | cons t' ts ih =>
      rw [linesFrom, listed]
      rcases hends : t.endsLine with _ | _
      · rw [if_neg Bool.false_ne_true, ih, lineStart_append]
        simp
      · rw [if_pos rfl, encodeLines_cons, encode_line, ih]
        simp [lineStart]

/-- The bytes of a listing are the tokens of the program as they are listed. -/
theorem encode_listing (p : Program) : Utf8.encode p.listing = p.listed p.tokens := by
  have hlines : Utf8.encode p.listing = encodeLines (p.linesFrom [] p.tokens) := rfl
  rw [hlines]
  cases p.tokens with
  | nil => exact encodeLines_nil
  | cons t ts => exact p.encodeLines_linesFrom [] t ts

/-- Listed tokens are read as themselves exactly if they can be listed, by induction on the tokens.
Behind each of them stands white space, which separates it from the next. -/
theorem spellsIf_listed (strict : Bool) (ts : List Token)
    (hop : ∀ op, .operator op ∈ Token.lexemesAll p ts → op.IsWritten) :
    SpellsIf strict (p.listed ts) [] (Token.lexemesAll p ts) (Token.AreListable p ts) := by
  induction ts with
  | nil => exact .nil
  | cons t ts ih =>
      have hrest := ih fun op h => hop op (List.mem_append_right _ h)
      rw [listed]
      generalize hs : (if t.endsLine || ts.isEmpty then byte '\n' else byte ' ') = s
      have hs : s ∈ OperatorText.followers ∧ isSpace s = true ∧ s ≠ byte ']' := by
        rw [← hs]
        split <;> decide
      obtain ⟨hfollower, hspace, hbracket⟩ := hs
      have ht := Token.spellsIf_write strict hfollower (p.listed ts ++ []) t fun op h =>
        hop op (List.mem_append_left _ h)
      exact (ht.append ((SpellsIf.space hspace).append hrest)).congr
        (by simp [Token.AreListable, hbracket])

end Program

/-- **Reading a listing again.** Whatever the program, its listing is tokenized to the same tokens,
on every level of arrays, exactly if each of them can be listed. -/
theorem exists_tokenize_listing_iff {strict strict' : Bool} {source : Bytes}
    (h : tokenize strict source = .ok p) :
    (∃ q, tokenize strict' (Utf8.encode p.listing) = .ok q ∧
      List.Forall₂ (Token.Alike p q) p.tokens q.tokens) ↔ ∀ t ∈ p.tokens, t.IsListable p := by
  have hop : ∀ op, .operator op ∈ Token.lexemesAll p p.tokens → op.IsWritten := by
    intro op hmem
    rw [lexemesAll_tokenize h] at hmem
    obtain ⟨⟨position, lexeme⟩, hx, hlexeme⟩ := List.mem_map.mp hmem
    exact isWritten_of_mem_scanFrom hx (Lexeme.eq_operator_of_bare hlexeme)
  have hspells := Program.spellsIf_listed strict' p.tokens hop
  rw [exists_tokenize_alike_iff h, p.encode_listing, hspells.spells_scan_iff,
    Token.areListable_iff]

namespace ListedWords

/-- An array of a string and a name, and an **operator**. In the string parentheses nest, and there
is a quote, which is listed behind a backslash. -/
def source : Bytes := Utf8.encode "[(a(')) /B] TJ"

/-- The **program** of the source. -/
def program : Program where
  source := source
  arena := [byte 'a', byte '(', byte '\'', byte ')', byte 'B']
  tokens := [.array [.string ⟨0, 4⟩, .name ⟨4, 1⟩], .operator (.known .showAdjusted)]

/-- The source is tokenized to the program. -/
theorem tokenize_source : tokenize false source = .ok program := by
  with_unfolding_all rfl

/-- The tokens of the program can be listed. -/
theorem isListable : ∀ t ∈ program.tokens, t.IsListable program := by
  have hname : Name.IsListable [byte 'B'] :=
    ⟨by decide +kernel, List.forall_mem_singleton.mpr (by decide), by decide⟩
  rw [← Token.areListable_iff]
  have hstring : (program.decoded ⟨0, 4⟩).all Literal.isListable = true := by decide
  exact ⟨⟨⟨⟨List.all_eq_true.mp hstring, by decide⟩, hname, trivial⟩, nofun⟩, trivial, trivial⟩

end ListedWords

open ListedWords in
/-- The listing `[(a(\')) /B] TJ` is read as the same tokens. -/
theorem exists_tokenize_listing_of_words :
    tokenize false source = .ok program ∧ ∃ q, tokenize true (Utf8.encode program.listing) = .ok q ∧
      List.Forall₂ (Token.Alike program q) program.tokens q.tokens :=
  ⟨tokenize_source, (exists_tokenize_listing_iff tokenize_source).mpr isListable⟩

/-- A string that **opens a parenthesis** and does not close it. -/
def openParenthesis : Program where
  source := Utf8.encode "(\\()"
  arena := [byte '(']
  tokens := [.string ⟨0, 1⟩]

/-- A string that opens a parenthesis is listed **without an escape**, and the listing cannot be
tokenized. -/
theorem tokenize_listing_openParenthesis :
    tokenize false (Utf8.encode "(\\()") = .ok openParenthesis ∧
    openParenthesis.listing = "(()\n" ∧
    tokenize false (Utf8.encode openParenthesis.listing) =
      .error (.lexical 0 .unterminatedString) := by
  have hlisting : openParenthesis.listing = "(()\n" := by decide +kernel
  rw [hlisting]
  exact ⟨by with_unfolding_all rfl, rfl, by with_unfolding_all rfl⟩

end ContentStream

import ContentStream.Proofs.Spans
import ContentStream.Proofs.Written
import Mathlib.Data.List.Forall2

/-!
# Round trip

What is written is read again. A list of *token trees*, whose leaves are written tokens and whose
branches are arrays, is written by putting a space behind every token, and tokenizing what was
written gives the trees back: each operator by its spelling, each string and name by the bytes it
stands for, each number by the value it has if it stands alone.

The lexer knows no trees. It scans for lexemes one by one, and gathers them with a stack of open
arrays, while strings and names of all levels fill the same arena. So the induction over the trees
is about a scan that has come to some place: from there it *yields* the tokens of a tree and goes on
behind it, whatever has been gathered before, on whatever levels, and with however much of the arena
filled.

## Main definitions

* `TokenTree`: a written token, or an array of token trees, and `TokenTree.write`.
* `Scan.Yields`: a scan yields some tokens and goes on as another scan.
* `Program.Shows`: a token of a program is what a token tree was written for.

## Main results

* `TokenTree.yields_writeAll`: the scan of written trees yields their tokens.
* `TokenTree.shows_tokens`: the tokens of trees show them.
* `tokenize_writeAll`: tokenizing undoes writing.
-/

namespace ContentStream

/-! ### Token trees -/

/-- A **token tree**: a written token, or an array of token trees. -/
inductive TokenTree where
  | leaf (l : Leaf)
  | array (items : List TokenTree)

/-- The **token** of a leaf when `used` bytes of the arena are filled. -/
def Leaf.token (used : Nat) : Leaf → Token
  | operator op => .operator (Operator.ofBytes op.bytes)
  | string _ bytes => .string ⟨used, bytes.length⟩
  | number n => .number n.numeral
  | name _ bytes => .name ⟨used, bytes.length⟩
  | boolean value => .boolean value
  | dictOpen => .dictOpen
  | dictClose => .dictClose

/-- The lexeme of a leaf makes its token. -/
theorem Leaf.token?_lexeme (l : Leaf) (position used : Nat) :
    l.lexeme.token? position used = some (l.token used) := by
  cases l <;> rfl

namespace TokenTree

mutual

/-- A token tree **as it is written**, with a space behind every token. -/
def write : TokenTree → Bytes
  | leaf l => l.write ++ [byte ' ']
  | array items => byte '[' :: (writeAll items ++ [byte ']', byte ' '])

/-- Token trees **as they are written**, one after the other. -/
def writeAll : List TokenTree → Bytes
  | [] => []
  | t :: ts => t.write ++ writeAll ts

end

mutual

/-- What a token tree **adds to the arena**. -/
def decoded : TokenTree → Bytes
  | leaf l => l.lexeme.decoded
  | array items => decodedAll items

/-- What token trees **add to the arena**, one after the other. -/
def decodedAll : List TokenTree → Bytes
  | [] => []
  | t :: ts => t.decoded ++ decodedAll ts

end

mutual

/-- The **token** of a token tree when `used` bytes of the arena are filled. -/
def token (used : Nat) : TokenTree → Token
  | leaf l => l.token used
  | array items => .array (tokens used items)

/-- The **tokens** of token trees when `used` bytes of the arena are filled. -/
def tokens (used : Nat) : List TokenTree → List Token
  | [] => []
  | t :: ts => t.token used :: tokens (used + t.decoded.length) ts

end

end TokenTree

/-! ### What a scan yields -/

/-- A scan **yields tokens** and goes on as another scan if its arena begins with what the tokens
add, and gathering on any level comes to the same as gathering in the other scan with the tokens on
that level. The tokens depend on how much of the arena has been filled before. -/
structure Scan.Yields (s : Scan) (decoded : Bytes) (tokens : Nat → List Token) (s' : Scan) :
    Prop where
  arena : s.arena = decoded ++ s'.arena
  gathers : ∀ used level outer, assemble used level outer s.lexemes s.stop =
    assemble (used + decoded.length) ((tokens used).reverse ++ level) outer s'.lexemes s'.stop

namespace Scan.Yields

variable {s s' s'' : Scan} {decoded decoded' : Bytes} {tokens tokens' : Nat → List Token}

/-- A scan yields nothing and goes on as itself. -/
theorem refl (s : Scan) : s.Yields [] (fun _ => []) s :=
  ⟨rfl, fun _ _ _ => rfl⟩

/-- What is yielded one after the other is yielded together. The second tokens are placed behind
what the first have added to the arena. -/
theorem trans (h : s.Yields decoded tokens s') (h' : s'.Yields decoded' tokens' s'') :
    s.Yields (decoded ++ decoded') (fun used => tokens used ++ tokens' (used + decoded.length))
      s'' where
  arena := by rw [h.arena, h'.arena, List.append_assoc]
  gathers used level outer := by
    rw [h.gathers, h'.gathers, List.length_append, List.reverse_append, List.append_assoc,
      Nat.add_assoc]

/-- A lexeme that makes a token yields it. -/
theorem cons {lexeme : Lexeme} {position : Nat} {token : Nat → Token}
    (h : ∀ used, lexeme.token? position used = some (token used)) (s : Scan) :
    (s.cons ⟨position, lexeme⟩).Yields lexeme.decoded (fun used => [token used]) s where
  arena := List.flatMap_cons
  gathers used level outer := by
    have hbracket : lexeme.token? position used ≠ none := by rw [h used]; exact nofun
    rw [Scan.cons, assemble_cons (fun hopen => hbracket (by rw [hopen]; rfl))
      (fun hclose => hbracket (by rw [hclose]; rfl)), h used]
    rfl

/-- Brackets around some tokens yield an array of them. -/
theorem array {position position' : Nat}
    (h : s.Yields decoded tokens (s'.cons ⟨position', .arrayClose⟩)) :
    (s.cons ⟨position, .arrayOpen⟩).Yields decoded (fun used => [.array (tokens used)]) s' where
  arena := h.arena
  gathers used level outer := by
    rw [Scan.cons, assemble, h.gathers, Scan.cons, assemble, List.append_nil, List.reverse_reverse]
    rfl

end Scan.Yields

/-! ### Scanning what was written -/

/-- A scan passes over as many bytes as there are. -/
theorem scanFrom_length_append (strict : Bool) (position : Nat) (a b : Bytes) :
    scanFrom strict position a.length (a ++ b) = scanFrom strict (position + a.length) 0 b := by
  induction a generalizing position with
  | nil => rfl
  | cons x a ih =>
      rw [List.length_cons, List.cons_append, scanFrom, ih, Nat.add_assoc, Nat.add_comm 1]

/-- A scan that comes to a text which is read as a lexeme finds the lexeme and goes on behind the
text. -/
theorem Lexeme.Reads.scanFrom_append {strict : Bool} {text tail : Bytes} {lexeme : Lexeme}
    (h : Lexeme.Reads strict text tail lexeme) (position : Nat) :
    scanFrom strict position 0 (text ++ tail) =
      (scanFrom strict (position + text.length) 0 tail).cons ⟨position, lexeme⟩ := by
  obtain ⟨b, bs, rfl, hspace, hcomment, hread⟩ := h
  rw [List.cons_append, scanFrom, hspace, beq_false_of_ne hcomment, hread]
  simp only [Bool.false_eq_true, if_false, scanFrom_length_append, List.length_cons,
    Nat.add_assoc, Nat.add_comm 1]

/-- A scan goes on behind a space. -/
theorem scanFrom_space (strict : Bool) (position : Nat) (rest : Bytes) :
    scanFrom strict position 0 (byte ' ' :: rest) = scanFrom strict (position + 1) 0 rest := by
  rw [scanFrom, if_pos (by decide)]

namespace TokenTree

mutual

/-- The scan of a written tree yields its token and goes on behind it. An array is read between its
brackets, where the induction gives what its items yield. -/
theorem yields_write (strict : Bool) (position : Nat) (rest : Bytes) : (t : TokenTree) →
    (scanFrom strict position 0 (t.write ++ rest)).Yields t.decoded (fun used => [t.token used])
      (scanFrom strict (position + t.write.length) 0 rest)
  | leaf l => by
      have hscan := (l.reads strict rest).scanFrom_append position
      rw [scanFrom_space, Nat.add_assoc] at hscan
      rw [write, List.append_assoc, List.singleton_append, hscan, List.length_append]
      exact .cons (fun used => l.token?_lexeme position used) _
  | array items => by
      have hall := yields_writeAll strict (position + 1) (byte ']' :: byte ' ' :: rest) items
      have hclose (position : Nat) : scanFrom strict position 0 (byte ']' :: byte ' ' :: rest) =
          (scanFrom strict (position + 2) 0 rest).cons ⟨position, .arrayClose⟩ := by
        rw [scanFrom, if_neg (by decide), if_neg (by decide)]
        exact congrArg (Scan.cons _) (scanFrom_space strict (position + 1) rest)
      have hopen (bs : Bytes) : scanFrom strict position 0 (byte '[' :: bs) =
          (scanFrom strict (position + 1) 0 bs).cons ⟨position, .arrayOpen⟩ := by
        rw [scanFrom, if_neg (by decide), if_neg (by decide)]
        rfl
      have hlength : position + (write (array items)).length =
          position + 1 + (writeAll items).length + 2 := by
        simp only [write, List.length_cons, List.length_append, List.length_nil]
        omega
      rw [hclose] at hall
      rw [hlength, write, List.cons_append, List.append_assoc, hopen]
      exact hall.array

/-- The scan of written trees yields their tokens and goes on behind them. -/
theorem yields_writeAll (strict : Bool) (position : Nat) (rest : Bytes) : (ts : List TokenTree) →
    (scanFrom strict position 0 (writeAll ts ++ rest)).Yields (decodedAll ts)
      (fun used => tokens used ts) (scanFrom strict (position + (writeAll ts).length) 0 rest)
  | [] => .refl _
  | t :: ts => by
      have hfirst := yields_write strict position (writeAll ts ++ rest) t
      have hrest := yields_writeAll strict (position + t.write.length) rest ts
      rw [writeAll, List.append_assoc, List.length_append, ← Nat.add_assoc]
      exact hfirst.trans hrest

end

end TokenTree

/-! ### Programs that show trees -/

/-- A token of a program **shows a token tree** if it is what the tree was written for: an operator
has the same spelling, strings and names decode to the same bytes, a number is what one reads if it
stands alone, and an array shows the trees in it. -/
inductive Program.Shows (p : Program) (strict : Bool) : Token → TokenTree → Prop
  | operator (op : OperatorText) :
      Shows p strict (.operator (Operator.ofBytes op.bytes)) (.leaf (.operator op))
  | string {span : Span} {bytes : Bytes} (form : StringForm) (h : p.decoded span = bytes) :
      Shows p strict (.string span) (.leaf (.string form bytes))
  | number {numeral : Numeral} {n : NumberText}
      (h : tokenize strict n.write = .ok ⟨n.write, [], [.number numeral]⟩) :
      Shows p strict (.number numeral) (.leaf (.number n))
  | name {span : Span} {bytes : Bytes} (capital : Nat → Bool) (h : p.decoded span = bytes) :
      Shows p strict (.name span) (.leaf (.name capital bytes))
  | boolean (value : Bool) : Shows p strict (.boolean value) (.leaf (.boolean value))
  | dictOpen : Shows p strict .dictOpen (.leaf .dictOpen)
  | dictClose : Shows p strict .dictClose (.leaf .dictClose)
  | array {items : List Token} {trees : List TokenTree}
      (h : List.Forall₂ (Shows p strict) items trees) : Shows p strict (.array items) (.array trees)

/-- A number that stands alone is the token of its numeral. -/
theorem tokenize_number (strict : Bool) (n : NumberText) :
    tokenize strict n.write = .ok ⟨n.write, [], [.number n.numeral]⟩ := by
  have hreads : Lexeme.Reads strict n.write [] (.number n.numeral) := n.reads strict rfl
  have hscan := hreads.scanFrom_append 0
  rw [List.append_nil, scanFrom] at hscan
  rw [tokenize_eq, scan, hscan]
  rfl

/-- What the arena holds behind the bytes that were filled before is found there. -/
theorem Program.decoded_of_arena {p : Program} {before bytes after : Bytes}
    (h : p.arena = before ++ (bytes ++ after)) :
    p.decoded ⟨before.length, bytes.length⟩ = bytes := by
  rw [Program.decoded, Span.of_eq (by simp only [h, List.length_append]; omega), h,
    List.drop_left, List.take_left]

namespace TokenTree

variable {p : Program} {strict : Bool}

mutual

/-- The token of a tree shows it in a program whose arena holds what the tree adds. Only strings and
names have anything there, and an array has what its items have. -/
theorem shows_token (before after : Bytes) : (t : TokenTree) →
    p.arena = before ++ (t.decoded ++ after) → p.Shows strict (t.token before.length) t
  | leaf (.operator op), _ => .operator op
  | leaf (.string form _), h => .string form (Program.decoded_of_arena h)
  | leaf (.number n), _ => .number (tokenize_number strict n)
  | leaf (.name capital _), h => .name capital (Program.decoded_of_arena h)
  | leaf (.boolean value), _ => .boolean value
  | leaf .dictOpen, _ => .dictOpen
  | leaf .dictClose, _ => .dictClose
  | array items, h => .array (shows_tokens before after items h)

/-- The tokens of trees show them in a program whose arena holds what the trees add. Each of them
finds its bytes behind those of the trees in front of it. -/
theorem shows_tokens (before after : Bytes) : (ts : List TokenTree) →
    p.arena = before ++ (decodedAll ts ++ after) →
      List.Forall₂ (p.Shows strict) (tokens before.length ts) ts
  | [], _ => .nil
  | t :: ts, h => by
      rw [decodedAll, List.append_assoc] at h
      have hrest : p.arena = (before ++ t.decoded) ++ (decodedAll ts ++ after) := by
        rw [h, List.append_assoc]
      have hshows : List.Forall₂ (p.Shows strict) (tokens (before ++ t.decoded).length ts) ts :=
        shows_tokens _ after ts hrest
      rw [List.length_append] at hshows
      exact .cons (shows_token before _ t h) hshows

end

end TokenTree

/-- The program that **written trees are tokenized to**. Its source is what was written, its arena
is what the trees decode to, and its tokens are theirs. -/
theorem TokenTree.tokenize_eq (strict : Bool) (trees : List TokenTree) :
    tokenize strict (writeAll trees) = .ok ⟨writeAll trees, decodedAll trees, tokens 0 trees⟩ := by
  have hyields := yields_writeAll strict 0 [] trees
  rw [List.append_nil, scanFrom] at hyields
  have harena : (scan strict (writeAll trees)).arena = decodedAll trees := by
    rw [scan, hyields.arena]
    exact List.append_nil _
  have htokens : (scan strict (writeAll trees)).tokens = .ok (tokens 0 trees) := by
    rw [Scan.tokens, scan, hyields.gathers, List.append_nil, assemble, List.reverse_reverse]
  rw [ContentStream.tokenize_eq, harena, htokens]
  rfl

/-- **Tokenizing undoes writing.** Whatever token trees are written, with arrays nested to any
depth, the bytes can be tokenized, and the tokens show the trees. -/
theorem tokenize_writeAll (strict : Bool) (trees : List TokenTree) :
    ∃ p, tokenize strict (TokenTree.writeAll trees) = .ok p ∧
      List.Forall₂ (p.Shows strict) p.tokens trees := by
  have harena : TokenTree.decodedAll trees = [] ++ (TokenTree.decodedAll trees ++ []) := by
    rw [List.nil_append, List.append_nil]
  exact ⟨_, TokenTree.tokenize_eq strict trees, TokenTree.shows_tokens [] [] trees harena⟩

/-- What is written for an array with an array in it, and an operator of odd bytes. -/
example : TokenTree.writeAll
    [.array [.leaf (.name (fun _ => true) [0x4A]),
        .array [.leaf (.string .octal [0x41]), .leaf (.boolean false)]],
      .leaf (.operator
        ⟨[byte ')', byte '*'], by simp, by decide +kernel, by decide +kernel,
          by decide +kernel⟩)] =
    Utf8.encode "[/#4A [(\\101) false ] ] )* " := by
  decide +kernel

end ContentStream

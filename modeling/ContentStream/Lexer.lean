import ContentStream.Lexer.Lexeme

/-!
# Tokenizing

A content stream is tokenized in two steps. The first splits it into lexemes, each with its
position, and stops at the first flaw or at the end. The second gathers the lexemes into tokens:
what stands between the brackets of an array becomes one token, and the bytes of strings and names
go to the arena, one after the other. A bracket out of place is found in the second step, and takes
precedence over a flaw further on.

## Main definitions

* `scan`: the lexemes of a byte sequence.
* `assemble`: the tokens made of a list of lexemes.
* `tokenize`: the program written by a byte sequence.
-/

namespace ContentStream

/-- A lexeme **in its place**. -/
structure Placed where
  position : Nat
  lexeme : Lexeme

/-- How a **scan stops**: at the end of the bytes, or at a flaw. -/
inductive Stop where
  | finished (position : Nat)
  | flawed (position : Nat) (flaw : LexicalFlaw)

/-- The **result of a scan**: the lexemes before the stop, and the stop. -/
structure Scan where
  lexemes : List Placed
  stop : Stop

/-- A scan with one more lexeme in front. -/
def Scan.cons (x : Placed) (s : Scan) : Scan :=
  { s with lexemes := x :: s.lexemes }

/-- Scans bytes that begin at `position`, the first `passed` of which belong to a lexeme or a
comment before. -/
def scanFrom (strict : Bool) : (position passed : Nat) → Bytes → Scan
  | position, _, [] => ⟨[], .finished position⟩
  | position, passed + 1, _ :: bs => scanFrom strict (position + 1) passed bs
  | position, 0, b :: bs =>
    if isSpace b then scanFrom strict (position + 1) 0 bs
    else if b == byte '%' then
      scanFrom strict (position + 1) (bs.takeWhile fun c => !isLineEnd c).length bs
    else
      match Lexeme.read strict b bs with
      | .error (offset, flaw) => ⟨[], .flawed (position + offset) flaw⟩
      | .ok (lexeme, passed) =>
        (scanFrom strict (position + 1) passed bs).cons ⟨position, lexeme⟩

/-- The **lexemes of a content stream**. In strict mode the mark that ends inline image data must
be followed by white space or the end. -/
def scan (strict : Bool) (source : Bytes) : Scan :=
  scanFrom strict 0 0 source

/-- The bytes a lexeme adds to the arena. -/
def Lexeme.decoded : Lexeme → Bytes
  | .string bytes => bytes
  | .name bytes => bytes
  | _ => []

/-- The token of a lexeme that stands at `position` when `used` bytes of the arena are filled.
Brackets of arrays make no token of their own. -/
def Lexeme.token? (position used : Nat) : Lexeme → Option Token
  | .operator op => some (.operator op)
  | .string bytes => some (.string ⟨used, bytes.length⟩)
  | .number numeral => some (.number numeral)
  | .name bytes => some (.name ⟨used, bytes.length⟩)
  | .boolean value => some (.boolean value)
  | .dictOpen => some .dictOpen
  | .dictClose => some .dictClose
  | .imageData lead data => some (.imageData ⟨position + lead, data.length⟩)
  | .arrayOpen => none
  | .arrayClose => none

/-- **Gathers lexemes into tokens.** `level` holds the tokens of the innermost open array, latest
first, and `outer` those of the arrays around it. -/
def assemble : (used : Nat) → (level : List Token) → (outer : List (List Token)) →
    List Placed → Stop → Except Fault (List Token)
  | _, level, [], [], .finished _ => .ok level.reverse
  | _, _, _ :: _, [], .finished position => .error (.lexical position .unterminatedArray)
  | _, _, _, [], .flawed position flaw => .error (.lexical position flaw)
  | used, level, outer, ⟨position, lexeme⟩ :: rest, stop =>
    match lexeme with
    | .arrayOpen => assemble used [] (level :: outer) rest stop
    | .arrayClose =>
      match outer with
      | [] => .error (.lexical position .unbalancedBracket)
      | around :: outer => assemble used (.array level.reverse :: around) outer rest stop
    | lexeme =>
      assemble (used + lexeme.decoded.length) ((lexeme.token? position used).toList ++ level) outer
        rest stop

/-- The **program** written by a byte sequence. -/
def tokenize (strict : Bool) (source : Bytes) : Except Fault Program := do
  let s := scan strict source
  let tokens ← assemble 0 [] [] s.lexemes s.stop
  pure ⟨source, s.lexemes.flatMap fun x => x.lexeme.decoded, tokens⟩

end ContentStream

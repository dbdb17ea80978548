import ContentStream.Fault

/-!
# Lexemes

A lexeme is what a single look at the front of a content stream yields: a number, a whole string,
a name, an operator, one bracket of an array or a dictionary, or the data of an inline image. Each
reader here is given the bytes that follow the lexeme's first byte and reports how many of them
belong to the lexeme; a flaw is reported with its distance from the first byte.

## Main definitions

* `Lexeme.read`: the lexeme at the front of a byte sequence.
-/

namespace ContentStream

/-- The byte of an ASCII character. -/
abbrev byte (c : Char) : UInt8 := c.toUInt8

/-! ### Classes of bytes -/

/-- The bytes that count as white space. The null byte is not among them. -/
def isSpace (b : UInt8) : Bool :=
  b == byte ' ' || b == byte '\t' || b == byte '\r' || b == byte '\n' || b == 0x0C

/-- The bytes that end a line. -/
def isLineEnd (b : UInt8) : Bool :=
  b == byte '\r' || b == byte '\n'

/-- The bytes that end a name: white space and delimiters. -/
def isNameEnd (b : UInt8) : Bool :=
  isSpace b || [byte '(', byte ')', byte '<', byte '>', byte '[', byte ']', byte '\x7b',
    byte '\x7d', byte '/', byte '%'].contains b

/-- The bytes that end an operator: white space and what opens another lexeme. -/
def isOperatorEnd (b : UInt8) : Bool :=
  isSpace b || [byte '(', byte '/', byte '[', byte '<', byte '%'].contains b

/-- The decimal digits. -/
def isDigit (b : UInt8) : Bool :=
  byte '0' ≤ b && b ≤ byte '9'

/-- The octal digits. -/
def isOctalDigit (b : UInt8) : Bool :=
  byte '0' ≤ b && b ≤ byte '7'

/-- The value of a hexadecimal digit. -/
def hexValue? (b : UInt8) : Option UInt8 :=
  if byte '0' ≤ b && b ≤ byte '9' then some (b - byte '0')
  else if byte 'a' ≤ b && b ≤ byte 'f' then some (b - byte 'a' + 10)
  else if byte 'A' ≤ b && b ≤ byte 'F' then some (b - byte 'A' + 10)
  else none

/-! ### Literal strings -/

/-- The length of a literal string up to the parenthesis that closes it. Parentheses nest, and a
backslash deprives the next byte of its meaning. -/
def literalLength? : (depth : Nat) → Bytes → Option Nat
  | _, [] => none
  | depth, b :: bs =>
    if b == byte '\\' then
      match bs with
      | [] => none
      | _ :: bs => (literalLength? depth bs).map (· + 2)
    else if b == byte '(' then (literalLength? (depth + 1) bs).map (· + 1)
    else if b == byte ')' then
      match depth with
      | 0 => some 0
      | depth + 1 => (literalLength? depth bs).map (· + 1)
    else (literalLength? depth bs).map (· + 1)

/-- The number of bytes, one or none, of a line feed at the front. -/
def lineFeed (bs : Bytes) : Nat :=
  if bs.head? == some (byte '\n') then 1 else 0

/-- What a backslash stands for, and how many of the bytes after it belong to the escape. -/
def escape : Bytes → Bytes × Nat
  | [] => ([], 0)
  | e :: es =>
    if e == byte 'n' then ([byte '\n'], 1)
    else if e == byte 'r' then ([byte '\r'], 1)
    else if e == byte 't' then ([byte '\t'], 1)
    else if e == byte 'b' then ([0x08], 1)
    else if e == byte 'f' then ([0x0C], 1)
    else if e == byte '\r' then ([], 1 + lineFeed es)
    else if e == byte '\n' then ([], 1)
    else if isOctalDigit e then
      let digits := e :: (es.take 2).takeWhile isOctalDigit
      ([digits.foldl (fun v d => v * 8 + (d - byte '0')) 0], digits.length)
    else ([e], 1)

/-- One unit of a literal string: an escape, a line end, or a plain byte. Every line end reads as a
line feed. -/
def literalUnit (b : UInt8) (bs : Bytes) : Bytes × Nat :=
  if b == byte '\\' then escape bs
  else if b == byte '\r' then ([byte '\n'], lineFeed bs)
  else ([b], 0)

/-- The bytes that a literal string stands for. -/
def decodeLiteral (body : Bytes) : Bytes :=
  units literalUnit body

/-! ### Hexadecimal strings and names -/

/-- The bytes written by hexadecimal digits, two by two. A last digit without a partner is followed
by a zero. -/
def pairDigits : List UInt8 → Bytes
  | high :: low :: rest => (high * 16 + low) :: pairDigits rest
  | [high] => [high * 16]
  | [] => []

/-- One unit of a name: a byte given by its two hexadecimal digits, or a plain byte. A number sign
that no two such digits follow is a plain byte. -/
def nameUnit (b : UInt8) (bs : Bytes) : Bytes × Nat :=
  match b == byte '#', bs with
  | true, d :: e :: _ =>
    match hexValue? d, hexValue? e with
    | some high, some low => ([high * 16 + low], 2)
    | _, _ => ([b], 0)
  | _, _ => ([b], 0)

/-- The bytes that a name stands for. -/
def decodeName (body : Bytes) : Bytes :=
  units nameUnit body

/-! ### Numbers -/

/-- The machine number built up from decimal digits one by one. -/
def digitsValue (digits : Bytes) : Float :=
  digits.foldl (fun v d => v * 10.0 + Float.ofNat (d - byte '0').toNat) 0.0

/-- The value of a number from the digits before and after its point. -/
def decimalValue (whole fraction : Bytes) : Float :=
  digitsValue whole + digitsValue fraction / fraction.foldl (fun v _ => v * 10.0) 1.0

/-! ### Inline images -/

/-- Whether the bytes end inline image data: white space and the letters `EI`. In strict mode these
must be followed by white space or the end of the stream. -/
def endsImage (strict : Bool) : Bytes → Bool
  | s :: e :: i :: rest =>
    isSpace s && e == byte 'E' && i == byte 'I' && (!strict || rest.head?.all isSpace)
  | _ => false

/-- The distance to the end of inline image data. -/
def imageLength? (strict : Bool) : Bytes → Option Nat
  | [] => none
  | b :: bs => if endsImage strict (b :: bs) then some 0 else (imageLength? strict bs).map (· + 1)

/-! ### Lexemes -/

/-- A **lexeme** of a content stream. The data of an inline image comes with the number of bytes
between the start of its introducing operator and the data. -/
inductive Lexeme where
  | operator (op : Operator)
  | string (bytes : Bytes)
  | number (numeral : Numeral)
  | name (bytes : Bytes)
  | boolean (value : Bool)
  | dictOpen
  | dictClose
  | arrayOpen
  | arrayClose
  | imageData (lead : Nat) (data : Bytes)

namespace Lexeme

/-- What a reader of lexemes yields: a lexeme and the number of its bytes after the first, or a flaw
and its distance from the first byte. -/
abbrev Reading := Except (Nat × LexicalFlaw) (Lexeme × Nat)

/-- Reads a literal string after its opening parenthesis. -/
def readLiteral (bs : Bytes) : Reading :=
  match literalLength? 0 bs with
  | some n => .ok (.string (decodeLiteral (bs.take n)), n + 1)
  | none => .error (0, .unterminatedString)

/-- Reads a hexadecimal string after its opening angle bracket. -/
def readHex (bs : Bytes) : Reading :=
  let body := bs.takeWhile fun b => isSpace b || (hexValue? b).isSome
  match bs.drop body.length with
  | [] => .error (0, .unterminatedHexString)
  | b :: _ =>
    if b == byte '>' then .ok (.string (pairDigits (body.filterMap hexValue?)), body.length + 1)
    else .error (body.length + 1, .invalidHexDigit)

/-- Reads a name after its slash. -/
def readName (bs : Bytes) : Reading :=
  let body := bs.takeWhile fun b => !isNameEnd b
  .ok (.name (decodeName body), body.length)

/-- Reads a number: an optional sign, and digits around at most one point. -/
def readNumber (b : UInt8) (bs : Bytes) : Reading :=
  let signed := b == byte '+' || b == byte '-'
  let text := if signed then bs else b :: bs
  let sign := if signed then 1 else 0
  let run := text.takeWhile fun c => isDigit c || c == byte '.'
  let whole := run.takeWhile isDigit
  let fraction := (run.drop (whole.length + 1)).takeWhile isDigit
  if whole.length + 1 + fraction.length < run.length then
    .error (sign + whole.length + 1 + fraction.length, .secondDecimalPoint)
  else if whole.isEmpty && fraction.isEmpty then .error (0, .noDigits)
  else
    let numeral := Numeral.ofResult (decimalValue whole fraction)
    .ok (.number (if b == byte '-' then numeral.opposite else numeral), sign + run.length - 1)

/-- Reads the data of an inline image after the operator that introduces it. One byte of white space
separates the two; it may also belong to the mark that ends the data. -/
def readImage (strict : Bool) (bs : Bytes) : Reading :=
  match imageLength? strict bs with
  | some n =>
    let separator := if bs.head?.any isSpace then 1 else 0
    .ok (.imageData (2 + separator) ((bs.take n).drop separator), n + 4)
  | none => .error (0, .unterminatedImage)

/-- Reads an operator. One that begins with `ID` is cut off there and introduces the data of an
inline image. -/
def readOperator (strict : Bool) (b : UInt8) (bs : Bytes) : Reading :=
  let body := bs.takeWhile fun b => !isOperatorEnd b
  if b == byte 'I' && body.head? == some (byte 'D') then readImage strict (bs.drop 1)
  else .ok (.operator (Operator.ofBytes (b :: body)), body.length)

/-- The first bytes of a number. -/
def startsNumber (b : UInt8) : Bool :=
  b == byte '+' || b == byte '-' || b == byte '.' || isDigit b

/-- Reads the lexeme at the front of the bytes `b :: bs`, where `b` is neither white space nor the
start of a comment. -/
def read (strict : Bool) (b : UInt8) (bs : Bytes) : Reading :=
  if b == byte '(' then readLiteral bs
  else if b == byte '<' then
    if bs.head? == some (byte '<') then .ok (.dictOpen, 1) else readHex bs
  else if b == byte '>' && bs.head? == some (byte '>') then .ok (.dictClose, 1)
  else if b == byte '[' then .ok (.arrayOpen, 0)
  else if b == byte ']' then .ok (.arrayClose, 0)
  else if b == byte '/' then readName bs
  else if startsNumber b then readNumber b bs
  else if (Utf8.encode "true").isPrefixOf (b :: bs) then .ok (.boolean true, 3)
  else if (Utf8.encode "false").isPrefixOf (b :: bs) then .ok (.boolean false, 4)
  else readOperator strict b bs

end Lexeme

end ContentStream

import ContentStream.Decimal.Style
import ContentStream.Numeral
import ContentStream.Operator
import ContentStream.Text.Quoted

/-!
# Tokens and programs

A tokenized content stream is a *program*: the source bytes, an arena that holds the decoded
bytes of all its strings and names, and the tokens. Strings and names refer to the arena by spans,
inline image data refers to the source. An array is a token that holds tokens; a dictionary is no
token of its own, its two brackets are.
-/

namespace ContentStream

/-- A **span**: a range of bytes. -/
structure Span where
  start : Nat
  length : Nat
deriving DecidableEq

/-- A **token** of a content stream. -/
inductive Token where
  | operator (op : Operator)
  | string (span : Span)
  | number (numeral : Numeral)
  | array (items : List Token)
  | name (span : Span)
  | dictOpen
  | dictClose
  | boolean (value : Bool)
  | imageData (span : Span)

/-- A **program**: a tokenized content stream. -/
structure Program where
  source : Bytes
  arena : Bytes
  tokens : List Token

/-- The bytes of a span; none if the span does not lie inside. -/
def Span.of (s : Span) (bytes : Bytes) : Bytes :=
  if s.start + s.length ≤ bytes.length then (bytes.drop s.start).take s.length else []

namespace Program

/-- The decoded bytes of a string or name. -/
def decoded (p : Program) (s : Span) : Bytes :=
  s.of p.arena

/-- The raw bytes of inline image data. -/
def raw (p : Program) (s : Span) : Bytes :=
  s.of p.source

/-- The text of a name. -/
def text (p : Program) (s : Span) : String :=
  Utf8.decode (p.decoded s)

end Program

/-! ### Tokens in diagnostics -/

/-- An operator in diagnostics. -/
def Operator.describe : Operator → String
  | known k => k.label
  | unknown s => "Unknown(" ++ Text.quoted s ++ ")"

/-- A span in diagnostics. -/
def Span.describe (s : Span) : String :=
  "Span \x7b start: " ++ toString s.start ++ ", len: " ++ toString s.length ++ " \x7d"

mutual

/-- A token in diagnostics. -/
def Token.describe : Token → String
  | .operator op => "Operator(" ++ op.describe ++ ")"
  | .string span => "String(" ++ span.describe ++ ")"
  | .number numeral => "Number(" ++ Decimal.Style.exact.write numeral.value ++ ")"
  | .array items => "Array([" ++ ", ".intercalate (Token.describeAll items) ++ "])"
  | .name span => "Name(" ++ span.describe ++ ")"
  | .dictOpen => "DictOpen"
  | .dictClose => "DictClose"
  | .boolean value => "Boolean(" ++ (if value then "true" else "false") ++ ")"
  | .imageData span => "InlineImageData(" ++ span.describe ++ ")"

/-- The tokens of an array in diagnostics. -/
def Token.describeAll : List Token → List String
  | [] => []
  | t :: ts => t.describe :: Token.describeAll ts

end

end ContentStream

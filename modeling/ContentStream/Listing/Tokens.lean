import ContentStream.Text.Json
import ContentStream.Token

/-!
# Listing the tokens of a program

As text, tokens are written much as they stand in a content stream: a line for each operator, with
its operands in front. As JSON, every token is an object that says its kind.
-/

namespace ContentStream

/-! ### As text -/

mutual

/-- A token as text. -/
def Token.write (p : Program) : Token → String
  | .operator op => op.spelling
  | .number numeral => Decimal.Style.plain.write numeral.value
  | .name span => "/" ++ p.text span
  | .string span => "(" ++ Text.escaped (p.decoded span) ++ ")"
  | .array items => "[" ++ " ".intercalate (Token.writeAll p items) ++ "]"
  | .dictOpen => "<<"
  | .dictClose => ">>"
  | .boolean value => if value then "true" else "false"
  | .imageData span => "<" ++ toString span.length ++ " bytes of image data>"

/-- The tokens of an array as text. -/
def Token.writeAll (p : Program) : List Token → List String
  | [] => []
  | t :: ts => t.write p :: Token.writeAll p ts

end

/-- Whether a token ends a line of a listing. -/
def Token.endsLine : Token → Bool
  | .operator _ => true
  | .imageData _ => true
  | _ => false

/-- The lines of a listing of tokens; `line` holds the words of the present line so far. -/
def Program.linesFrom (p : Program) : (line : List String) → List Token → List String
  | [], [] => []
  | line, [] => [" ".intercalate line]
  | line, t :: ts =>
    let line := line ++ [t.write p]
    if t.endsLine then " ".intercalate line :: p.linesFrom [] ts else p.linesFrom line ts

/-- The text listing of a program. -/
def Program.listing (p : Program) : String :=
  String.join ((p.linesFrom [] p.tokens).map fun line => line ++ "\n")

/-! ### As JSON -/

mutual

/-- A token as JSON. -/
def Token.toJson (p : Program) : Token → JsonValue
  | .operator op => .object [("kind", .string "operator"), ("op", .string op.spelling)]
  | .number numeral => .object [("kind", .string "number"), ("value", .number numeral.value)]
  | .name span => .object [("kind", .string "name"), ("name", .string (p.text span))]
  | .string span =>
    .object [("kind", .string "string"), ("text", .string (Text.escaped (p.decoded span))),
      ("len", .natural (p.decoded span).length)]
  | .array items =>
    .object [("kind", .string "array"), ("items", .array (Token.toJsonAll p items))]
  | .dictOpen => .object [("kind", .string "dict_open")]
  | .dictClose => .object [("kind", .string "dict_close")]
  | .boolean value => .object [("kind", .string "boolean"), ("value", .boolean value)]
  | .imageData span =>
    .object [("kind", .string "inline_image_data"), ("len", .natural span.length)]

/-- The tokens of an array as JSON. -/
def Token.toJsonAll (p : Program) : List Token → List JsonValue
  | [] => []
  | t :: ts => t.toJson p :: Token.toJsonAll p ts

end

/-- The JSON listing of a program. -/
def Program.jsonListing (p : Program) : String :=
  (JsonValue.array (Token.toJsonAll p p.tokens)).write ++ "\n"

end ContentStream

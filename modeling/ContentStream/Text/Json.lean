import ContentStream.Decimal.Style
import ContentStream.Text.Quoted

/-!
# JSON documents

A JSON document is written over several lines, with an indent of two blanks for each level. Text is
written as it is except for quotes, backslashes and control characters.
-/

namespace ContentStream

/-- A **JSON value**. The fields of an object are written in the given order. -/
inductive JsonValue where
  | null
  | boolean (value : Bool)
  | natural (value : Nat)
  | integer (value : Int)
  | number (value : Float)
  | string (text : String)
  | array (items : List JsonValue)
  | object (fields : List (String × JsonValue))

namespace JsonValue

/-- A character inside a JSON string. -/
def escapedChar (c : Char) : List Char :=
  if c == '"' then ['\\', '"']
  else if c == '\\' then ['\\', '\\']
  else if c == '\x08' then ['\\', 'b']
  else if c == '\t' then ['\\', 't']
  else if c == '\n' then ['\\', 'n']
  else if c == '\x0c' then ['\\', 'f']
  else if c == '\r' then ['\\', 'r']
  else if c.toNat < 0x10 then ['\\', 'u', '0', '0', '0'] ++ Text.hex c.toNat
  else if c.toNat < 0x20 then ['\\', 'u', '0', '0'] ++ Text.hex c.toNat
  else [c]

/-- A JSON string. -/
def quoted (text : String) : String :=
  String.ofList ('"' :: text.toList.flatMap escapedChar ++ ['"'])

/-- The line break before an element at some level. -/
def lineBreak (level : Nat) : String :=
  String.ofList ('\n' :: List.replicate (2 * level) ' ')

/-- Elements between brackets, one to a line. -/
def bracketed (opening closing : String) (level : Nat) (elements : List String) : String :=
  if elements.isEmpty then opening ++ closing
  else
    opening ++ ",".intercalate (elements.map fun e => lineBreak (level + 1) ++ e)
      ++ lineBreak level ++ closing

mutual

/-- A value at some level of a document. -/
def writeAt (level : Nat) : JsonValue → String
  | null => "null"
  | boolean value => if value then "true" else "false"
  | natural value => toString value
  | integer value => toString value
  | number value => Decimal.Style.json.write value
  | string text => quoted text
  | array items => bracketed "[" "]" level (writeItems (level + 1) items)
  | object fields => bracketed "\x7b" "\x7d" level (writeFields (level + 1) fields)

/-- The items of an array at some level. -/
def writeItems (level : Nat) : List JsonValue → List String
  | [] => []
  | v :: vs => v.writeAt level :: writeItems level vs

/-- The fields of an object at some level. -/
def writeFields (level : Nat) : List (String × JsonValue) → List String
  | [] => []
  | (name, v) :: fields => (quoted name ++ ": " ++ v.writeAt level) :: writeFields level fields

end

/-- The text of a document. -/
def write (v : JsonValue) : String :=
  v.writeAt 0

/-- An array of numbers. -/
def numbers (xs : List Float) : JsonValue :=
  .array (xs.map .number)

/-- The value of an option: null stands for none. -/
def ofOption {α : Type} (f : α → JsonValue) : Option α → JsonValue
  | none => null
  | some a => f a

end JsonValue

end ContentStream

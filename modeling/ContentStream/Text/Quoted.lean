import ContentStream.Text.Printable
import ContentStream.Text.Utf8

/-!
# Quoted text

Two ways to show text unambiguously in diagnostics and listings: a text between double quotes, and
the bytes of a string with an escape for each byte that is not a printable ASCII character.
-/

namespace ContentStream

namespace Text

/-- A hexadecimal numeral in lower case. -/
def hex (n : Nat) : List Char :=
  Nat.toDigits 16 n

/-- A character inside double quotes. -/
def quotedChar (c : Char) : List Char :=
  if c == '\x00' then ['\\', '0']
  else if c == '\t' then ['\\', 't']
  else if c == '\r' then ['\\', 'r']
  else if c == '\n' then ['\\', 'n']
  else if c == '"' then ['\\', '"']
  else if c == '\\' then ['\\', '\\']
  else if shows c then [c]
  else ['\\', 'u', '\x7b'] ++ hex c.toNat ++ ['\x7d']

/-- A text between double quotes. -/
def quoted (text : String) : String :=
  String.ofList ('"' :: text.toList.flatMap quotedChar ++ ['"'])

/-- A byte escaped unless it is a printable ASCII character other than a quote or a backslash. -/
def escapedByte (b : UInt8) : List Char :=
  if b == 0x09 then ['\\', 't']
  else if b == 0x0D then ['\\', 'r']
  else if b == 0x0A then ['\\', 'n']
  else if b == 0x27 then ['\\', '\'']
  else if b == 0x22 then ['\\', '"']
  else if b == 0x5C then ['\\', '\\']
  else if 0x20 ≤ b && b < 0x7F then [Char.ofNat b.toNat]
  else if b < 0x10 then ['\\', 'x', '0'] ++ hex b.toNat
  else ['\\', 'x'] ++ hex b.toNat

/-- The bytes of a string, escaped one by one. -/
def escaped (bytes : Bytes) : String :=
  String.ofList (bytes.flatMap escapedByte)

end Text

end ContentStream

import ContentStream.Units

/-!
# Reading bytes as text

Names and operators are sequences of bytes which need not be well-formed UTF-8. Reading them as
text never fails: a maximal run of bytes that begins a character but does not complete one, and
each byte that begins none, becomes one replacement character `U+FFFD`.

## Main definitions

* `Utf8.lead?`: what the first byte of a character promises about the bytes that follow.
* `Utf8.decode`: the text of a byte sequence.
-/

namespace ContentStream

/-- A byte sequence. -/
abbrev Bytes := List UInt8

namespace Utf8

/-- The **promise of a lead byte**: its own share of the code point, and for each byte that has
to follow the least and the greatest value it may take. The bounds on the first of these exclude
overlong forms, surrogates and values beyond the last code point. -/
structure Lead where
  share : Nat
  followers : List (UInt8 × UInt8)

/-- The promise made by a byte at the start of a character; `none` if no character starts with
it. -/
def lead? (b : UInt8) : Option Lead :=
  let any : UInt8 × UInt8 := (0x80, 0xBF)
  if b < 0x80 then some ⟨b.toNat, []⟩
  else if b < 0xC2 then none
  else if b < 0xE0 then some ⟨b.toNat - 0xC0, [any]⟩
  else if b == 0xE0 then some ⟨0x0, [(0xA0, 0xBF), any]⟩
  else if b == 0xED then some ⟨0xD, [(0x80, 0x9F), any]⟩
  else if b < 0xF0 then some ⟨b.toNat - 0xE0, [any, any]⟩
  else if b == 0xF0 then some ⟨0x0, [(0x90, 0xBF), any, any]⟩
  else if b < 0xF4 then some ⟨b.toNat - 0xF0, [any, any, any]⟩
  else if b == 0xF4 then some ⟨0x4, [(0x80, 0x8F), any, any]⟩
  else none

/-- The run of bytes that keep a lead byte's promise, as far as it goes. -/
def kept : List (UInt8 × UInt8) → Bytes → Bytes
  | (low, high) :: more, b :: bs => if low ≤ b && b ≤ high then b :: kept more bs else []
  | _, _ => []

/-- The replacement character, which stands for bytes that form no character. -/
def replacement : Char := '\uFFFD'

/-- The first character of the bytes `b :: bs`, and how many bytes of `bs` belong to it. -/
def first (b : UInt8) (bs : Bytes) : Char × Nat :=
  match lead? b with
  | none => (replacement, 0)
  | some lead =>
    let run := kept lead.followers bs
    if run.length == lead.followers.length then
      (Char.ofNat (run.foldl (fun point c => point * 64 + (c.toNat - 0x80)) lead.share), run.length)
    else
      (replacement, run.length)

/-- The text of a byte sequence. -/
def decode (bytes : Bytes) : String :=
  String.ofList (units (fun b bs => ([(first b bs).1], (first b bs).2)) bytes)

/-- The bytes of a text. -/
def encode (text : String) : Bytes :=
  text.toUTF8.toList

end Utf8

end ContentStream

import ContentStream.Text.Utf8

/-!
# Fonts

For the purposes of interpretation a font is a way to split the bytes of a shown string into
glyphs, each with the width by which it moves the text on. Two fonts are told apart by identity,
not by what they do: the same font resource is always the same font.
-/

namespace ContentStream

/-- A **glyph** of a shown string. Its width is in thousandths of the unit of text space. -/
structure Glyph where
  code : Nat
  width : Float
  /-- Whether the code was a single byte of the string. -/
  singleByte : Bool

/-- Whether a glyph is a word space: a single byte with the code of the space character. -/
def Glyph.isWordSpace (g : Glyph) : Bool :=
  g.singleByte && g.code == 32

/-- A **font**. -/
structure Font where
  /-- Distinguishes the font from every other one. -/
  identity : Nat
  name : String
  decode : Bytes → List Glyph

namespace Font

/-- A simple font: every byte is a code. The widths are given for some codes, of which the last
entry counts, and by default for the others. -/
def simple (identity : Nat) (name : String) (default : Float) (widths : List (Nat × Float)) :
    Font where
  identity := identity
  name := name
  decode bytes := bytes.map fun b =>
    { code := b.toNat
      width := ((widths.reverse.find? fun entry => entry.1 == b.toNat).map Prod.snd).getD default
      singleByte := true }

end Font

end ContentStream

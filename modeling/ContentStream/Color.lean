import ContentStream.Geometry
import ContentStream.Numeral

/-!
# Color spaces and paints

A paint is what an area is covered with: a solid color, a tile that repeats, or a shading. A solid
color is a list of components whose meaning is given by the color space it was set in.
-/

namespace ContentStream

/-! ### Color spaces -/

/-- A **color space**. A pattern space may stand over a space in which its stencils are tinted. -/
inductive ColorSpace where
  | named (name : String) (components : Nat)
  | patternOver (base : ColorSpace)
deriving DecidableEq

/-- A color: its components in some space. -/
abbrev Color := List Float

/-- A tint: a color of a stencil. Tints are told apart by the bits of their numerals. -/
abbrev Tint := List Numeral

/-- The color of a tint. -/
def Tint.color (t : Tint) : Color :=
  t.map Numeral.value

namespace ColorSpace

/-- The name of a color space. -/
def name : ColorSpace → String
  | named name _ => name
  | patternOver _ => "Pattern"

/-- The number of components of a color. A pattern counts as one. -/
def components : ColorSpace → Nat
  | named _ n => n
  | patternOver _ => 1

/-- The space under a pattern space. -/
def base? : ColorSpace → Option ColorSpace
  | named _ _ => none
  | patternOver base => some base

/-- The gray levels of the device. -/
def deviceGray : ColorSpace := named "DeviceGray" 1

/-- The additive colors of the device. -/
def deviceRgb : ColorSpace := named "DeviceRGB" 3

/-- The subtractive colors of the device. -/
def deviceCmyk : ColorSpace := named "DeviceCMYK" 4

/-- The space of patterns that carry their own colors. -/
def pattern : ColorSpace := named "Pattern" 1

/-- Whether colors of a space are patterns. The name decides. -/
def isPattern (s : ColorSpace) : Bool :=
  s.name == "Pattern"

/-- The full name of a space that may be abbreviated. -/
def fullName (name : String) : String :=
  if name == "G" then "DeviceGray"
  else if name == "RGB" then "DeviceRGB"
  else if name == "CMYK" then "DeviceCMYK"
  else name

/-- The spaces every content stream can name without resources. -/
def predefined? (name : String) : Option ColorSpace :=
  [deviceGray, deviceRgb, deviceCmyk, pattern].find? fun s => s.name == fullName name

/-- The initial color of a space: black in the device spaces, zero elsewhere. -/
def initial (s : ColorSpace) : Color :=
  if s.name == "DeviceCMYK" then [0.0, 0.0, 0.0, 1.0]
  else if s.name == "Pattern" then [0.0]
  else List.replicate s.components 0.0

end ColorSpace

/-! ### Paints -/

/-- A **shading**: a smooth transition of colors, possibly limited to a rectangle. -/
structure Shading where
  kind : Int
  space : ColorSpace
  bbox : Option (Rect Float)
  background : Option Color
deriving BEq

/-- A **tile**: the rendered cell of a tiling pattern. The surface is what the device that
rendered the cell gave it as a handle. -/
structure Tile where
  pattern : Nat
  bbox : Rect Float
  xStep : Float
  yStep : Float
  matrix : Matrix Float
  surface : Option Nat

/-- Tiles are equal if they show the same surface in the same place; the steps at which they
repeat do not count. -/
instance : BEq Tile where
  beq s t := s.pattern == t.pattern && s.bbox == t.bbox && s.matrix == t.matrix
    && s.surface == t.surface

/-- A **paint**. -/
inductive Paint where
  | solid (color : Color)
  | tiling (tile : Tile) (tint : Option Color)
  | shading (shading : Shading) (matrix : Matrix Float)
deriving BEq

end ContentStream

/-!
# Compositing

How what is painted combines with what is there: the blend modes, and the intent with which
colors are converted for the device.
-/

namespace ContentStream

/-- A **blend mode**. -/
inductive BlendMode where
  | normal
  | multiply
  | screen
  | overlay
  | darken
  | lighten
  | colorDodge
  | colorBurn
  | hardLight
  | softLight
  | difference
  | exclusion
  | hue
  | saturation
  | color
  | luminosity
deriving DecidableEq

namespace BlendMode

/-- All blend modes. -/
def all : List BlendMode :=
  [normal, multiply, screen, overlay, darken, lighten, colorDodge, colorBurn, hardLight, softLight,
    difference, exclusion, hue, saturation, color, luminosity]

/-- The name of a blend mode. -/
def name : BlendMode → String
  | normal => "Normal"
  | multiply => "Multiply"
  | screen => "Screen"
  | overlay => "Overlay"
  | darken => "Darken"
  | lighten => "Lighten"
  | colorDodge => "ColorDodge"
  | colorBurn => "ColorBurn"
  | hardLight => "HardLight"
  | softLight => "SoftLight"
  | difference => "Difference"
  | exclusion => "Exclusion"
  | hue => "Hue"
  | saturation => "Saturation"
  | color => "Color"
  | luminosity => "Luminosity"

/-- The blend mode with a given name. An older name of the normal mode is still understood. -/
def ofName? (text : String) : Option BlendMode :=
  if text == "Compatible" then some normal else all.find? fun m => m.name == text

end BlendMode

/-- A **rendering intent**. -/
inductive RenderingIntent where
  | absoluteColorimetric
  | relativeColorimetric
  | saturation
  | perceptual
deriving DecidableEq

namespace RenderingIntent

/-- The name of a rendering intent. -/
def name : RenderingIntent → String
  | absoluteColorimetric => "AbsoluteColorimetric"
  | relativeColorimetric => "RelativeColorimetric"
  | saturation => "Saturation"
  | perceptual => "Perceptual"

/-- The intent with a given name. An unknown name means the default one. -/
def ofName (text : String) : RenderingIntent :=
  ([absoluteColorimetric, saturation, perceptual].find? fun i => i.name == text).getD
    relativeColorimetric

end RenderingIntent

end ContentStream

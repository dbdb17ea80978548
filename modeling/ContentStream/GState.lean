import ContentStream.Color
import ContentStream.Compositing
import ContentStream.Font
import ContentStream.Path
import ContentStream.Stroke

/-!
# The graphics state

Everything a painting operator looks up rather than takes as an operand. A graphics state is a
plain value: a saved copy is not affected by what happens afterwards.

## Main definitions

* `GState`: the graphics state, with the parameters of text and of strokes in parts of their own.
* `Side`: which of its two inks an operator is about.
-/

namespace ContentStream

/-! ### Text parameters -/

/-- How **glyphs are painted**. The last four modes also add them to the clip. -/
inductive RenderMode where
  | fill
  | stroke
  | fillStroke
  | invisible
  | fillClip
  | strokeClip
  | fillStrokeClip
  | clip
deriving DecidableEq

namespace RenderMode

/-- All render modes, in the order of their codes. -/
def all : List RenderMode :=
  [fill, stroke, fillStroke, invisible, fillClip, strokeClip, fillStrokeClip, clip]

/-- The render mode with a numeric code. -/
def ofCode? (code : Int) : Option RenderMode :=
  if 0 ≤ code then all[code.toNat]? else none

/-- The name of a render mode. -/
def name : RenderMode → String
  | fill => "Fill"
  | stroke => "Stroke"
  | fillStroke => "FillStroke"
  | invisible => "Invisible"
  | fillClip => "FillClip"
  | strokeClip => "StrokeClip"
  | fillStrokeClip => "FillStrokeClip"
  | clip => "Clip"

end RenderMode

/-- The **text parameters**. -/
structure TextState where
  font : Option Font := none
  size : Float := 12.0
  charSpacing : Float := 0.0
  wordSpacing : Float := 0.0
  leading : Float := 0.0
  rise : Float := 0.0
  /-- As a fraction: one is the natural width. -/
  horizontalScale : Float := 1.0
  renderMode : RenderMode := .fill
  knockout : Bool := true

/-- Text parameters agree if they select the same font and have equal values. -/
instance : BEq TextState where
  beq s t := s.font.map Font.identity == t.font.map Font.identity && s.size == t.size
    && s.charSpacing == t.charSpacing && s.wordSpacing == t.wordSpacing
    && s.leading == t.leading && s.rise == t.rise && s.horizontalScale == t.horizontalScale
    && s.renderMode == t.renderMode && s.knockout == t.knockout

/-! ### Inks -/

/-- The **side** an operator is about: the inside of shapes, or their outline. -/
inductive Side where
  | fill
  | stroke
deriving DecidableEq

/-- An **ink**: a paint, and the color space it was chosen in. -/
structure Ink where
  paint : Paint := .solid [0.0]
  space : ColorSpace := .deviceGray
deriving BEq

/-- The ink of a color of the device or of a fresh color space. -/
def Ink.initial (space : ColorSpace) : Ink :=
  ⟨.solid space.initial, space⟩

/-! ### The state -/

/-- The **graphics state**. -/
structure GState where
  /-- Takes user space to device space. -/
  ctm : Matrix Float := Matrix.identity
  /-- The current point, in user space. -/
  point : Option (Point Float) := none
  fill : Ink := {}
  stroke : Ink := {}
  fillAlpha : Float := 1.0
  strokeAlpha : Float := 1.0
  blendMode : BlendMode := .normal
  alphaIsShape : Bool := false
  line : Stroke := {}
  flatness : Float := 0.0
  /-- The latest clip path, in device space. -/
  clip : Option (Path Float) := none
  /-- The intersection of the bounds of all clip paths so far. -/
  clipBounds : Option (Rect Float) := none
  text : TextState := {}
  intent : RenderingIntent := .relativeColorimetric
deriving BEq

namespace GState

/-- The default state under a transform. -/
def under (ctm : Matrix Float) : GState :=
  { ctm }

/-- The ink of a side. -/
def ink (gs : GState) : Side → Ink
  | .fill => gs.fill
  | .stroke => gs.stroke

/-- The state with another ink on one side. -/
def setInk (gs : GState) (side : Side) (ink : Ink) : GState :=
  match side with
  | .fill => { gs with fill := ink }
  | .stroke => { gs with stroke := ink }

end GState

end ContentStream

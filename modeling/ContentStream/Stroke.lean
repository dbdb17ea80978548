import ContentStream.Scalar

/-!
# Strokes

The parameters of a stroke are kept as they were set. A device works with a *style* in which they
are made consistent: no width is negative, no miter limit is below one, and a dash pattern that
could not be drawn is a solid line. The style is computed when it is first asked for and kept
until a parameter changes.
-/

namespace ContentStream

/-- The shape of the **ends of a line**. -/
inductive LineCap where
  | butt
  | round
  | projectingSquare
deriving DecidableEq

/-- The cap with a numeric code. -/
def LineCap.ofCode? (code : Int) : Option LineCap :=
  if code == 0 then some butt
  else if code == 1 then some round
  else if code == 2 then some projectingSquare
  else none

/-- The name of a cap. -/
def LineCap.name : LineCap → String
  | butt => "Butt"
  | round => "Round"
  | projectingSquare => "ProjectingSquare"

/-- The shape of the **corners of a line**. -/
inductive LineJoin where
  | miter
  | round
  | bevel
deriving DecidableEq

/-- The join with a numeric code. -/
def LineJoin.ofCode? (code : Int) : Option LineJoin :=
  if code == 0 then some miter
  else if code == 1 then some round
  else if code == 2 then some bevel
  else none

/-- The name of a join. -/
def LineJoin.name : LineJoin → String
  | miter => "Miter"
  | round => "Round"
  | bevel => "Bevel"

/-- A **dash pattern**: the lengths of dashes and gaps in turn, and where in it a line begins. -/
structure Dash where
  lengths : List Float
  phase : Float
deriving BEq

/-- Whether a pattern amounts to a solid line: it is empty, has a negative length, or has only zero
lengths. -/
def Dash.isSolid (d : Dash) : Bool :=
  d.lengths.isEmpty || d.lengths.any (fun x => x < 0.0) || d.lengths.all (fun x => x == 0.0)

/-- A **stroke style**: stroke parameters fit for a device. -/
structure StrokeStyle where
  width : Float
  cap : LineCap
  join : LineJoin
  miterLimit : Float
  dash : Option Dash

/-- The **stroke parameters** as set, and the style made of them if it was asked for. -/
structure Stroke where
  width : Float := 1.0
  cap : LineCap := .butt
  join : LineJoin := .miter
  miterLimit : Float := 10.0
  dash : Dash := ⟨[], 0.0⟩
  realized : Option StrokeStyle := none

/-- Stroke parameters are compared as set; whether the style was asked for does not count. -/
instance : BEq Stroke where
  beq s t := s.width == t.width && s.cap == t.cap && s.join == t.join
    && s.miterLimit == t.miterLimit && s.dash == t.dash

namespace Stroke

/-- The style of the present parameters. -/
def style (s : Stroke) : StrokeStyle where
  width := Scalar.larger 0.0 s.width
  cap := s.cap
  join := s.join
  miterLimit := Scalar.larger 1.0 s.miterLimit
  dash := if s.dash.isSolid then none else some s.dash

/-- Asks for the style: gives the kept one, or computes it and keeps it. -/
def realize (s : Stroke) : StrokeStyle × Stroke :=
  match s.realized with
  | some kept => (kept, s)
  | none => (s.style, { s with realized := some s.style })

/-- Sets the width. -/
def setWidth (s : Stroke) (width : Float) : Stroke :=
  { s with width, realized := none }

/-- Sets the cap. -/
def setCap (s : Stroke) (cap : LineCap) : Stroke :=
  { s with cap, realized := none }

/-- Sets the join. -/
def setJoin (s : Stroke) (join : LineJoin) : Stroke :=
  { s with join, realized := none }

/-- Sets the miter limit. -/
def setMiterLimit (s : Stroke) (miterLimit : Float) : Stroke :=
  { s with miterLimit, realized := none }

/-- Sets the dash pattern. -/
def setDash (s : Stroke) (dash : Dash) : Stroke :=
  { s with dash, realized := none }

end Stroke

end ContentStream

import ContentStream.Scalar

/-!
# Points, rectangles and affine transforms

A transform `(a, b, c, d, e, f)` takes the point `(x, y)` to `(a x + c y + e, b x + d y + f)`.
Transforms compose left to right: `m.concat n` applies `m` first, so a program that prepends its
own transform `m` to the current one `n` continues under `m.concat n`.

A rectangle is given by two opposite corners; it is *normal* if the first is the lower left one.
-/

namespace ContentStream

/-- A **point** of the plane. -/
structure Point (α : Type) where
  x : α
  y : α
deriving BEq

/-- A **rectangle**, by two opposite corners. -/
structure Rect (α : Type) where
  x0 : α
  y0 : α
  x1 : α
  y1 : α
deriving BEq

/-- An **affine transform** of the plane. -/
structure Matrix (α : Type) where
  a : α
  b : α
  c : α
  d : α
  e : α
  f : α
deriving BEq

variable {α : Type} [Scalar α]

/-! ### Transforms -/

namespace Matrix

/-- The identity transform. -/
def identity : Matrix α :=
  ⟨Scalar.one, Scalar.zero, Scalar.zero, Scalar.one, Scalar.zero, Scalar.zero⟩

/-- The composition that applies `m` first and `n` second. -/
def concat (m n : Matrix α) : Matrix α where
  a := n.a * m.a + n.c * m.b
  b := n.b * m.a + n.d * m.b
  c := n.a * m.c + n.c * m.d
  d := n.b * m.c + n.d * m.d
  e := n.a * m.e + n.c * m.f + n.e
  f := n.b * m.e + n.d * m.f + n.f

/-- Moves the origin to `v`, measured in the transform's own coordinates. -/
def translate (m : Matrix α) (v : Point α) : Matrix α :=
  { m with
    e := v.x * m.a + v.y * m.c + m.e
    f := v.x * m.b + v.y * m.d + m.f }

/-- The image of a point. -/
def apply (m : Matrix α) (v : Point α) : Point α where
  x := m.a * v.x + m.c * v.y + m.e
  y := m.b * v.x + m.d * v.y + m.f

/-- The determinant of the linear part. -/
def det (m : Matrix α) : α :=
  m.a * m.d - m.b * m.c

/-- The inverse, unless the determinant is not finite or negligible. -/
def inverse? (m : Matrix α) : Option (Matrix α) :=
  if !Scalar.finite m.det || Scalar.negligible m.det then
    none
  else
    let a := m.d / m.det
    let b := -m.b / m.det
    let c := -m.c / m.det
    let d := m.a / m.det
    some ⟨a, b, c, d, -(m.e * a + m.f * c), -(m.e * b + m.f * d)⟩

end Matrix

/-! ### Rectangles -/

namespace Rect

/-- The bounding rectangle of a list of points. -/
def bound (points : List (Point α)) : Rect α where
  x0 := Scalar.lowest (points.map Point.x)
  y0 := Scalar.lowest (points.map Point.y)
  x1 := Scalar.highest (points.map Point.x)
  y1 := Scalar.highest (points.map Point.y)

/-- The rectangle with its corners put in normal order. -/
def normalize (r : Rect α) : Rect α where
  x0 := Scalar.smaller r.x0 r.x1
  y0 := Scalar.smaller r.y0 r.y1
  x1 := Scalar.larger r.x0 r.x1
  y1 := Scalar.larger r.y0 r.y1

/-- The intersection of two normal rectangles. Where they do not meet, the result is empty: its far
corner is pulled up to the near one, so neither side is ever negative. -/
def intersect (r s : Rect α) : Rect α :=
  let x0 := Scalar.larger r.x0 s.x0
  let y0 := Scalar.larger r.y0 s.y0
  { x0, y0
    x1 := Scalar.larger (Scalar.smaller r.x1 s.x1) x0
    y1 := Scalar.larger (Scalar.smaller r.y1 s.y1) y0 }

/-- The four corners, in the order in which an outline visits them. -/
def corners (r : Rect α) : List (Point α) :=
  [⟨r.x0, r.y0⟩, ⟨r.x1, r.y0⟩, ⟨r.x1, r.y1⟩, ⟨r.x0, r.y1⟩]

end Rect

/-- The image of a rectangle: the bounding rectangle of the images of its corners. -/
def Matrix.applyRect (m : Matrix α) (r : Rect α) : Rect α :=
  Rect.bound (r.corners.map m.apply)

end ContentStream

import ContentStream.Geometry

/-!
# Paths

A path is a list of segments together with the rule that tells its inside from its outside.
Nothing forces a path to begin with a move: the functions here append what they are given, and
the construction operators see to it that a subpath is opened first.
-/

namespace ContentStream

/-- A **path segment**. Curves list their control points before their end point. -/
inductive Segment (α : Type) where
  | move (p : Point α)
  | line (p : Point α)
  | quad (c p : Point α)
  | curve (c₁ c₂ p : Point α)
  | close
deriving BEq

/-- The **winding rule** that decides which points are inside a path. -/
inductive Winding where
  | nonzero
  | evenOdd
deriving DecidableEq

/-- A **path**: segments in drawing order, and a winding rule. -/
structure Path (α : Type) where
  segments : List (Segment α) := []
  winding : Winding := .nonzero
deriving BEq

variable {α : Type} [Scalar α]

namespace Segment

/-- The points of a segment, control points first. -/
def points : Segment α → List (Point α)
  | move p => [p]
  | line p => [p]
  | quad c p => [c, p]
  | curve c₁ c₂ p => [c₁, c₂, p]
  | close => []

/-- The image of a segment, point by point. -/
def transform (m : Matrix α) : Segment α → Segment α
  | move p => move (m.apply p)
  | line p => line (m.apply p)
  | quad c p => quad (m.apply c) (m.apply p)
  | curve c₁ c₂ p => curve (m.apply c₁) (m.apply c₂) (m.apply p)
  | close => close

/-- The point at which a segment opens a subpath, if it does. -/
def start? : Segment α → Option (Point α)
  | move p => some p
  | _ => none

end Segment

namespace Path

/-- The empty path, under the nonzero rule. -/
def empty : Path α := {}

/-- Whether a path has no segments. -/
def isEmpty (p : Path α) : Bool :=
  p.segments.isEmpty

/-- A path extended by segments. -/
def extend (p : Path α) (more : List (Segment α)) : Path α :=
  { p with segments := p.segments ++ more }

/-- A path extended by one segment. -/
def push (p : Path α) (s : Segment α) : Path α :=
  p.extend [s]

/-- The outline of a rectangle with corner `(x, y)` and sides `w` and `h`: a closed subpath. -/
def outline (x y w h : α) : List (Segment α) :=
  [.move ⟨x, y⟩, .line ⟨x + w, y⟩, .line ⟨x + w, y + h⟩, .line ⟨x, y + h⟩, .close]

/-- A path extended by a rectangle as a subpath of its own. -/
def rectangle (p : Path α) (x y w h : α) : Path α :=
  p.extend (outline x y w h)

/-- The path that outlines a rectangle given by its corners. -/
def ofRect (r : Rect α) : Path α :=
  empty.rectangle r.x0 r.y0 (r.x1 - r.x0) (r.y1 - r.y0)

/-- The start of the last subpath. -/
def subpathStart? (p : Path α) : Option (Point α) :=
  p.segments.reverse.findSome? Segment.start?

/-- The image of a path, under the same winding rule. -/
def transform (m : Matrix α) (p : Path α) : Path α :=
  { p with segments := p.segments.map (Segment.transform m) }

/-- All points of a path, control points included. -/
def points (p : Path α) : List (Point α) :=
  p.segments.flatMap Segment.points

/-- The bounding rectangle of a path's points; a path without points has none. -/
def bounds? (p : Path α) : Option (Rect α) :=
  if p.points.isEmpty then none else some (Rect.bound p.points)

end Path

end ContentStream

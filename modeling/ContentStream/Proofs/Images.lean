import ContentStream.Path

/-!
# Images of paths

A transform `(a, b, c, d, e, f)` takes a point `(x, y)` to `(a x + c y + e, b x + d y + f)`, and a
path to the path of the same kind through the points so taken. Here this is said of two paths with
no mention of how one is computed from the other: their points correspond coordinate by coordinate,
their segments are of the same kinds in the same order, and their winding rules agree. What is then
proved of the functions that compute images is that they meet this description.

Nothing depends on what the scalars are, so that the description serves for the machine numbers of
an interpretation and for exact arithmetic alike.

## Main definitions

* `Path.IsImageOf`: a path is what a transform makes of another path.
* `Matrix.IsComposite`: a transform applies one transform after another.

## Main results

* `Path.points_transform`: the points of an image are the images of the points.
* `Path.isImageOf_transform`: the image that is computed is the image that is described.
-/

namespace ContentStream

variable {α : Type} [Scalar α]

/-! ### Descriptions -/

/-- The kinds of segments. A segment is determined by its kind and by its points. -/
inductive SegmentKind where
  | move
  | line
  | quad
  | curve
  | close
deriving DecidableEq

/-- The kind of a segment, with its points forgotten. -/
def Segment.kind : Segment α → SegmentKind
  | move _ => .move
  | line _ => .line
  | quad _ _ => .quad
  | curve _ _ _ => .curve
  | close => .close

/-- A path is the **image** of another under a transform if it consists of the same kinds of
segments, each point `(x, y)` having gone to `(a x + c y + e, b x + d y + f)`. The inside of both
paths is told by the same rule. -/
structure Path.IsImageOf (image : Path α) (m : Matrix α) (path : Path α) : Prop where
  points : image.points =
    path.points.map fun p => ⟨m.a * p.x + m.c * p.y + m.e, m.b * p.x + m.d * p.y + m.f⟩
  kinds : image.segments.map Segment.kind = path.segments.map Segment.kind
  winding : image.winding = path.winding

/-- A transform is **composed** of two others, the first of which is applied first. Its entries are
those of the product of matrices, each computed in this order. -/
structure Matrix.IsComposite (k m n : Matrix α) : Prop where
  a : k.a = n.a * m.a + n.c * m.b
  b : k.b = n.b * m.a + n.d * m.b
  c : k.c = n.a * m.c + n.c * m.d
  d : k.d = n.b * m.c + n.d * m.d
  e : k.e = n.a * m.e + n.c * m.f + n.e
  f : k.f = n.b * m.e + n.d * m.f + n.f

/-! ### Images that are computed -/

/-- What is computed when transforms are set up one in the other is their composite. -/
theorem Matrix.isComposite_concat (m n : Matrix α) : (m.concat n).IsComposite m n :=
  ⟨rfl, rfl, rfl, rfl, rfl, rfl⟩

/-- Transforming a segment takes each of its points along, control points included, and leaves no
point behind. -/
theorem Segment.points_transform (m : Matrix α) (s : Segment α) :
    (s.transform m).points = s.points.map m.apply := by
  cases s <;> rfl

/-- Transforming a segment leaves its kind. -/
theorem Segment.kind_transform (m : Matrix α) (s : Segment α) : (s.transform m).kind = s.kind := by
  cases s <;> rfl

/-- The points of the image of a path are the images of its points, in the same order. -/
theorem Path.points_transform (m : Matrix α) (path : Path α) :
    (path.transform m).points = path.points.map m.apply := by
  simp only [points, transform, List.flatMap_map, List.map_flatMap, Segment.points_transform]

/-- The image that is computed is the image that is described: the two differ only in that one of
them says how it is come by. -/
theorem Path.isImageOf_transform (m : Matrix α) (path : Path α) :
    (path.transform m).IsImageOf m path where
  points := path.points_transform m
  kinds := by simp only [transform, List.map_map, Function.comp_def, Segment.kind_transform]
  winding := rfl

end ContentStream

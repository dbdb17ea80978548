/-!
# Scalars

Coordinates, matrix entries and color components are numbers of one kind. The geometry of this
library is written for any such kind, so that one definition serves the machine numbers a page
is interpreted with and the exact rationals its laws are stated over.

A scalar type supplies the four operations, a strict order, and the handful of choices where
machine numbers differ from exact ones: which values are finite, what the least and the greatest
of a list of numbers are, and below which size a determinant counts as zero.
-/

namespace ContentStream

/-- A **scalar** type: the numbers coordinates are made of. -/
class Scalar (α : Type) extends Add α, Sub α, Mul α, Div α, Neg α where
  zero : α
  one : α
  /-- The strict order. On machine numbers nothing is less, or greater, than NaN. -/
  less : α → α → Bool
  /-- The smaller of two numbers; of two equal ones the first, and a NaN gives way. -/
  smaller : α → α → α
  /-- The larger of two numbers; of two equal ones the first, and a NaN gives way. -/
  larger : α → α → α
  /-- The least of a list of numbers. -/
  lowest : List α → α
  /-- The greatest of a list of numbers. -/
  highest : List α → α
  finite : α → Bool
  /-- The size below which a determinant counts as zero. -/
  tolerance : α

namespace Scalar

/-- The smaller of two machine numbers. -/
def smallerFloat (a b : Float) : Float :=
  if b < a then b else if a.isNaN then b else a

/-- The larger of two machine numbers. -/
def largerFloat (a b : Float) : Float :=
  if a < b then b else if a.isNaN then b else a

/-- Machine numbers are scalars. The least of no numbers is `∞` and the greatest is `-∞`, so
neither end of a list is affected by a NaN in it. -/
instance : Scalar Float where
  zero := 0.0
  one := 1.0
  less a b := a < b
  smaller := smallerFloat
  larger := largerFloat
  lowest xs := xs.foldl smallerFloat (1.0 / 0.0)
  highest xs := xs.foldl largerFloat (-1.0 / 0.0)
  finite := Float.isFinite
  tolerance := 1e-12

/-- A number is negligible if its absolute value is below the tolerance. -/
def negligible {α : Type} [Scalar α] (x : α) : Bool :=
  less x tolerance && less (-x) tolerance

end Scalar

end ContentStream

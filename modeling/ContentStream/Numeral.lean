/-!
# Numerals

A machine number is stored in 64 bits. For almost every number the bits and the value determine
each other. Only a result without a value, such as the quotient of two infinities, comes in many
patterns, all of which count as the one value NaN. Where numbers are reckoned with, the value is
what matters; where they tell things apart, as the tints of tiles do, it is the bits.

## Main definitions

* `Numeral`: a machine number, given by its bits, and `Numeral.value`.
* `Numeral.ofResult`: the numeral of what operations on machine numbers give.
-/

namespace ContentStream

/-- A **numeral**: a machine number, given by its bits. -/
structure Numeral where
  bits : UInt64
deriving DecidableEq

namespace Numeral

/-- The value of a numeral. -/
def value (n : Numeral) : Float :=
  Float.ofBits n.bits

/-- The numeral of a value. Of the patterns of NaN it is the one without sign and payload. -/
def ofValue (x : Float) : Numeral :=
  ⟨x.toBits⟩

/-- The numeral of the result of operations that start from values other than NaN. If there is no
value left, the result has its sign bit set and no payload. -/
def ofResult (x : Float) : Numeral :=
  if x.isNaN then ⟨0xFFF8000000000000⟩ else ofValue x

/-- The opposite of a numeral, which has the other sign bit and is otherwise the same. -/
def opposite (n : Numeral) : Numeral :=
  ⟨n.bits ^^^ 0x8000000000000000⟩

/-- The opposite of the opposite is the numeral itself. -/
@[simp]
theorem opposite_opposite (n : Numeral) : n.opposite.opposite = n := by
  simp only [opposite, UInt64.xor_assoc, UInt64.xor_self, UInt64.xor_zero]

end Numeral

end ContentStream

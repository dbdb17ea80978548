/-!
# Shortest decimals

A finite machine number `m · 2^q` stands for all the reals that round to it, an interval around
its value. The digits it is written with are the shortest that name a real of this interval, and
of those the nearest to the value. They are found by trying one decimal grid after the other,
from the coarsest on which the leading digit can stand: on each grid only the two neighbours of
the value need be looked at. All comparisons are between natural numbers, so they are exact.
-/

namespace ContentStream

namespace Decimal

/-- A **binary number** `significand · 2^exponent`. The gap to the number below it is half the
gap to the one above exactly if `narrow` holds, that is, at a power of two. -/
structure Binary where
  significand : Nat
  exponent : Int
  narrow : Bool

/-- The magnitude of a finite machine number, read off its bits. -/
def Binary.ofBits (bits : UInt64) : Binary :=
  let biased := ((bits >>> 52) &&& 0x7FF).toNat
  let fraction := (bits &&& 0xFFFFFFFFFFFFF).toNat
  if biased == 0 then
    ⟨fraction, -1074, false⟩
  else
    ⟨Nat.pow 2 52 + fraction, (biased : Int) - 1075, fraction == 0 && biased > 1⟩

/-- How a **tie** between two equally near decimals is broken. -/
inductive Tie where
  | up
  | even
deriving DecidableEq

/-- A **decimal** `digits · 10^exponent`. -/
structure Digits where
  digits : Nat
  exponent : Int

/-- A **scale factor** `num / den`: the size of a unit of the last binary place, counted in steps
of a decimal grid. -/
structure Factor where
  num : Nat
  den : Nat

/-- The factor between `2^exponent` and `10^step`. -/
def Binary.factor (x : Binary) (step : Int) : Factor where
  num := Nat.pow 2 x.exponent.toNat * Nat.pow 10 (-step).toNat
  den := Nat.pow 2 (-x.exponent).toNat * Nat.pow 10 step.toNat

/-- Whether the point `d` of a grid reads back as the number: it lies between the halfway points to
the two neighbouring numbers. The halfway points themselves read back exactly if the significand is
even. -/
def Binary.readsBack (x : Binary) (r : Factor) (d : Nat) : Bool :=
  let low := (4 * x.significand - if x.narrow then 1 else 2) * r.num
  let high := (4 * x.significand + 2) * r.num
  let point := 4 * d * r.den
  if x.significand % 2 == 0 then low ≤ point && point ≤ high else low < point && point < high

/-- The nearest point of the grid `10^step` that reads back, if one does. -/
def Binary.onGrid? (x : Binary) (tie : Tie) (step : Int) : Option Digits :=
  let r := x.factor step
  let below := x.significand * r.num / r.den
  let above := below + 1
  let nearer :=
    match compare (2 * x.significand * r.num) ((below + above) * r.den) with
    | .lt => below
    | .gt => above
    | .eq =>
      match tie with
      | .up => above
      | .even => if below % 2 == 0 then below else above
  let farther := if nearer == below then above else below
  if x.readsBack r nearer then some ⟨nearer, step⟩
  else if x.readsBack r farther then some ⟨farther, step⟩
  else none

/-- Whether a number is below `10^k`. -/
def Binary.below (x : Binary) (k : Int) : Bool :=
  x.significand * (x.factor k).num < (x.factor k).den

/-- The scale of a positive number: the least `k` for which it is below `10^k`. The binary logarithm
gives it up to one or two. -/
def Binary.scale (x : Binary) : Int :=
  let guess := (x.significand.log2 + x.exponent) * 30103 / 100000 - 1
  let candidates : List Int := [guess, guess + 1, guess + 2, guess + 3]
  (candidates.find? x.below).getD guess

/-- Drops trailing zeros of the digits into the exponent. -/
def Digits.strip : (fuel : Nat) → Digits → Digits
  | 0, d => d
  | fuel + 1, d =>
    if d.digits != 0 && d.digits % 10 == 0 then strip fuel ⟨d.digits / 10, d.exponent + 1⟩ else d

/-- The shortest decimal of a positive number. Seventeen digits always suffice; the exact value
stands in for the case that never arises. -/
def Binary.shortest (x : Binary) (tie : Tie) : Digits :=
  let k := x.scale
  let found := (List.range 17).findSome? fun n => x.onGrid? tie (k - (n + 1 : Nat))
  let exact : Digits :=
    ⟨x.significand * Nat.pow 2 x.exponent.toNat * Nat.pow 5 (-x.exponent).toNat, min x.exponent 0⟩
  (found.getD exact).strip 400

end Decimal

end ContentStream

import ContentStream.Decimal.Shortest

/-!
# Number styles

Three ways to write a machine number with its shortest digits. They differ in the range that is
written positionally, in whether an integral value keeps a `.0`, in the sign of an exponent, and
in the words for values that are not numbers.

* `Style.exact` is for diagnostics: `1.0`, `0.0001`, `1e16`, `1e-5`.
* `Style.plain` is for content streams, which know no exponents: `1`, `0.0000001`.
* `Style.json` is for JSON documents: `1.0`, `1e-7`, `1e+20`, and `null` for what JSON cannot
  express.
-/

namespace ContentStream

namespace Decimal

/-- A **number style**. -/
structure Style where
  /-- Which exponents of the leading digit are written positionally. -/
  positional : Int → Bool
  /-- Whether a positional integer ends in `.0`. -/
  pointZero : Bool
  /-- The sign of a positive exponent. -/
  plus : String
  tie : Tie
  nan : String
  infinity : String
  minusInfinity : String

namespace Style

/-- The style of diagnostics. -/
def exact : Style where
  positional e := -4 ≤ e && e < 16
  pointZero := true
  plus := ""
  tie := .up
  nan := "NaN"
  infinity := "inf"
  minusInfinity := "-inf"

/-- The style of content streams. -/
def plain : Style where
  positional _ := true
  pointZero := false
  plus := ""
  tie := .up
  nan := "NaN"
  infinity := "inf"
  minusInfinity := "-inf"

/-- The style of JSON documents. -/
def json : Style where
  positional e := -5 ≤ e && e < 16
  pointZero := true
  plus := "+"
  tie := .even
  nan := "null"
  infinity := "null"
  minusInfinity := "null"

/-- Lays out the digits of a decimal, the first of which has the exponent `lead`. -/
def layout (n : Style) (digits : List Char) (lead : Int) : List Char :=
  let count : Int := digits.length
  if n.positional lead then
    if lead < 0 then
      '0' :: '.' :: List.replicate (-lead - 1).toNat '0' ++ digits
    else if count ≤ lead + 1 then
      digits ++ List.replicate (lead + 1 - count).toNat '0'
        ++ (if n.pointZero then ['.', '0'] else [])
    else
      digits.take (lead + 1).toNat ++ '.' :: digits.drop (lead + 1).toNat
  else
    let mantissa := match digits with
      | [] => []
      | [d] => [d]
      | d :: ds => d :: '.' :: ds
    mantissa ++ 'e' :: (if lead < 0 then [] else n.plus.toList) ++ (toString lead).toList

/-- The text of a finite magnitude. -/
def magnitude (n : Style) (x : Binary) : String :=
  if x.significand == 0 then
    if n.pointZero then "0.0" else "0"
  else
    let d := x.shortest n.tie
    let digits := Nat.toDigits 10 d.digits
    String.ofList (n.layout digits (d.exponent + digits.length - 1))

/-- The text of a number. A negative zero keeps its sign. -/
def write (n : Style) (x : Float) : String :=
  let bits := x.toBits
  if x.isNaN then n.nan
  else if x.isInf then (if x < 0.0 then n.minusInfinity else n.infinity)
  else (if bits >>> 63 == 1 then "-" else "") ++ n.magnitude (Binary.ofBits bits)

end Style

end Decimal

end ContentStream

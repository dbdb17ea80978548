/-!
# Reading decimals

Numbers in options and parameters are read in the usual notation: an optional sign, digits with
at most one point among or beside them, and an optional exponent; or one of the words `inf`,
`infinity` and `nan` in any case. The result is the machine number nearest to the decimal.
-/

namespace ContentStream

namespace Decimal

/-- A text split into its leading digits and the rest. -/
def digitRun (text : List Char) : List Char × List Char :=
  text.span Char.isDigit

/-- The natural number written by decimal digits. -/
def natOfDigits (digits : List Char) : Nat :=
  digits.foldl (fun n d => n * 10 + (d.toNat - '0'.toNat)) 0

/-- A text split into an optional sign and the rest. The flag tells a minus. -/
def signed : List Char → Bool × List Char
  | '-' :: rest => (true, rest)
  | '+' :: rest => (false, rest)
  | rest => (false, rest)

/-- The machine number nearest to `digits · 10^exponent`. Exponents far outside the range of
machine numbers are answered without computing their power. -/
def scale (digits : Nat) (exponent : Int) : Float :=
  let lead : Int := exponent + (Nat.toDigits 10 digits).length
  if digits == 0 || lead < -400 then 0.0
  else if 400 < lead then 1.0 / 0.0
  else if exponent < 0 then Float.ofScientific digits true exponent.natAbs
  else Float.ofScientific digits false exponent.natAbs

/-- The exponent part of a decimal: nothing, or a letter `e` and a signed integer. -/
def exponent? : List Char → Option Int
  | [] => some 0
  | e :: rest =>
    if e == 'e' || e == 'E' then
      let (negative, rest) := signed rest
      let (digits, rest) := digitRun rest
      if digits.isEmpty || !rest.isEmpty then none
      else some (if negative then -(natOfDigits digits : Int) else natOfDigits digits)
    else none

/-- The magnitude of a decimal, without its sign. -/
def magnitude? (text : List Char) : Option Float :=
  let word := String.ofList (text.map Char.toLower)
  if word == "inf" || word == "infinity" then some (1.0 / 0.0)
  else if word == "nan" then some (0.0 / 0.0)
  else
    let (whole, rest) := digitRun text
    let (fraction, rest) :=
      match rest with
      | '.' :: rest => digitRun rest
      | rest => ([], rest)
    if whole.isEmpty && fraction.isEmpty then none
    else do
      let e ← exponent? rest
      some (scale (natOfDigits (whole ++ fraction)) (e - fraction.length))

/-- The machine number written by a text. -/
def read? (text : String) : Option Float :=
  let (negative, rest) := signed text.toList
  (magnitude? rest).map fun x => if negative then -x else x

end Decimal

end ContentStream

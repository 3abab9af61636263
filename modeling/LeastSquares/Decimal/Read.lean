/-!
# Reading a decimal number

`readFloat?` accepts an optional sign followed by one of the words `inf`,
`infinity` and `nan` in any case, or by decimal digits with at most one point
among or around them and an optional exponent.  The value is the nearest 64-bit
one, a tie to the even mantissa.  `readInt?` accepts an optional sign and digits.
-/

namespace LeastSquares.Decimal

/-- The value of a row of decimal digits. -/
def natOfDigits (ds : List Char) : Nat :=
  ds.foldl (fun n c => 10 * n + (c.toNat - '0'.toNat)) 0

/-- `mantissa · 10 ^ exponent` as the nearest 64-bit value.  Exponents so large or so
small that the value is infinite or zero whatever the mantissa are not raised to. -/
def scaled (mantissa : Nat) (exponent : Int) : Float :=
  if mantissa = 0 ∨ exponent + mantissa.log2 + 1 < -400 then 0
  else if 400 < exponent then 1 / 0
  else Float.ofScientific mantissa (exponent < 0) exponent.natAbs

/-- `± mantissa · 10 ^ exponent` as the nearest 64-bit value. -/
def toFloat (negative : Bool) (mantissa : Nat) (exponent : Int) : Float :=
  if negative then -scaled mantissa exponent else scaled mantissa exponent

/-- A sign, if there is one, split off; `true` for a minus sign. -/
def splitSign : List Char → Bool × List Char
  | '-' :: rest => (true, rest)
  | '+' :: rest => (false, rest)
  | cs => (false, cs)

/-- What follows the digits of a number: nothing, or an exponent of ten. -/
def readExponent? : List Char → Option Int
  | [] => some 0
  | c :: rest =>
      let (negative, ds) := splitSign rest
      if (c = 'e' ∨ c = 'E') ∧ ds ≠ [] ∧ ds.all Char.isDigit then
        some (if negative then -(natOfDigits ds : Int) else natOfDigits ds)
      else none

/-- A number without its sign. -/
def readMagnitude? (negative : Bool) (cs : List Char) : Option Float :=
  let whole := cs.takeWhile Char.isDigit
  let rest := cs.dropWhile Char.isDigit
  let (fraction, tail) := match rest with
    | '.' :: after => (after.takeWhile Char.isDigit, after.dropWhile Char.isDigit)
    | _ => ([], rest)
  if whole ++ fraction = [] then none
  else (readExponent? tail).map fun e =>
    toFloat negative (natOfDigits (whole ++ fraction)) (e - fraction.length)

/-- The number that a text stands for, with nothing around it. -/
def readFloat? (cs : List Char) : Option Float :=
  let (negative, rest) := splitSign cs
  let word := String.ofList (rest.map Char.toLower)
  let signed (x : Float) : Float := if negative then -x else x
  if word = "inf" ∨ word = "infinity" then some (signed (1 / 0))
  else if word = "nan" then some (0 / 0)
  else readMagnitude? negative rest

/-- The integer that a text stands for, with nothing around it. -/
def readInt? (cs : List Char) : Option Int :=
  let (negative, ds) := splitSign cs
  if ds ≠ [] ∧ ds.all Char.isDigit then
    some (if negative then -(natOfDigits ds : Int) else natOfDigits ds)
  else none

end LeastSquares.Decimal

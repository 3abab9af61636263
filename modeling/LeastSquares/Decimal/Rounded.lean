import LeastSquares.Decimal.Notation

/-!
# A fixed number of significant digits

The exact value of a floating-point number, rounded to so many significant
digits with a tie to the even digit.  `withDigits` keeps all of them and always
writes an exponent; `general` writes six, drops the zeros at the end, and does
without an exponent from `0.0001` up to a million.
-/

namespace LeastSquares.Decimal

open Float.Model

/-- `num / den` to `count` significant digits, with the number of digits before
the point. -/
def significant (count num den : Nat) : List Char × Int :=
  let top := magnitude num den
  let grid := top - count
  let d := roundDiv (num * tenPow (-grid).toNat) (den * tenPow grid.toNat)
  if d = tenPow count then (digits (tenPow (count - 1)), top + 1) else (digits d, top)

/-- The text of a value whose digits and point `layout` arranges; `zero` is the
text of zero. -/
def writeRounded (count : Nat) (zero : List Char) (layout : List Char → Int → List Char)
    (x : Float) : List Char :=
  match x.toModel.unpack with
  | .notANumber => "nan".toList
  | .infinity .positive => "inf".toList
  | .infinity .negative => "-inf".toList
  | .zero .positive => zero
  | .zero .negative => '-' :: zero
  | .finite sign mantissa exponent _ =>
      let (ds, point) :=
        significant count (mantissa * twoPow exponent.toNat) (twoPow (-exponent).toNat)
      match sign with
      | .positive => layout ds point
      | .negative => '-' :: layout ds point

/-- `x` with `places + 1` significant digits and an exponent. -/
def withDigits (places : Nat) (x : Float) : String :=
  String.ofList
    (writeRounded (places + 1) (scientific (List.replicate (places + 1) '0') 1) scientific x)

/-- `x` with six significant digits and no zeros at the end. -/
def general (x : Float) : String :=
  String.ofList <| writeRounded 6 ['0'] (fun ds point =>
    let short := dropTrailingZeros ds
    if -4 < point && point ≤ 6 then positional [] short point else scientific short point) x

end LeastSquares.Decimal

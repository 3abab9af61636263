import LeastSquares.Decimal.Digits

/-!
# Decimal notation

Two ways to write a decimal number whose significant digits are known.
A number is given by its digits and by `point`, the number of digits before the
decimal point: the digits `123` with the point at `1` are `1.23`, at `-1` they
are `0.0123`, at `5` they are `12300`.
-/

namespace LeastSquares.Decimal

/-- The digits spread out around the decimal point.  `whole` is what follows the
digits of a number without a fraction. -/
def positional (whole : List Char) (ds : List Char) (point : Int) : List Char :=
  if point ≤ 0 then '0' :: '.' :: (List.replicate (-point).toNat '0' ++ ds)
  else if ds.length ≤ point.toNat then
    ds ++ List.replicate (point.toNat - ds.length) '0' ++ whole
  else ds.take point.toNat ++ '.' :: ds.drop point.toNat

/-- The exponent of ten with its sign and at least two digits. -/
def exponentText (e : Int) : List Char :=
  let ds := digits e.natAbs
  (if e < 0 then '-' else '+') :: (if ds.length < 2 then '0' :: ds else ds)

/-- The first digit, the others after a point, and the exponent of ten. -/
def scientific (ds : List Char) (point : Int) : List Char :=
  let mantissa := match ds with
    | [] => ['0']
    | [d] => [d]
    | d :: rest => d :: '.' :: rest
  mantissa ++ 'e' :: exponentText (point - 1)

/-- The digits without the zeros at their end. -/
def dropTrailingZeros (ds : List Char) : List Char :=
  (ds.reverse.dropWhile (· == '0')).reverse

end LeastSquares.Decimal

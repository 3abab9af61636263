/-!
# Decimal digits

The digits of natural numbers and integers, and the rounding of a quotient to
the nearest integer, a tie going to the even neighbour.
-/

namespace LeastSquares.Decimal

/-- A power of two. -/
abbrev twoPow (k : Nat) : Nat := Nat.pow 2 k

/-- A power of ten. -/
abbrev tenPow (k : Nat) : Nat := Nat.pow 10 k

/-- The decimal digits of `n`, without leading zeros. -/
def digits (n : Nat) : List Char := Nat.toDigits 10 n

/-- An integer in decimal, with a minus sign when it is negative. -/
def ofInt : Int → String
  | .ofNat n => String.ofList (digits n)
  | .negSucc n => String.ofList ('-' :: digits (n + 1))

/-- The integer nearest to `num / den`, of two nearest ones the even one. -/
def roundDiv (num den : Nat) : Nat :=
  let q := num / den
  let r := num % den
  if 2 * r < den then q else if den < 2 * r then q + 1 else q + q % 2

/-- The number `k` with `10 ^ (k - 1) ≤ num / den < 10 ^ k`, for a positive
quotient: how many digits stand before the decimal point, counted down through
zero for quotients below a tenth. -/
def magnitude (num den : Nat) : Int :=
  if den ≤ num then (digits (num / den)).length
  else
    let n := (digits (den / num)).length
    if den ≤ num * tenPow (n - 1) then 2 - n else 1 - n

end LeastSquares.Decimal

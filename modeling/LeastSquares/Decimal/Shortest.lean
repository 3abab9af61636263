import LeastSquares.Number.Binary
import LeastSquares.Decimal.Notation

/-!
# The shortest decimal that reads back

A floating-point value is written with the fewest decimal digits that still
determine it among the values of its format, and among those with the decimal
nearest to it.

## Strategy

A finite value `m · 2 ^ q` is the nearest one of its format for a whole interval
of reals, which reaches half way to either neighbour and includes its ends when
`m` is even.  The grid of multiples of `10 ^ g` has a point in that interval only
if one of the two grid points around the value is in it.  So the search goes
through the grids from coarse to fine and stops at the first with a hit.

`Text64` and `Text32` are the two styles in use: they differ in the numbers that
are written without an exponent.
-/

namespace LeastSquares.Decimal

open Float.Model

/-- A positive value and the reals that round to it, as numerators over one
denominator. -/
structure Neighborhood where
  /-- The lower end. -/
  low : Nat
  /-- The value. -/
  value : Nat
  /-- The upper end. -/
  high : Nat
  /-- The common denominator. -/
  den : Nat
  /-- Whether the ends round to the value as well. -/
  closed : Bool

/-- The neighborhood of `mantissa · 2 ^ exponent` among the values of `format`.
Below a power of two the neighbour is only half as far away. -/
def Neighborhood.of (format : Format) (mantissa : Nat) (exponent : Int) : Neighborhood :=
  let up := twoPow (exponent - 2).toNat
  let narrowBelow :=
    mantissa = twoPow format.mantissaBitsWithoutImplicit ∧ format.minExponent < exponent
  { low := (4 * mantissa - (if narrowBelow then 1 else 2)) * up
    value := 4 * mantissa * up
    high := (4 * mantissa + 2) * up
    den := twoPow (2 - exponent).toNat
    closed := mantissa % 2 == 0 }

/-- The multiple of `10 ^ grid` in the neighborhood that is nearest to the value,
of two equally near ones the even one. -/
def Neighborhood.nearest? (n : Neighborhood) (grid : Int) : Option Nat :=
  let up := tenPow (-grid).toNat
  let unit := n.den * tenPow grid.toNat
  let inside (c : Nat) : Bool :=
    if n.closed then n.low * up ≤ c * unit && c * unit ≤ n.high * up
    else n.low * up < c * unit && c * unit < n.high * up
  let d := n.value * up / unit
  if inside d then
    if inside (d + 1) then some (roundDiv (n.value * up) unit) else some d
  else if inside (d + 1) then some (d + 1) else none

/-- The shortest decimal in the neighborhood: its digits, and the number of digits
before the point. -/
def Neighborhood.shortest (n : Neighborhood) : List Char × Int :=
  let top := magnitude n.value n.den
  let hit := (List.range 17).findSome? fun (i : Nat) =>
    let grid := top - 1 - i
    (n.nearest? grid).map fun d => (digits d, grid)
  match hit with
  | some (ds, grid) => (dropTrailingZeros ds, ds.length + grid)
  | none => (['0'], 1)

/-- How the values of a format are written: with or without an exponent, as their
size and the digits found decide. -/
structure Style where
  /-- The format whose values are told apart. -/
  format : Format
  /-- Whether a value `num / den`, with `point` digits before the point, is written
  without an exponent. -/
  plain : (num den : Nat) → (point : Int) → Bool

/-- The text of a value under a style.  A whole number keeps one zero after the
point. -/
def Style.write (style : Style) (x : Float) : List Char :=
  match Number.hold style.format x.toModel.unpack with
  | .notANumber => "nan".toList
  | .infinity .positive => "inf".toList
  | .infinity .negative => "-inf".toList
  | .zero .positive => "0.0".toList
  | .zero .negative => "-0.0".toList
  | .finite sign mantissa exponent _ =>
      let n := Neighborhood.of style.format mantissa exponent
      let (ds, point) := n.shortest
      let text :=
        if style.plain n.value n.den point then positional ['.', '0'] ds point
        else scientific ds point
      match sign with
      | .positive => text
      | .negative => '-' :: text

/-- Sixty-four bits: no exponent while the first digit stands for a power of ten
from `-4` to `15`. -/
def Text64 : Style where
  format := Format.binary64
  plain := fun _ _ point => -4 < point && point ≤ 16

/-- Thirty-two bits: no exponent for values of at least `1 / 10000` and below a
million. -/
def Text32 : Style where
  format := Format.binary32
  plain := fun num den _ => den ≤ num * 10000 && num < den * 1000000

/-- The shortest text of a 64-bit value. -/
def ofFloat (x : Float) : String := String.ofList (Text64.write x)

end LeastSquares.Decimal

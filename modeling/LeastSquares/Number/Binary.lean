/-!
# Conversions between binary formats

Weights and factor vectors are kept at 24 bits of precision although every sum
is formed at 53.  This file holds the narrowing from the 64-bit to the 32-bit
format and the two conversions between floating-point values and integers.

All of them go through core's logical model of a floating-point value, so they
compute inside proofs as well as at run time.
-/

namespace LeastSquares.Number

open Float.Model

/-- A finite value rounded to the mantissa of `format`, a tie to the even
mantissa.  The exponent is not bounded from above. -/
def roundTo (format : Format) : UnpackedFloat → UnpackedFloat
  | .finite sign mantissa exponent _ => UnpackedFloat.round format sign mantissa exponent
  | value => value

/-- A value as `format` holds it: rounded, and infinite when the rounded value
is beyond the largest finite one. -/
def hold (format : Format) (value : UnpackedFloat) : UnpackedFloat :=
  UnpackedFloat.unpack format (UnpackedFloat.pack format (roundTo format value))

/-- The value of the 32-bit format nearest to `x`, a tie to the even mantissa,
as a 64-bit value again.  Zeros keep their sign and a NaN stays a NaN. -/
def narrow (x : Float) : Float :=
  .ofModel (.pack (roundTo Format.binary64 (hold Format.binary32 x.toModel.unpack)))

/-- The 64-bit value nearest to `n`, or nothing when that is infinite. -/
def ofInt? (n : Int) : Option Float :=
  let x := Float.ofInt n
  if x.isFinite then some x else none

/-- Whether an integer fits 64 bits with a sign. -/
def fitsInt64 (n : Int) : Bool :=
  -9223372036854775808 ≤ n && n < 9223372036854775808

/-- The integer part of a finite value, toward zero. -/
def wholePart? (x : Float) : Option Int :=
  match x.toModel.unpack with
  | .finite sign mantissa exponent _ =>
      some (sign.apply ((mantissa <<< exponent.toNat) >>> (-exponent).toNat))
  | .zero _ => some 0
  | _ => none

/-- A value equals itself or is a NaN. -/
theorem beq_self_or_isNaN (x : Float) : (x == x) = true ∨ x.isNaN = true := by
  change x.toModel.unpack.beq x.toModel.unpack = true ∨ x.toModel.unpack.isNaN = true
  cases x.toModel.unpack with
  | notANumber => exact Or.inr rfl
  | infinity sign => cases sign <;> exact Or.inl rfl
  | zero sign => exact Or.inl rfl
  | finite sign mantissa exponent _ =>
      have hexponent : compare exponent exponent = .eq := Std.compare_self
      have hmantissa : compare mantissa mantissa = .eq := Std.compare_self
      have hself : (compare exponent exponent).then (compare mantissa mantissa) = .eq := by
        rw [hexponent, hmantissa]; rfl
      have hswap : ((compare exponent exponent).then (compare mantissa mantissa)).swap = .eq := by
        rw [hself]; rfl
      cases sign
      · exact Or.inl (beq_iff_eq.mpr (congrArg some hswap))
      · exact Or.inl (beq_iff_eq.mpr (congrArg some hself))

theorem compare_eq_flip {x y : UnpackedFloat} (h : x.compare y = some .eq) :
    y.compare x = some .eq := by
  have hflip : ∀ {e e' : Int} {m m' : Nat}, (compare e e').then (compare m m') = .eq →
      (compare e' e).then (compare m' m) = .eq := by
    intro e e' m m' hsame
    obtain ⟨hexponent, hmantissa⟩ := Ordering.then_eq_eq.mp hsame
    rwa [Std.compare_eq_iff_eq.mp hexponent, Std.compare_eq_iff_eq.mp hmantissa] at hsame ⊢
  cases x with
  | notANumber => cases h
  | infinity s =>
      cases y with
      | infinity t => cases s <;> cases t <;> first | exact h | cases h
      | notANumber => cases h
      | zero t => cases s <;> cases h
      | finite t => cases s <;> cases h
  | zero s =>
      cases y with
      | zero t => rfl
      | notANumber => cases h
      | infinity t => cases t <;> cases h
      | finite t => cases t <;> cases h
  | finite s m e =>
      cases y with
      | notANumber => cases h
      | infinity t => cases t <;> cases h
      | zero t => cases s <;> cases h
      | finite t m' e' =>
          cases s <;> cases t
          · refine congrArg some (Ordering.swap_eq_eq.mpr (hflip (Ordering.swap_eq_eq.mp ?_)))
            exact Option.some_inj.mp h
          · cases h
          · cases h
          · exact congrArg some (hflip (Option.some_inj.mp h))

/-- Numerical equality is symmetric. -/
theorem beq_comm (x y : Float) : (x == y) = (y == x) := by
  change (x.toModel.unpack.compare y.toModel.unpack == some .eq) =
    (y.toModel.unpack.compare x.toModel.unpack == some .eq)
  rw [Bool.eq_iff_iff, beq_iff_eq, beq_iff_eq]
  exact ⟨compare_eq_flip, compare_eq_flip⟩

end LeastSquares.Number

import LeastSquares.Proofs.Number.Held
import Mathlib

/-!
# Zeros, and what is below them

A zero has a sign, which no comparison sees and which a sum does not keep.  Zeros apart, adding
something to the positive zero is no change, since the sum is packed and unpacked in the form in
which the summand is held already (`unpack_zero_add`).  So a narrowed value that is added to
nothing and narrowed again is the same value, but that it has lost the sign of a zero
(`narrow_zero_add`).

What is not below zero is a zero of either sign or has no negative sign (`beq_zero_or_isPositive`).
The sign of a product is that of its factors, and rounding keeps it even where the product leaves
the range on either side.  So a product of factors that are not below zero is not below zero
(`not_mul_lt_zero`), whether it is a number or not.
-/

namespace LeastSquares.Number

open Float.Model hiding pack unpack
open Float.Model.UnpackedFloat

variable {x y : Float} {f : Format}

theorem unpack_add (x y : Float) : (x + y).toModel.unpack = unpack Format.binary64
    (pack Format.binary64 (UnpackedFloat.add Format.binary64 x.toModel.unpack y.toModel.unpack)) :=
  rfl

theorem unpack_mul (x y : Float) : (x * y).toModel.unpack = unpack Format.binary64
    (pack Format.binary64 (UnpackedFloat.mul Format.binary64 x.toModel.unpack y.toModel.unpack)) :=
  rfl

theorem unpack_zero : (0.0 : Float).toModel.unpack = .zero .positive := rfl

/-- A value that equals zero is one of the two zeros. -/
theorem beq_zero_iff : (x == 0) = true ↔ ∃ sign, x.toModel.unpack = .zero sign := by
  change x.toModel.unpack.beq (.zero .positive) = true ↔ _
  constructor
  · intro h
    cases hx : x.toModel.unpack with
    | zero sign => exact ⟨sign, rfl⟩
    | notANumber =>
        rw [hx] at h
        cases h
    | infinity sign | finite sign =>
        rw [hx] at h
        cases sign <;> cases h
  · rintro ⟨sign, hzero⟩
    rw [hzero]
    rfl

/-- A value that is held comes back when it is packed and unpacked. -/
theorem unpack_pack_unpack (x : Float) :
    unpack Format.binary64 (pack Format.binary64 x.toModel.unpack) = x.toModel.unpack :=
  unpack_pack (isHeld_unpack (by decide) _)

/-- What is not zero is unchanged by being added to zero. -/
theorem unpack_zero_add (h : (x == 0) = false) :
    (0.0 + x).toModel.unpack = x.toModel.unpack := by
  have hsum : UnpackedFloat.add Format.binary64 (.zero .positive) x.toModel.unpack =
      x.toModel.unpack := by
    cases hx : x.toModel.unpack with
    | zero sign =>
        rw [beq_zero_iff.mpr ⟨sign, hx⟩] at h
        cases h
    | notANumber | infinity | finite => rfl
  rw [unpack_add, unpack_zero, hsum, unpack_pack_unpack]

/-- Zeros add up to the positive one. -/
theorem unpack_zero_add_of_zero (h : (x == 0) = true) :
    (0.0 + x).toModel.unpack = .zero .positive := by
  obtain ⟨sign, hzero⟩ := beq_zero_iff.mp h
  rw [unpack_add, unpack_zero, hzero]
  cases sign <;> rfl

/-! ## Zeros without a sign -/

/-- A value, but the positive zero for either zero. -/
def unsigned (x : Float) : Float := if x == 0 then 0 else x

theorem unsigned_unsigned (x : Float) : unsigned (unsigned x) = unsigned x := by
  unfold unsigned
  cases h : x == 0 with
  | true =>
      rw [if_pos rfl]
      rfl
  | false => rw [if_neg Bool.false_ne_true, h, if_neg Bool.false_ne_true]

/-- A value that is narrowed and then added to nothing, to be narrowed again, is the same but for
the sign of a zero. -/
theorem narrow_zero_add (x : Float) : narrow (0.0 + narrow x) = unsigned (narrow x) := by
  unfold unsigned
  cases h : narrow x == 0 with
  | true =>
      have hsum : narrow (0.0 + narrow x) = narrow 0 := by
        rw [narrow, unpack_zero_add_of_zero h]
        rfl
      rw [hsum, if_pos rfl]
      rfl
  | false =>
      have hsum : narrow (0.0 + narrow x) = narrow (narrow x) := by
        rw [narrow, unpack_zero_add h]
        rfl
      rw [hsum, narrow_narrow, if_neg Bool.false_ne_true]

/-! ## Below zero -/

theorem lt_iff : x < y ↔ x.toModel.unpack.lt y.toModel.unpack = true :=
  ⟨of_decide_eq_true, decide_eq_true⟩

theorem lt_zero_iff : x < 0 ↔ x.toModel.unpack.lt (.zero .positive) = true := lt_iff

/-- A value without a negative sign. -/
def IsPositive : UnpackedFloat → Prop
  | .infinity sign | .zero sign | .finite sign _ _ _ => sign = .positive
  | .notANumber => True

theorem isPositive_unpack {b : BitVec f.numBits} (h : unpackSign b = 0#1) :
    IsPositive (unpack f b) := by
  have hsign : Sign.ofBitVec (unpackSign b) = .positive := by rw [h]; rfl
  unfold unpack
  simp only [hsign]
  split_ifs <;> trivial

theorem isPositive_unpack_pack {u : UnpackedFloat} (h : IsPositive u) :
    IsPositive (unpack f (pack f u)) := by
  cases u with
  | notANumber =>
      rw [pack, unpack_packedNaN]
      exact h
  | infinity sign =>
      rw [pack, unpack_packedInfinity]
      exact h
  | zero sign =>
      rw [pack, unpack_packedZero]
      exact h
  | finite sign mantissa exponent hpos =>
      have hsign : sign.toBitVec = 0#1 := congrArg Sign.toBitVec h
      refine isPositive_unpack ?_
      rw [pack]
      split_ifs
      all_goals exact (unpackSign_packComponents _ _ _).trans hsign

theorem isPositive_roundWithAccuracy (mantissa : ℕ) (exponent : ℤ) (accuracy : Accuracy) :
    IsPositive (roundWithAccuracy f .positive mantissa exponent accuracy) := by
  unfold roundWithAccuracy
  dsimp only
  split_ifs <;> rfl

/-- A product of values without a negative sign has none. -/
theorem isPositive_mul {u v : UnpackedFloat} (hu : IsPositive u) (hv : IsPositive v) :
    IsPositive (UnpackedFloat.mul f u v) := by
  cases u with
  | notANumber => trivial
  | infinity sign =>
      cases v with
      | notANumber | zero => trivial
      | infinity sign' | finite sign' =>
          obtain rfl : sign = .positive := hu
          obtain rfl : sign' = .positive := hv
          rfl
  | zero sign =>
      cases v with
      | notANumber | infinity => trivial
      | zero sign' | finite sign' =>
          obtain rfl : sign = .positive := hu
          obtain rfl : sign' = .positive := hv
          rfl
  | finite sign mantissa exponent hpos =>
      obtain rfl : sign = .positive := hu
      cases v with
      | notANumber => trivial
      | infinity sign' | zero sign' =>
          obtain rfl : sign' = .positive := hv
          rfl
      | finite sign' =>
          obtain rfl : sign' = .positive := hv
          exact isPositive_roundWithAccuracy _ _ _

theorem not_lt_zero_of_isPositive (h : IsPositive x.toModel.unpack) : ¬ x < 0 := by
  rw [lt_zero_iff]
  intro hlt
  cases hx : x.toModel.unpack with
  | notANumber =>
      rw [hx] at hlt
      cases hlt
  | zero sign =>
      rw [hx] at hlt
      cases hlt
  | infinity sign | finite sign =>
      rw [hx] at h hlt
      obtain rfl : sign = .positive := h
      cases hlt

/-- What is not below zero is a zero, of whichever sign, or has no negative sign. -/
theorem beq_zero_or_isPositive (h : ¬ x < 0) : (x == 0) = true ∨ IsPositive x.toModel.unpack := by
  rw [lt_zero_iff] at h
  rw [beq_zero_iff]
  cases hx : x.toModel.unpack with
  | notANumber => exact .inr trivial
  | zero sign => exact .inl ⟨sign, rfl⟩
  | infinity sign | finite sign =>
      rw [hx] at h
      cases sign with
      | positive => exact .inr rfl
      | negative => exact absurd rfl h

theorem unpack_neg (x : Float) : (-x).toModel.unpack = UnpackedFloat.neg x.toModel.unpack := by
  have hheld : IsHeld Format.binary64 x.toModel.unpack := isHeld_unpack (by decide) _
  change unpack Format.binary64 (pack Format.binary64 (UnpackedFloat.neg x.toModel.unpack)) = _
  cases hx : x.toModel.unpack with
  | finite sign mantissa exponent hpos =>
      rw [hx] at hheld
      exact unpack_pack_finite hheld _
  | notANumber | infinity | zero => exact unpack_pack trivial

theorem isFinite_neg (x : Float) : (-x).isFinite = x.isFinite := by
  change (-x).toModel.unpack.isFinite = x.toModel.unpack.isFinite
  rw [unpack_neg]
  cases x.toModel.unpack <;> rfl

/-- The opposite of what is below zero is not. -/
theorem not_neg_lt_zero (h : x < 0) : ¬ -x < 0 := by
  rw [lt_zero_iff] at h
  refine not_lt_zero_of_isPositive ?_
  rw [unpack_neg]
  cases hx : x.toModel.unpack with
  | notANumber => trivial
  | zero sign =>
      rw [hx] at h
      cases h
  | infinity sign | finite sign =>
      rw [hx] at h
      cases sign with
      | negative => rfl
      | positive => cases h

/-- What a zero is multiplied by makes a zero or a NaN of it. -/
theorem mul_zero_cases (u : UnpackedFloat) (sign : Sign) :
    (∃ sign', UnpackedFloat.mul f u (.zero sign) = .zero sign') ∨
      UnpackedFloat.mul f u (.zero sign) = .notANumber := by
  cases u with
  | notANumber | infinity => exact .inr rfl
  | zero | finite => exact .inl ⟨_, rfl⟩

theorem zero_mul_cases (sign : Sign) (u : UnpackedFloat) :
    (∃ sign', UnpackedFloat.mul f (.zero sign) u = .zero sign') ∨
      UnpackedFloat.mul f (.zero sign) u = .notANumber := by
  cases u with
  | notANumber | infinity => exact .inr rfl
  | zero | finite => exact .inl ⟨_, rfl⟩

theorem not_mul_lt_zero_of_cases
    (h : (∃ sign, UnpackedFloat.mul Format.binary64 x.toModel.unpack y.toModel.unpack =
        .zero sign) ∨
      UnpackedFloat.mul Format.binary64 x.toModel.unpack y.toModel.unpack = .notANumber) :
    ¬ x * y < 0 := by
  rw [lt_zero_iff, unpack_mul]
  rcases h with ⟨sign, hzero⟩ | hnan
  · rw [hzero, pack, unpack_packedZero]
    exact Bool.false_ne_true
  · rw [hnan, pack, unpack_packedNaN]
    exact Bool.false_ne_true

/-- What is multiplied by a zero is not below zero. -/
theorem not_mul_lt_zero_of_beq_zero (hy : (y == 0) = true) : ¬ x * y < 0 := by
  obtain ⟨sign, hzero⟩ := beq_zero_iff.mp hy
  refine not_mul_lt_zero_of_cases ?_
  rw [hzero]
  exact mul_zero_cases _ sign

/-- A product of factors that are not below zero is not below zero, be it zero or a NaN. -/
theorem not_mul_lt_zero (hx : ¬ x < 0) (hy : ¬ y < 0) : ¬ x * y < 0 := by
  rcases beq_zero_or_isPositive hy with hzero | hy
  · exact not_mul_lt_zero_of_beq_zero hzero
  rcases beq_zero_or_isPositive hx with hzero | hx
  · obtain ⟨sign, hzero⟩ := beq_zero_iff.mp hzero
    refine not_mul_lt_zero_of_cases ?_
    rw [hzero]
    exact zero_mul_cases sign _
  · refine not_lt_zero_of_isPositive ?_
    rw [unpack_mul]
    exact isPositive_unpack_pack (isPositive_mul hx hy)

/-- No comparison tells the two zeros apart. -/
theorem lt_iff_of_beq_zero (hy : (y == 0) = true) : x < y ↔ x < 0 := by
  obtain ⟨sign, hzero⟩ := beq_zero_iff.mp hy
  have hlt : x.toModel.unpack.lt (.zero sign) = x.toModel.unpack.lt (.zero .positive) := by
    cases x.toModel.unpack with
    | notANumber | zero => rfl
    | infinity sign' | finite sign' => cases sign' <;> rfl
  rw [lt_iff, lt_zero_iff, hzero, hlt]

/-- A finite value that is neither below nor above a zero is one. -/
theorem beq_zero_of_not_lt (hfinite : x.isFinite = true) (hbelow : ¬ x < 0) (hy : (y == 0) = true)
    (habove : ¬ y < x) : (x == 0) = true := by
  obtain ⟨sign, hzero⟩ := beq_zero_iff.mp hy
  rcases beq_zero_or_isPositive hbelow with hx | hpositive
  · exact hx
  change x.toModel.unpack.isFinite = true at hfinite
  rw [lt_iff, hzero] at habove
  rw [beq_zero_iff]
  cases hx : x.toModel.unpack with
  | notANumber | infinity =>
      rw [hx] at hfinite
      cases hfinite
  | zero sign' => exact ⟨sign', rfl⟩
  | finite sign' =>
      rw [hx] at hpositive habove
      obtain rfl : sign' = .positive := hpositive
      exact absurd rfl habove

theorem le_of_lt (h : x < y) : x ≤ y := by
  have hlt : x.toModel.unpack.compare y.toModel.unpack = some .lt := beq_iff_eq.mp (lt_iff.mp h)
  have hle : x.toModel.unpack.le y.toModel.unpack = true := by
    rw [UnpackedFloat.le, hlt]
    rfl
  exact decide_eq_true hle

theorem isFinite_of_beq_zero (h : (x == 0) = true) : x.isFinite = true := by
  obtain ⟨sign, hzero⟩ := beq_zero_iff.mp h
  change x.toModel.unpack.isFinite = true
  rw [hzero]
  rfl

theorem not_lt_zero_of_nonneg (h : 0 ≤ x) : ¬ x < 0 := by
  have hle : (0 : Float).toModel.unpack.le x.toModel.unpack = true := of_decide_eq_true h
  rw [lt_zero_iff]
  intro hlt
  cases hx : x.toModel.unpack with
  | notANumber | zero =>
      rw [hx] at hlt
      cases hlt
  | infinity sign | finite sign =>
      rw [hx] at hle hlt
      cases sign with
      | positive => cases hlt
      | negative => cases hle

end LeastSquares.Number

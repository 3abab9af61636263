import LeastSquares.Number.Binary
import Mathlib

/-!
# What a format holds

A value of a format is kept in one form only: the mantissa of a finite value has as many
bits as the format allows, unless the exponent is the smallest one already.  `IsHeld` says
so.  Whatever is unpacked is in that form (`isHeld_unpack`), and what is in that form comes
back when it is packed and unpacked (`unpack_pack`).

Rounding finds the form: where no bit is lost, the mantissa is shifted to it in either
direction (`round_eq_finite`, `round_mul_two_pow`).  So a value of 32 bits that goes through
the 64-bit format is the same value again (`hold_widen`), and narrowing a second time
changes nothing (`narrow_narrow`).
-/

namespace LeastSquares.Number

open Float.Model hiding pack unpack
open Float.Model.UnpackedFloat

variable {f : Format}

/-- A finite value in the one form in which a format keeps it. -/
structure IsCanonical (f : Format) (mantissa : ℕ) (exponent : ℤ) : Prop where
  pos : 0 < mantissa
  lt : mantissa < 2 ^ f.mantissaBits
  minExponent_le : f.minExponent ≤ exponent
  normal : 2 ^ f.mantissaBitsWithoutImplicit ≤ mantissa ∨ exponent = f.minExponent
  le_maxExponent : exponent ≤ f.exponentBias - f.mantissaBitsWithoutImplicit

/-- A value of a format, in the form in which the format keeps it. -/
def IsHeld (f : Format) : UnpackedFloat → Prop
  | .finite _ mantissa exponent _ => IsCanonical f mantissa exponent
  | _ => True

/-! ## Formats -/

theorem minExponent_eq (f : Format) :
    f.minExponent = 1 - (f.exponentBias : ℤ) - f.mantissaBitsWithoutImplicit := by
  have hpos : 1 ≤ 2 ^ (f.exponentBits - 1) := Nat.one_le_two_pow
  rw [Format.minExponent, Format.exponentBias, Format.mantissaBits, Nat.cast_sub hpos]
  push_cast
  ring

theorem two_pow_exponentBits (f : Format) : 2 ^ f.exponentBits = 2 * f.exponentBias + 2 := by
  have hpos : 1 ≤ 2 ^ (f.exponentBits - 1) := Nat.one_le_two_pow
  have hsucc : f.exponentBits = f.exponentBits - 1 + 1 := by have := f.he; omega
  have hdouble : 2 ^ f.exponentBits = 2 * 2 ^ (f.exponentBits - 1) := by
    conv_lhs => rw [hsucc, pow_succ, Nat.mul_comm]
  rw [hdouble, Format.exponentBias]
  omega

theorem two_pow_mantissaBits (f : Format) :
    2 ^ f.mantissaBits = 2 * 2 ^ f.mantissaBitsWithoutImplicit := by
  rw [Format.mantissaBits, pow_add, pow_one]

/-! ## Packing and unpacking -/

section Packing

theorem toNat_implicit_append {p : ℕ} (mantissa : BitVec p) :
    (1#1 ++ mantissa).toNat = 2 ^ p + mantissa.toNat := by
  rw [BitVec.toNat_append, ← Nat.shiftLeft_add_eq_or_of_lt mantissa.isLt]
  simp [Nat.shiftLeft_eq]

theorem toNat_neg_one (f : Format) :
    (-1#f.exponentBits).toNat = 2 * f.exponentBias + 1 := by
  rw [BitVec.neg_one_eq_allOnes, BitVec.toNat_allOnes, two_pow_exponentBits]
  omega

variable {biased : ℕ} {bits : BitVec f.mantissaBitsWithoutImplicit}

/-- A stored exponent that is not one of the two extreme ones gives a value whose mantissa has all
its bits. -/
theorem isCanonical_normal (hzero : biased ≠ 0) (hmax : biased ≤ 2 * f.exponentBias) :
    IsCanonical f (1#1 ++ bits).toNat
      (biased - (f.exponentBias + f.mantissaBitsWithoutImplicit)) := by
  have hbits := bits.isLt
  rw [toNat_implicit_append]
  refine ⟨by positivity, ?_, ?_, .inl (Nat.le_add_right _ _), ?_⟩
  · rw [two_pow_mantissaBits]
    omega
  · rw [minExponent_eq]
    omega
  · omega

/-- The exponent zero gives a value with the smallest exponent. -/
theorem isCanonical_subnormal (hbits : 2 ≤ f.exponentBits)
    (hne : bits ≠ 0#f.mantissaBitsWithoutImplicit) : IsCanonical f bits.toNat f.minExponent := by
  have hcapacity := two_pow_exponentBits f
  have hpow : 2 ^ 2 ≤ 2 ^ f.exponentBits := Nat.pow_le_pow_right (by decide) hbits
  have hpos : bits.toNat ≠ 0 := fun h => hne (BitVec.eq_of_toNat_eq (by rw [h, BitVec.toNat_zero]))
  have hlt := bits.isLt
  refine ⟨Nat.pos_of_ne_zero hpos, ?_, le_rfl, .inr rfl, ?_⟩
  · rw [two_pow_mantissaBits]
    omega
  · rw [minExponent_eq]
    omega

/-- The exponent that the exponent zero stands for. -/
theorem minExponent_eq_of_zero (f : Format) :
    ((0 : ℕ) : ℤ) - (f.exponentBias + f.mantissaBitsWithoutImplicit) + 1 = f.minExponent := by
  rw [minExponent_eq]
  push_cast
  ring

/-- What is unpacked is in the form of the format. -/
theorem isHeld_unpack (hbits : 2 ≤ f.exponentBits) (b : BitVec f.numBits) :
    IsHeld f (unpack f b) := by
  have hcapacity := two_pow_exponentBits f
  have hexponent := (unpackExponent b).isLt
  unfold unpack
  simp only
  split
  · split <;> trivial
  · rename_i hfinite
    have hmax : (unpackExponent b).toNat ≠ 2 * f.exponentBias + 1 := fun h =>
      hfinite (BitVec.eq_of_toNat_eq (h.trans (toNat_neg_one f).symm))
    split
    · rename_i hzero
      split
      · trivial
      · rename_i hne
        have hsubnormal := isCanonical_subnormal hbits hne
        rw [IsHeld, hzero, BitVec.toNat_zero, minExponent_eq_of_zero]
        exact hsubnormal
    · rename_i hnormal
      have hzero : (unpackExponent b).toNat ≠ 0 := fun h =>
        hnormal (BitVec.eq_of_toNat_eq (by rw [h, BitVec.toNat_zero]))
      exact isCanonical_normal hzero (by omega)

theorem unpackSign_packComponents (sign : Sign) (exponent : BitVec f.exponentBits)
    (mantissa : BitVec f.mantissaBitsWithoutImplicit) :
    unpackSign (packComponents f sign exponent mantissa) = sign.toBitVec := by
  refine BitVec.eq_of_getLsbD_eq fun i hi => ?_
  obtain rfl : i = 0 := by omega
  simp [unpackSign, packComponents, BitVec.getLsbD_append, BitVec.getElem_append]

theorem ofBitVec_toBitVec (sign : Sign) : Sign.ofBitVec sign.toBitVec = sign := by
  cases sign <;> rfl

theorem zero_ne_neg_one (f : Format) : 0#f.exponentBits ≠ -1#f.exponentBits := by
  intro h
  have hnat := congrArg BitVec.toNat h
  rw [toNat_neg_one, BitVec.toNat_zero] at hnat
  omega

theorem unpack_packedZero (sign : Sign) : unpack f (packedZero f sign) = .zero sign := by
  simp only [unpack, packedZero, BitVec.ofNat_eq_ofNat, unpackExponent_packComponents,
    BitVec.zero_eq_neg_one_iff, f.he.ne', ↓reduceIte, unpackMantissa_packComponents, ↓reduceDIte,
    unpackSign_packComponents, ofBitVec_toBitVec]

theorem unpack_packedInfinity (sign : Sign) :
    unpack f (packedInfinity f sign) = .infinity sign := by
  simp only [unpack, packedInfinity, BitVec.ofNat_eq_ofNat, unpackExponent_packComponents,
    ↓reduceIte, unpackMantissa_packComponents, unpackSign_packComponents, ofBitVec_toBitVec]

theorem unpack_packedNaN : unpack f (packedNaN f) = .notANumber := by
  have hbit : 1#f.mantissaBitsWithoutImplicit <<< (f.mantissaBitsWithoutImplicit - 1) ≠
      0#f.mantissaBitsWithoutImplicit := by
    intro h
    have hnat := congrArg BitVec.toNat h
    have hlt : 2 ^ (f.mantissaBitsWithoutImplicit - 1) < 2 ^ f.mantissaBitsWithoutImplicit :=
      Nat.pow_lt_pow_right (by decide) (by have := f.hm; omega)
    have hone : 1 < 2 ^ f.mantissaBitsWithoutImplicit := Nat.one_lt_two_pow (by have := f.hm; omega)
    rw [BitVec.toNat_shiftLeft, BitVec.toNat_ofNat, BitVec.toNat_zero, Nat.mod_eq_of_lt hone,
      Nat.one_shiftLeft, Nat.mod_eq_of_lt hlt] at hnat
    exact absurd hnat (by positivity)
  simp [unpack, packedNaN, hbit]

theorem unpack_packComponents_normal {mantissa : ℕ} (hpos : 0 < mantissa) (hzero : biased ≠ 0)
    (hmax : biased ≤ 2 * f.exponentBias) (hmantissa : (1#1 ++ bits).toNat = mantissa)
    (sign : Sign) :
    unpack f (packComponents f sign (.ofNat f.exponentBits biased) bits) =
      .finite sign mantissa (biased - (f.exponentBias + f.mantissaBitsWithoutImplicit)) hpos := by
  have hcapacity := two_pow_exponentBits f
  have hstored : (BitVec.ofNat f.exponentBits biased).toNat = biased := by
    rw [BitVec.toNat_ofNat, Nat.mod_eq_of_lt (by omega)]
  have hnotZero : BitVec.ofNat f.exponentBits biased ≠ 0#f.exponentBits := by
    intro h
    rw [h, BitVec.toNat_zero] at hstored
    omega
  have hnotMax : BitVec.ofNat f.exponentBits biased ≠ -1#f.exponentBits := by
    intro h
    rw [h, toNat_neg_one] at hstored
    omega
  rw [unpack]
  simp only [unpackMantissa_packComponents, unpackExponent_packComponents,
    unpackSign_packComponents, ofBitVec_toBitVec, if_neg hnotMax, if_neg hnotZero, hmantissa,
    hstored]

theorem unpack_packComponents_subnormal {mantissa : ℕ} (hpos : 0 < mantissa)
    (hmantissa : bits.toNat = mantissa) (sign : Sign) :
    unpack f (packComponents f sign 0#f.exponentBits bits) =
      .finite sign mantissa f.minExponent hpos := by
  have hne : bits ≠ 0#f.mantissaBitsWithoutImplicit := by
    rintro rfl
    rw [BitVec.toNat_zero] at hmantissa
    exact hpos.ne hmantissa
  rw [unpack]
  simp only [unpackMantissa_packComponents, unpackExponent_packComponents,
    unpackSign_packComponents, ofBitVec_toBitVec, if_neg (zero_ne_neg_one f), if_true, dif_neg hne,
    hmantissa, BitVec.toNat_zero, minExponent_eq_of_zero]

/-- The leading bit of a mantissa that has all its bits is the one that is not stored. -/
theorem toNat_implicit_append_ofNat {mantissa : ℕ} (hlt : mantissa < 2 ^ f.mantissaBits)
    (hnormal : 2 ^ f.mantissaBitsWithoutImplicit ≤ mantissa) :
    (1#1 ++ BitVec.ofNat f.mantissaBitsWithoutImplicit mantissa).toNat = mantissa := by
  rw [two_pow_mantissaBits] at hlt
  have hdiv : mantissa / 2 ^ f.mantissaBitsWithoutImplicit = 1 :=
    Nat.div_eq_of_lt_le (by omega) (by omega)
  have hsplit := Nat.mod_add_div mantissa (2 ^ f.mantissaBitsWithoutImplicit)
  rw [hdiv, Nat.mul_one] at hsplit
  rw [toNat_implicit_append, BitVec.toNat_ofNat]
  omega

theorem IsCanonical.log2_eq_iff {mantissa : ℕ} {exponent : ℤ}
    (h : IsCanonical f mantissa exponent) :
    mantissa.log2 + 1 = f.mantissaBits ↔ 2 ^ f.mantissaBitsWithoutImplicit ≤ mantissa := by
  have hhigh := (Nat.log2_lt h.pos.ne').mpr h.lt
  have hlow := Nat.le_log2 (k := f.mantissaBitsWithoutImplicit) h.pos.ne'
  rw [← hlow]
  rw [Format.mantissaBits] at hhigh ⊢
  omega

theorem unpack_pack_finite {mantissa : ℕ} {exponent : ℤ} (h : IsCanonical f mantissa exponent)
    (sign : Sign) :
    unpack f (pack f (.finite sign mantissa exponent h.pos)) =
      .finite sign mantissa exponent h.pos := by
  have hcapacity := two_pow_exponentBits f
  have hmin := h.minExponent_le
  have hmax := h.le_maxExponent
  rw [minExponent_eq] at hmin
  -- The exponent as it is stored, neither zero nor the largest one.
  obtain ⟨biased, hbiased⟩ : ∃ biased : ℕ,
      (exponent + f.exponentBias + f.mantissaBitsWithoutImplicit).toNat = biased := ⟨_, rfl⟩
  have hvalue : exponent = biased - (f.exponentBias + f.mantissaBitsWithoutImplicit) := by omega
  have hfits : ¬ 2 ^ f.exponentBits ≤ biased + 1 := by omega
  rw [pack]
  simp only [hbiased, if_neg hfits]
  by_cases hnormal : 2 ^ f.mantissaBitsWithoutImplicit ≤ mantissa
  · rw [if_pos (h.log2_eq_iff.mpr hnormal), unpack_packComponents_normal h.pos (by omega) (by omega)
      (toNat_implicit_append_ofNat h.lt hnormal), ← hvalue]
  · have hexponent := h.normal.resolve_left hnormal
    have hmantissa : (BitVec.ofNat f.mantissaBitsWithoutImplicit mantissa).toNat = mantissa := by
      rw [BitVec.toNat_ofNat, Nat.mod_eq_of_lt (Nat.lt_of_not_le hnormal)]
    rw [if_neg (mt h.log2_eq_iff.mp hnormal), unpack_packComponents_subnormal h.pos hmantissa]
    congr 1
    exact hexponent.symm

/-- A value of the format comes back when it is packed and unpacked. -/
theorem unpack_pack {u : UnpackedFloat} (h : IsHeld f u) : unpack f (pack f u) = u := by
  cases u with
  | infinity sign => exact unpack_packedInfinity sign
  | notANumber => exact unpack_packedNaN
  | zero sign => exact unpack_packedZero sign
  | finite sign mantissa exponent _ => exact unpack_pack_finite h sign

end Packing

/-! ## Rounding without loss -/

section Rounding

variable {mantissa : ℕ} {exponent : ℤ}

theorem log2_mul_two_pow (h : 0 < mantissa) (k : ℕ) :
    (mantissa * 2 ^ k).log2 = mantissa.log2 + k := by
  induction k with
  | zero => simp
  | succ k ih =>
      have hdouble : mantissa * 2 ^ (k + 1) = 2 * (mantissa * 2 ^ k) := by ring
      rw [hdouble, Nat.log2_two_mul (by positivity), ih, Nat.add_assoc]

/-- A shifted mantissa stands for the same value. -/
theorem totalExponent_mul_two_pow (h : 0 < mantissa) (k : ℕ) :
    totalExponent (mantissa * 2 ^ k) (exponent - k) = totalExponent mantissa exponent := by
  rw [totalExponent, totalExponent, log2_mul_two_pow h]
  push_cast
  ring

theorem shiftRight_mul_two_pow (mantissa k : ℕ) :
    (⟨mantissa * 2 ^ k, false, false⟩ : ExtendedMantissa) >>> k = ⟨mantissa, false, false⟩ := by
  change k.repeat ExtendedMantissa.shiftRightOne ⟨mantissa * 2 ^ k, false, false⟩ = _
  induction k generalizing mantissa with
  | zero => rw [pow_zero, mul_one, Nat.repeat]
  | succ k ih =>
      have hdouble : mantissa * 2 ^ (k + 1) = (mantissa * 2) * 2 ^ k := by ring
      rw [Nat.repeat, hdouble, ih]
      simp [ExtendedMantissa.shiftRightOne]

/-- A value that the format has, in another form, is shifted to the form of the format. -/
theorem roundWithAccuracy_mul_two_pow (hpos : 0 < mantissa)
    (htarget : f.targetExponent (totalExponent mantissa exponent) = exponent) (sign : Sign)
    (k : ℕ) :
    roundWithAccuracy f sign (mantissa * 2 ^ k) (exponent - k) .exact =
      .finite sign mantissa exponent hpos := by
  have hfirst : shiftToTargetExponent f (mantissa * 2 ^ k) (exponent - k) .exact =
      (⟨mantissa, false, false⟩, exponent) := by
    have hshift : (exponent - (exponent - k)).toNat = k := by omega
    rw [shiftToTargetExponent, totalExponent_mul_two_pow hpos, htarget, shiftToExponent]
    simp only [hshift, sub_add_cancel]
    rw [ExtendedMantissa.ofMantissaAndAccuracy, shiftRight_mul_two_pow]
  have hsecond : shiftToTargetExponent f mantissa exponent .exact =
      (⟨mantissa, false, false⟩, exponent) := by
    rw [shiftToTargetExponent, htarget, shiftToExponent]
    simp only [sub_self, Int.toNat_zero, Nat.cast_zero, add_zero]
    rfl
  have hrounded : (⟨mantissa, false, false⟩ : ExtendedMantissa).roundedMantissa = mantissa := rfl
  rw [roundWithAccuracy]
  simp only [hfirst, hrounded, hsecond, dif_neg hpos.ne']

theorem round_mul_two_pow (hpos : 0 < mantissa)
    (htarget : f.targetExponent (totalExponent mantissa exponent) = exponent) (sign : Sign)
    (k : ℕ) :
    UnpackedFloat.round f sign (mantissa * 2 ^ k) (exponent - k) =
      .finite sign mantissa exponent hpos := by
  have hshift : (exponent - k - exponent).toNat = 0 := by omega
  rw [UnpackedFloat.round, totalExponent_mul_two_pow hpos, htarget, decreaseExponent]
  simp only [hshift, Nat.shiftLeft_zero, Nat.cast_zero, sub_zero]
  exact roundWithAccuracy_mul_two_pow hpos htarget sign k

/-- A mantissa with fewer bits than the format allows is shifted to more bits. -/
theorem round_eq_finite (hpos : 0 < mantissa) (k : ℕ)
    (htarget : f.targetExponent (totalExponent mantissa exponent) = exponent - k) (sign : Sign) :
    UnpackedFloat.round f sign mantissa exponent =
      .finite sign (mantissa * 2 ^ k) (exponent - k) (by positivity) := by
  have hshift : (exponent - (exponent - k)).toNat = k := by omega
  have hpos' : 0 < mantissa * 2 ^ k := by positivity
  have htarget' : f.targetExponent (totalExponent (mantissa * 2 ^ k) (exponent - k)) =
      exponent - k := by
    rw [totalExponent_mul_two_pow hpos, htarget]
  rw [UnpackedFloat.round, htarget, decreaseExponent]
  simp only [hshift, Nat.shiftLeft_eq]
  simpa using roundWithAccuracy_mul_two_pow hpos' htarget' sign 0

/-- The exponent of a value of a format is the one that the format gives to it. -/
theorem IsCanonical.targetExponent_eq (h : IsCanonical f mantissa exponent) :
    f.targetExponent (totalExponent mantissa exponent) = exponent := by
  have hhigh := (Nat.log2_lt h.pos.ne').mpr h.lt
  have hmin := h.minExponent_le
  rw [Format.mantissaBits] at hhigh
  rw [Format.targetExponent, totalExponent, Format.mantissaBits]
  rcases h.normal with hnormal | hexponent
  · have hlow := (Nat.le_log2 h.pos.ne').mpr hnormal
    push_cast
    omega
  · push_cast
    omega

theorem roundTo_of_isHeld {u : UnpackedFloat} (h : IsHeld f u) : roundTo f u = u := by
  cases u with
  | finite sign mantissa exponent hpos =>
      have hround := round_mul_two_pow hpos (IsCanonical.targetExponent_eq h) sign 0
      rwa [pow_zero, mul_one, Nat.cast_zero, sub_zero] at hround
  | _ => rfl

theorem hold_of_isHeld {u : UnpackedFloat} (h : IsHeld f u) : hold f u = u := by
  rw [hold, roundTo_of_isHeld h, unpack_pack h]

end Rounding

/-! ## Thirty-two bits among sixty-four -/

theorem isHeld_hold (u : UnpackedFloat) : IsHeld Format.binary32 (hold Format.binary32 u) :=
  isHeld_unpack (by decide) _

/-- A 32-bit value with as many bits as a 64-bit value has. -/
theorem IsCanonical.exists_wide {mantissa : ℕ} {exponent : ℤ}
    (h : IsCanonical Format.binary32 mantissa exponent) (sign : Sign) :
    ∃ (k : ℕ) (hpos : 0 < mantissa * 2 ^ k),
      roundTo Format.binary64 (.finite sign mantissa exponent h.pos) =
        .finite sign (mantissa * 2 ^ k) (exponent - k) hpos ∧
      IsCanonical Format.binary64 (mantissa * 2 ^ k) (exponent - k) := by
  have hlog : mantissa.log2 ≤ 23 := Nat.le_of_lt_succ ((Nat.log2_lt h.pos.ne').mpr h.lt)
  have hmin : -149 ≤ exponent := h.minExponent_le
  have hmax : exponent ≤ 104 := h.le_maxExponent
  obtain ⟨k, hk⟩ : ∃ k, mantissa.log2 + k = 52 := ⟨52 - mantissa.log2, by omega⟩
  have hpos : 0 < mantissa * 2 ^ k := Nat.mul_pos h.pos (by positivity)
  have hbits : (mantissa * 2 ^ k).log2 = 52 := (log2_mul_two_pow h.pos k).trans hk
  have hlow : 2 ^ 52 ≤ mantissa * 2 ^ k := (Nat.le_log2 hpos.ne').mp hbits.ge
  have hhigh : mantissa * 2 ^ k < 2 ^ 53 := (Nat.log2_lt hpos.ne').mp (by omega)
  have htarget : Format.binary64.targetExponent (totalExponent mantissa exponent) =
      exponent - k := by
    change max ((mantissa.log2 + 1 + exponent : ℤ) - 53) (-1074) = exponent - k
    omega
  refine ⟨k, hpos, round_eq_finite h.pos k htarget sign, hpos, hhigh, ?_, .inl hlow, ?_⟩
  · change (-1074 : ℤ) ≤ exponent - k
    omega
  · change exponent - k ≤ (971 : ℤ)
    omega

/-- A 32-bit value that goes through the 64-bit format is the same value again. -/
theorem hold_widen {u : UnpackedFloat} (h : IsHeld Format.binary32 u) :
    hold Format.binary32 (unpack Format.binary64
      (pack Format.binary64 (roundTo Format.binary64 u))) = u := by
  cases u with
  | finite sign mantissa exponent _ =>
      have hcanonical : IsCanonical Format.binary32 mantissa exponent := h
      obtain ⟨k, hpos, hround, hwide⟩ := hcanonical.exists_wide sign
      have hback : roundTo Format.binary32 (.finite sign (mantissa * 2 ^ k) (exponent - k) hpos) =
          .finite sign mantissa exponent hcanonical.pos :=
        round_mul_two_pow hcanonical.pos hcanonical.targetExponent_eq sign k
      rw [hround, unpack_pack_finite hwide, hold, hback, unpack_pack_finite hcanonical]
  | infinity sign =>
      exact (congrArg _ (unpack_packedInfinity sign)).trans (hold_of_isHeld h)
  | notANumber => exact (congrArg _ unpack_packedNaN).trans (hold_of_isHeld h)
  | zero sign => exact (congrArg _ (unpack_packedZero sign)).trans (hold_of_isHeld h)

/-- The 32-bit value that a narrowed value is. -/
theorem hold_narrow (x : Float) :
    hold Format.binary32 (narrow x).toModel.unpack = hold Format.binary32 x.toModel.unpack :=
  hold_widen (isHeld_hold _)

/-- Narrowing a second time changes nothing. -/
theorem narrow_narrow (x : Float) : narrow (narrow x) = narrow x := by
  rw [narrow, hold_narrow, narrow]

theorem narrow_injective {x y : Float}
    (h : hold Format.binary32 (narrow x).toModel.unpack =
      hold Format.binary32 (narrow y).toModel.unpack) : narrow x = narrow y := by
  rw [hold_narrow, hold_narrow] at h
  rw [narrow, narrow, h]

end LeastSquares.Number

import LeastSquares.Decimal.Shortest
import LeastSquares.Proofs.Number.Held
import Mathlib.Algebra.Order.Field.Power
import Mathlib.Algebra.Order.Field.Rat
import Mathlib.Tactic.FieldSimp
import Mathlib.Tactic.Linarith
import Mathlib.Tactic.NormNum

/-!
# A decimal for each value, and one value for each decimal

The search for the shortest decimal looks for a multiple of a power of ten in the
neighborhood of a value.  Over the rationals it has two properties, from which it follows
that different values are written with different digits.

It finds one (`exists_shortest`).  The last grid that is tried has a width of at most
`10 ^ -16` of the value, and the neighborhood is wider than that for every format of at most
53 bits (`wide_of_isCanonical`), so that of the two multiples around the value one is in it.

And a number is in one neighborhood only (`eq_of_contains`).  Two neighborhoods
that are next to each other share an end, and of the two mantissas one is odd there, so that
the end does not belong to it.
-/

namespace LeastSquares.Decimal

open Float.Model hiding pack unpack
open Number (IsCanonical)

/-! ## Powers of ten and of two -/

theorem cast_tenPow (k : ℕ) : ((tenPow k : ℕ) : ℚ) = 10 ^ k := by
  rw [tenPow, Nat.pow_eq, Nat.cast_pow, Nat.cast_ofNat]

theorem cast_twoPow (k : ℕ) : ((twoPow k : ℕ) : ℚ) = 2 ^ k := by
  rw [twoPow, Nat.pow_eq, Nat.cast_pow, Nat.cast_ofNat]

theorem zpow_eq_div {x : ℚ} (hx : x ≠ 0) (e : ℤ) : x ^ e = x ^ e.toNat / x ^ (-e).toNat := by
  rw [← zpow_natCast, ← zpow_natCast, ← zpow_sub₀ hx]
  congr 1
  omega

theorem exists_length_digits (n : ℕ) : ∃ k, (digits n).length = k + 1 :=
  ⟨_, (Nat.succ_pred_eq_of_pos Nat.length_toDigits_pos).symm⟩

theorem pow_le_of_length_digits {n k : ℕ} (hn : 0 < n) (h : (digits n).length = k + 1) :
    10 ^ k ≤ n := by
  rcases Nat.eq_zero_or_pos k with rfl | hpos
  · exact hn
  · by_contra hlt
    have hshort := (Nat.length_toDigits_le_iff (by decide) hpos).mpr (Nat.lt_of_not_le hlt)
    rw [digits] at h
    omega

theorem zpow_neg_mul_le {num den k : ℕ} (h : den ≤ num * 10 ^ k) :
    (10 : ℚ) ^ (-(k : ℤ)) * den ≤ num := by
  have hpow : (0 : ℚ) < 10 ^ k := by positivity
  rw [zpow_neg, zpow_natCast, inv_mul_le_iff₀ hpow, mul_comm]
  exact_mod_cast h

/-- A positive quotient is at least the power of ten that its magnitude stands for. -/
theorem zpow_magnitude_le {num den : ℕ} (hnum : 0 < num) (hden : 0 < den) :
    (10 : ℚ) ^ (magnitude num den - 1) ≤ num / den := by
  have hden' : (0 : ℚ) < den := by exact_mod_cast hden
  rw [le_div_iff₀ hden']
  unfold magnitude
  split
  · rename_i hle
    -- The digits before the point are those of the integer part.
    obtain ⟨k, hk⟩ := exists_length_digits (num / den)
    have hpow : 10 ^ k ≤ num / den := pow_le_of_length_digits (Nat.div_pos hle hden) hk
    have hmul : 10 ^ k * den ≤ num := (Nat.le_div_iff_mul_le hden).mp hpow
    have hexponent : (((digits (num / den)).length : ℤ) - 1) = (k : ℕ) := by
      rw [hk]
      push_cast
      ring
    rw [hexponent, zpow_natCast]
    exact_mod_cast hmul
  · rename_i hlt
    -- The zeros after the point are one less than the digits of the inverse, unless it is a power.
    obtain ⟨k, hk⟩ := exists_length_digits (den / num)
    simp only [hk]
    split
    · rename_i hle
      have hexponent : (2 - ((k + 1 : ℕ) : ℤ)) - 1 = -(k : ℕ) := by push_cast; ring
      rw [hexponent]
      refine zpow_neg_mul_le ?_
      rwa [tenPow, Nat.pow_eq, Nat.add_sub_cancel] at hle
    · have hbelow : den / num < 10 ^ (k + 1) :=
        (Nat.length_toDigits_le_iff (by decide) k.succ_pos).mp hk.le
      have hexponent : (1 - ((k + 1 : ℕ) : ℤ)) - 1 = -((k + 1 : ℕ) : ℤ) := by push_cast; ring
      rw [hexponent]
      refine zpow_neg_mul_le ?_
      rw [Nat.mul_comm]
      exact ((Nat.div_lt_iff_lt_mul hnum).mp hbelow).le

/-! ## Hits -/

namespace Neighborhood

variable {n : Neighborhood} {grid : ℤ} {d : ℕ} {x : ℚ}

/-- A number is in a neighborhood.  The ends belong to it if it is closed. -/
def Contains (n : Neighborhood) (x : ℚ) : Prop :=
  if n.closed then (n.low : ℚ) / n.den ≤ x ∧ x ≤ n.high / n.den
  else (n.low : ℚ) / n.den < x ∧ x < n.high / n.den

theorem Contains.le (h : n.Contains x) : (n.low : ℚ) / n.den ≤ x ∧ x ≤ n.high / n.den := by
  unfold Contains at h
  split at h
  · exact h
  · exact ⟨h.1.le, h.2.le⟩

theorem Contains.lt (h : n.Contains x) (hclosed : n.closed = false) :
    (n.low : ℚ) / n.den < x ∧ x < n.high / n.den := by
  rwa [Contains, hclosed, if_neg Bool.false_ne_true] at h

theorem contains_of_lt (hlow : (n.low : ℚ) / n.den < x) (hhigh : x < n.high / n.den) :
    n.Contains x := by
  unfold Contains
  split
  · exact ⟨hlow.le, hhigh.le⟩
  · exact ⟨hlow, hhigh⟩

/-- Whether a multiple of a power of ten is in a neighborhood, as it is decided over the
naturals. -/
def hits (n : Neighborhood) (grid : ℤ) (c : ℕ) : Bool :=
  if n.closed then
    n.low * tenPow (-grid).toNat ≤ c * (n.den * tenPow grid.toNat) &&
      c * (n.den * tenPow grid.toNat) ≤ n.high * tenPow (-grid).toNat
  else
    n.low * tenPow (-grid).toNat < c * (n.den * tenPow grid.toNat) &&
      c * (n.den * tenPow grid.toNat) < n.high * tenPow (-grid).toNat

/-- The multiple below the value. -/
def below (n : Neighborhood) (grid : ℤ) : ℕ :=
  n.value * tenPow (-grid).toNat / (n.den * tenPow grid.toNat)

theorem nearest?_eq (n : Neighborhood) (grid : ℤ) :
    n.nearest? grid =
      if n.hits grid (n.below grid) then
        if n.hits grid (n.below grid + 1) then
          some (roundDiv (n.value * tenPow (-grid).toNat) (n.den * tenPow grid.toNat))
        else some (n.below grid)
      else if n.hits grid (n.below grid + 1) then some (n.below grid + 1) else none := rfl

theorem hits_iff (hden : 0 < n.den) : n.hits grid d = true ↔ n.Contains (d * 10 ^ grid) := by
  have hden' : (0 : ℚ) < n.den := by exact_mod_cast hden
  have hup : (0 : ℚ) < 10 ^ (-grid).toNat := by positivity
  have hgrid : (d : ℚ) * 10 ^ grid =
      d * (n.den * 10 ^ grid.toNat) / (n.den * 10 ^ (-grid).toNat) := by
    rw [zpow_eq_div (by norm_num)]
    field_simp
  have hend : ∀ c : ℕ, (c : ℚ) / n.den =
      c * 10 ^ (-grid).toNat / (n.den * 10 ^ (-grid).toNat) := by
    intro c
    field_simp
  have hunit : (0 : ℚ) < n.den * 10 ^ (-grid).toNat := by positivity
  unfold hits Contains
  split
  · rw [Bool.and_eq_true, decide_eq_true_eq, decide_eq_true_eq, hgrid, hend n.low, hend n.high,
      div_le_div_iff_of_pos_right hunit, div_le_div_iff_of_pos_right hunit,
      ← @Nat.cast_le ℚ, ← @Nat.cast_le ℚ]
    simp only [Nat.cast_mul, cast_tenPow]
  · rw [Bool.and_eq_true, decide_eq_true_eq, decide_eq_true_eq, hgrid, hend n.low, hend n.high,
      div_lt_div_iff_of_pos_right hunit, div_lt_div_iff_of_pos_right hunit,
      ← @Nat.cast_lt ℚ, ← @Nat.cast_lt ℚ]
    simp only [Nat.cast_mul, cast_tenPow]

theorem roundDiv_eq_or (num den : ℕ) :
    roundDiv num den = num / den ∨ roundDiv num den = num / den + 1 := by
  have hparity : num / den % 2 < 2 := Nat.mod_lt _ (by decide)
  unfold roundDiv
  simp only
  split
  · exact .inl rfl
  · split
    · exact .inr rfl
    · omega

theorem contains_of_nearest? (hden : 0 < n.den) (h : n.nearest? grid = some d) :
    n.Contains (d * 10 ^ grid) := by
  rw [← hits_iff hden]
  rw [nearest?_eq] at h
  split at h
  · rename_i hbelow
    split at h
    · rename_i habove
      obtain rfl := Option.some_inj.mp h
      rcases roundDiv_eq_or (n.value * tenPow (-grid).toNat) (n.den * tenPow grid.toNat) with
        hround | hround
      · rw [hround]
        exact hbelow
      · rw [hround]
        exact habove
    · obtain rfl := Option.some_inj.mp h
      exact hbelow
  · split at h
    · rename_i habove
      obtain rfl := Option.some_inj.mp h
      exact habove
    · cases h

/-- A neighborhood around its value, wide enough for seventeen digits. -/
structure Wide (n : Neighborhood) : Prop where
  den_pos : 0 < n.den
  value_pos : 0 < n.value
  low_lt : n.low < n.value
  lt_high : n.value < n.high
  value_lt : n.value < (n.high - n.low) * 10 ^ 16

theorem hits_of_nearest?_eq_none (h : n.nearest? grid = none) :
    n.hits grid (n.below grid) = false ∧ n.hits grid (n.below grid + 1) = false := by
  rw [nearest?_eq] at h
  split at h
  · split at h <;> cases h
  · split at h
    · cases h
    · rename_i hbelow habove
      exact ⟨Bool.eq_false_iff.mpr hbelow, Bool.eq_false_iff.mpr habove⟩

/-- The value is between two neighboring multiples. -/
theorem below_le_and_lt (hden : 0 < n.den) (grid : ℤ) :
    (n.below grid : ℚ) * 10 ^ grid ≤ n.value / n.den ∧
      (n.value : ℚ) / n.den < (n.below grid + 1 : ℕ) * 10 ^ grid := by
  have hden' : (0 : ℚ) < n.den := by exact_mod_cast hden
  have hup : (0 : ℚ) < 10 ^ (-grid).toNat := by positivity
  have hunit : 0 < n.den * tenPow grid.toNat := Nat.mul_pos hden (Nat.pow_pos (by decide))
  have hlow : (n.below grid : ℚ) * (n.den * 10 ^ grid.toNat) ≤ n.value * 10 ^ (-grid).toNat := by
    have hnat : n.below grid * (n.den * tenPow grid.toNat) ≤ n.value * tenPow (-grid).toNat :=
      Nat.div_mul_le_self _ _
    rw [← cast_tenPow, ← cast_tenPow]
    exact_mod_cast hnat
  have hhigh : (n.value : ℚ) * 10 ^ (-grid).toNat <
      (n.below grid + 1 : ℕ) * (n.den * 10 ^ grid.toNat) := by
    have hnat : n.value * tenPow (-grid).toNat < (n.below grid + 1) * (n.den * tenPow grid.toNat) :=
      Nat.lt_mul_of_div_lt (Nat.lt_succ_self _) hunit
    rw [← cast_tenPow, ← cast_tenPow]
    exact_mod_cast hnat
  rw [zpow_eq_div (by norm_num) grid]
  constructor
  · rw [le_div_iff₀ hden', mul_div_assoc', div_mul_eq_mul_div, div_le_iff₀ hup]
    linarith
  · rw [div_lt_iff₀ hden', mul_div_assoc', div_mul_eq_mul_div, lt_div_iff₀ hup]
    linarith

/-- A grid that is narrow against the value has a hit. -/
theorem Wide.exists_nearest? (h : n.Wide)
    (hgrid : (10 : ℚ) ^ grid * 10 ^ 16 ≤ n.value / n.den) : ∃ d, n.nearest? grid = some d := by
  rw [← Option.isSome_iff_exists, Option.isSome_iff_ne_none]
  intro hnone
  obtain ⟨hmissBelow, hmissAbove⟩ := hits_of_nearest?_eq_none hnone
  obtain ⟨hle, hlt⟩ := below_le_and_lt h.den_pos grid
  have hden : (0 : ℚ) < n.den := by exact_mod_cast h.den_pos
  have hlow : (n.low : ℚ) / n.den < n.value / n.den :=
    (div_lt_div_iff_of_pos_right hden).mpr (by exact_mod_cast h.low_lt)
  have hhigh : (n.value : ℚ) / n.den < n.high / n.den :=
    (div_lt_div_iff_of_pos_right hden).mpr (by exact_mod_cast h.lt_high)
  -- Both multiples are outside, so the neighborhood is no wider than the grid.
  have hbelow : (n.below grid : ℚ) * 10 ^ grid ≤ n.low / n.den := by
    by_contra hinside
    have hcontains := contains_of_lt (lt_of_not_ge hinside) (hle.trans_lt hhigh)
    rw [← hits_iff h.den_pos, hmissBelow] at hcontains
    exact Bool.false_ne_true hcontains
  have habove : (n.high : ℚ) / n.den ≤ (n.below grid + 1 : ℕ) * 10 ^ grid := by
    by_contra hinside
    have hcontains := contains_of_lt (hlow.trans hlt) (lt_of_not_ge hinside)
    rw [← hits_iff h.den_pos, hmissAbove] at hcontains
    exact Bool.false_ne_true hcontains
  have hwidth : ((n.high : ℚ) - n.low) / n.den ≤ 10 ^ grid := by
    rw [sub_div]
    push_cast at habove
    linarith
  have hwide : (n.value : ℚ) / n.den < (n.high - n.low) / n.den * 10 ^ 16 := by
    rw [div_mul_eq_mul_div, div_lt_div_iff_of_pos_right hden]
    have hcast := (@Nat.cast_lt ℚ _ _ _ _ _).mpr h.value_lt
    rwa [Nat.cast_mul, Nat.cast_sub (h.low_lt.trans h.lt_high).le, Nat.cast_pow,
      Nat.cast_ofNat] at hcast
  linarith

theorem Wide.exists_shortest (h : n.Wide) :
    ∃ (d : ℕ) (grid : ℤ), n.shortest = (dropTrailingZeros (digits d), (digits d).length + grid) ∧
      n.Contains (d * 10 ^ grid) := by
  have hmagnitude := zpow_magnitude_le h.value_pos h.den_pos
  have hlast : (10 : ℚ) ^ (magnitude n.value n.den - 1 - (16 : ℕ)) * 10 ^ 16 ≤
      n.value / n.den := by
    rwa [zpow_sub₀ (by norm_num), zpow_natCast, div_mul_cancel₀ _ (by norm_num)]
  obtain ⟨d, hd⟩ := h.exists_nearest? hlast
  unfold shortest
  simp only
  split
  · rename_i ds grid hhit
    obtain ⟨i, -, hi⟩ := List.exists_of_findSome?_eq_some hhit
    obtain ⟨c, hc, hds⟩ := Option.map_eq_some_iff.mp hi
    obtain ⟨rfl, rfl⟩ := Prod.mk.inj hds
    exact ⟨c, _, rfl, contains_of_nearest? h.den_pos hc⟩
  · rename_i hmiss
    have hnone := List.findSome?_eq_none_iff.mp hmiss 16 (by decide)
    rw [hd] at hnone
    cases hnone

/-! ## The neighborhoods of a format -/

section Format

variable {f : Format} {mantissa mantissa' : ℕ} {exponent exponent' : ℤ}

/-- The distance from a value to the lower end of its neighborhood, in quarters of the last
place. -/
def reach (f : Format) (mantissa : ℕ) (exponent : ℤ) : ℕ :=
  if mantissa = twoPow f.mantissaBitsWithoutImplicit ∧ f.minExponent < exponent then 1 else 2

theorem reach_eq_or (f : Format) (mantissa : ℕ) (exponent : ℤ) :
    reach f mantissa exponent = 1 ∨ reach f mantissa exponent = 2 := by
  unfold reach
  split
  · exact .inl rfl
  · exact .inr rfl

theorem quotient_eq (c : ℕ) (exponent : ℤ) :
    ((c * twoPow (exponent - 2).toNat : ℕ) : ℚ) / (twoPow (2 - exponent).toNat : ℕ) =
      c * 2 ^ (exponent - 2) := by
  have hneg : 2 - exponent = -(exponent - 2) := by ring
  rw [Nat.cast_mul, cast_twoPow, cast_twoPow, hneg, zpow_eq_div (by norm_num) (exponent - 2),
    mul_div_assoc]

theorem low_div_den (f : Format) (mantissa : ℕ) (exponent : ℤ) :
    ((Neighborhood.of f mantissa exponent).low : ℚ) / (Neighborhood.of f mantissa exponent).den =
      (4 * mantissa - reach f mantissa exponent : ℕ) * 2 ^ (exponent - 2) :=
  quotient_eq _ _

theorem high_div_den (f : Format) (mantissa : ℕ) (exponent : ℤ) :
    ((Neighborhood.of f mantissa exponent).high : ℚ) / (Neighborhood.of f mantissa exponent).den =
      (4 * mantissa + 2 : ℕ) * 2 ^ (exponent - 2) :=
  quotient_eq _ _

/-- Seventeen digits are enough for a format of at most 53 bits. -/
theorem wide_of_isCanonical (hbits : 2 ^ f.mantissaBits ≤ 10 ^ 16)
    (h : IsCanonical f mantissa exponent) : (Neighborhood.of f mantissa exponent).Wide := by
  have hpos := h.pos
  have hlt := h.lt
  have hup : 0 < twoPow (exponent - 2).toNat := Nat.pow_pos (by decide)
  have hreach := reach_eq_or f mantissa exponent
  refine ⟨Nat.pow_pos (by decide), Nat.mul_pos (by omega) hup, ?_, ?_, ?_⟩
  · change (4 * mantissa - reach f mantissa exponent) * _ < 4 * mantissa * _
    exact (Nat.mul_lt_mul_right hup).mpr (by omega)
  · change 4 * mantissa * _ < (4 * mantissa + 2) * _
    exact (Nat.mul_lt_mul_right hup).mpr (by omega)
  · change 4 * mantissa * _ <
      ((4 * mantissa + 2) * _ - (4 * mantissa - reach f mantissa exponent) * _) * 10 ^ 16
    rw [← Nat.sub_mul, Nat.mul_right_comm _ _ (10 ^ 16)]
    refine (Nat.mul_lt_mul_right hup).mpr ?_
    -- Where the neighbour below is near, the mantissa is half as large as it could be.
    unfold reach at hreach ⊢
    split
    · rename_i hnarrow
      rw [Number.two_pow_mantissaBits] at hbits hlt
      have hmantissa : mantissa = 2 ^ f.mantissaBitsWithoutImplicit := hnarrow.1
      omega
    · omega

theorem Contains.pos (hpos : 0 < mantissa)
    (hx : (Neighborhood.of f mantissa exponent).Contains x) : 0 < x := by
  have hlow := hx.le.1
  have hreach := reach_eq_or f mantissa exponent
  rw [low_div_den] at hlow
  have hquarters : (0 : ℚ) < (4 * mantissa - reach f mantissa exponent : ℕ) := by
    exact_mod_cast (by omega : 0 < 4 * mantissa - reach f mantissa exponent)
  exact (mul_pos hquarters (by positivity)).trans_le hlow

/-- An odd mantissa does not have the ends of its neighborhood. -/
theorem closed_of_odd (hodd : mantissa % 2 = 1) :
    (Neighborhood.of f mantissa exponent).closed = false := by
  change (mantissa % 2 == 0) = false
  rw [hodd]
  rfl

/-- A number in a neighborhood is below those in the neighborhood of a greater mantissa. -/
theorem not_contains_of_mantissa_lt (hlt : mantissa < mantissa')
    (hx : (Neighborhood.of f mantissa exponent).Contains x) :
    ¬ (Neighborhood.of f mantissa' exponent).Contains x := by
  intro hx'
  have hpower : (0 : ℚ) < 2 ^ (exponent - 2) := by positivity
  have hreach := reach_eq_or f mantissa' exponent
  have hhigh := hx.le.2
  have hlow := hx'.le.1
  rw [high_div_den] at hhigh
  rw [low_div_den] at hlow
  have hquarters := le_of_mul_le_mul_right (hlow.trans hhigh) hpower
  rw [Nat.cast_le] at hquarters
  -- They meet at an end, which the odd one of the two mantissas does not have.
  have hnext : mantissa' = mantissa + 1 := by omega
  have hmeet : 4 * mantissa' - reach f mantissa' exponent = 4 * mantissa + 2 := by omega
  rw [hmeet] at hlow
  rcases Nat.mod_two_eq_zero_or_one mantissa with heven | hodd
  · have hopen := (hx'.lt (closed_of_odd (by omega))).1
    rw [low_div_den, hmeet] at hopen
    exact absurd hhigh (not_le.mpr hopen)
  · have hopen := (hx.lt (closed_of_odd hodd)).2
    rw [high_div_den] at hopen
    exact absurd hlow (not_le.mpr hopen)

/-- A number in a neighborhood is below those in the neighborhood of a greater exponent. -/
theorem not_contains_of_exponent_lt (h : IsCanonical f mantissa exponent)
    (h' : IsCanonical f mantissa' exponent') (hlt : exponent < exponent')
    (hx : (Neighborhood.of f mantissa exponent).Contains x) :
    ¬ (Neighborhood.of f mantissa' exponent').Contains x := by
  intro hx'
  have hpower : (0 : ℚ) < 2 ^ (exponent - 2) := by positivity
  have hmin := h.minExponent_le
  have hnormal := h'.normal.resolve_right (by omega)
  have hmantissa := h.lt
  rw [Number.two_pow_mantissaBits] at hmantissa
  have hhigh := hx.le.2
  rw [high_div_den] at hhigh
  -- In quarters of the smaller last place, the lower end is at least twice as much.
  have hlow : ((2 * (4 * mantissa' - reach f mantissa' exponent') : ℕ) : ℚ) * 2 ^ (exponent - 2) ≤
      x := by
    have hdouble : (2 : ℚ) * 2 ^ (exponent - 2) ≤ 2 ^ (exponent' - 2) := by
      rw [← zpow_one_add₀ (by norm_num)]
      exact zpow_le_zpow_right₀ (by norm_num) (by omega)
    have hlow' := hx'.le.1
    rw [low_div_den] at hlow'
    refine le_trans ?_ hlow'
    rw [Nat.cast_mul, Nat.cast_ofNat, mul_right_comm, mul_comm]
    exact mul_le_mul_of_nonneg_left hdouble (Nat.cast_nonneg _)
  have hquarters := le_of_mul_le_mul_right (hlow.trans hhigh) hpower
  rw [Nat.cast_le] at hquarters
  -- They can meet only where the greater one is a power of two and the smaller one is odd.
  unfold reach at hquarters hlow
  split at hquarters
  · rename_i hnarrow
    have hpower' : mantissa' = 2 ^ f.mantissaBitsWithoutImplicit := hnarrow.1
    have hlast : mantissa + 1 = 2 * 2 ^ f.mantissaBitsWithoutImplicit := by omega
    have hopen := (hx.lt (closed_of_odd (by omega))).2
    rw [high_div_den] at hopen
    rw [if_pos hnarrow] at hlow
    have hmeet : 2 * (4 * mantissa' - 1) = 4 * mantissa + 2 := by omega
    rw [hmeet] at hlow
    exact absurd hlow (not_le.mpr hopen)
  · rename_i hwide
    have hgreater : mantissa' ≠ 2 ^ f.mantissaBitsWithoutImplicit := fun hpower' =>
      hwide ⟨hpower', by omega⟩
    omega

/-- A number is in the neighborhood of one value of a format only. -/
theorem eq_of_contains (h : IsCanonical f mantissa exponent)
    (h' : IsCanonical f mantissa' exponent')
    (hx : (Neighborhood.of f mantissa exponent).Contains x)
    (hx' : (Neighborhood.of f mantissa' exponent').Contains x) :
    mantissa = mantissa' ∧ exponent = exponent' := by
  rcases lt_trichotomy exponent exponent' with hlt | rfl | hgt
  · exact absurd hx' (not_contains_of_exponent_lt h h' hlt hx)
  · rcases lt_trichotomy mantissa mantissa' with hlt | rfl | hgt
    · exact absurd hx' (not_contains_of_mantissa_lt hlt hx)
    · exact ⟨rfl, rfl⟩
    · exact absurd hx (not_contains_of_mantissa_lt hgt hx')
  · exact absurd hx (not_contains_of_exponent_lt h' h hgt hx')

end Format

end Neighborhood

end LeastSquares.Decimal

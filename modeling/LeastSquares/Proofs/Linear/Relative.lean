import LeastSquares.Proofs.Linear.Answers
import LeastSquares.Proofs.Linear.Verdict
import Mathlib.Algebra.Order.Ring.Rat
import Mathlib.Tactic.NormNum

/-!
# The verdict is relative and monotone

The pivots of a factor are compared with each other only, so that it makes no difference in which
order they stand or by which common factor they are stretched.  A greater threshold accepts less.

For thresholds that are not negative this could be read off the comparison of any two pivots
(`exceedsRatio_iff`).  A threshold below zero has no such description, because a pivot of zero
exceeds a negative multiple of every other one but not of itself.  At any threshold it is enough to
look at the pivots of the greatest magnitude: what all pivots have to exceed is the threshold times
such a one (`exceedsRatio_iff_greatest`).

The main result is `wellPosed_relative`.
-/

namespace LeastSquares

variable {α : Type*} [Field α] [LinearOrder α] [IsStrictOrderedRing α]
variable {t t' : α} {pivots pivots' : List α}

/-! ## Comparison with the greatest pivots -/

/-- The comparison of the extremes is one of all pivots with those of the greatest magnitude. -/
theorem exceedsRatio_iff_greatest :
    exceedsRatio t pivots = true ↔
      ∀ q ∈ pivots, (∀ p ∈ pivots, |p| ≤ |q|) → ∀ p ∈ pivots, t * |q| < |p| := by
  unfold exceedsRatio
  rw [map_magnitude_eq]
  cases pivots with
  | nil => simp
  | cons p rest =>
      -- The greatest magnitude is that of a pivot.
      obtain ⟨q, hq, hgreatest⟩ : ∃ q ∈ p :: rest, |q| = greatest |p| (rest.map fun p => |p|) :=
        List.mem_map.mp (greatest_mem |p| (rest.map fun p => |p|))
      have hmax : ∀ p' ∈ p :: rest, |p'| ≤ |q| := by
        intro p' hp'
        rw [hgreatest]
        exact le_greatest _ _ _ (List.mem_map_of_mem hp')
      rw [List.map_cons, decide_eq_true_iff, lt_least_iff, ← hgreatest,
        ← List.map_cons (f := fun p : α => |p|), List.forall_mem_map]
      constructor
      · intro hall q' hq' hmax'
        rw [(hmax q' hq').antisymm (hmax' q hq)]
        exact hall
      · intro hall
        exact hall q hq hmax

theorem exceedsRatio_of_le (hle : t' ≤ t) (h : exceedsRatio t pivots = true) :
    exceedsRatio t' pivots = true := by
  rw [exceedsRatio_iff_greatest] at h ⊢
  intro q hq hmax p hp
  exact (mul_le_mul_of_nonneg_right hle (abs_nonneg q)).trans_lt (h q hq hmax p hp)

/-- Neither the order of the pivots nor a common factor has an influence on the comparison. -/
theorem exceedsRatio_of_perm {c : α} (hc : c ≠ 0) (h : pivots'.Perm (pivots.map (c * ·))) :
    exceedsRatio t pivots' = exceedsRatio t pivots := by
  have hmagnitude : ∀ p q : α, |c * p| ≤ |c * q| ↔ |p| ≤ |q| := by
    intro p q
    rw [abs_mul, abs_mul]
    exact mul_le_mul_iff_right₀ (abs_pos.mpr hc)
  rw [Bool.eq_iff_iff, exceedsRatio_iff_greatest, exceedsRatio_iff_greatest]
  simp only [h.mem_iff, List.forall_mem_map, hmagnitude, mul_abs_mul_lt_iff hc]

theorem exceedsRatio_of_same_magnitude (ht : t < 1) {x : α} (hx : x ≠ 0)
    (hsame : ∀ p ∈ pivots, |p| = |x|) : exceedsRatio t pivots = true := by
  rw [exceedsRatio_iff_greatest]
  intro q hq _ p hp
  rw [hsame q hq, hsame p hp]
  exact mul_lt_of_lt_one_left (abs_pos.mpr hx) ht

/-! ## The verdict -/

variable [Finiteness α]

theorem wellPosed_of_le (hfinite : ∀ p ∈ pivots, Finiteness.isFinite p = true) (hle : t' ≤ t)
    (h : wellPosed t pivots = true) : wellPosed t' pivots = true := by
  rw [wellPosed_of_finite _ hfinite] at h ⊢
  exact exceedsRatio_of_le hle h

/-- **The verdict is relative and monotone.**  A factor with finite pivots that is accepted at a
threshold is accepted at every lower one.  The verdict depends neither on the order of the pivots
nor on a common factor, and pivots of one magnitude are accepted at every threshold below one.  A
rejection means that some pivot does not exceed the threshold times another one, or times itself.
It is what a solver says about a matrix with this factor, and whether it has a solution for it. -/
theorem wellPosed_relative (r : Dense α)
    (hfinite : ∀ p ∈ r.diagonal, Finiteness.isFinite p = true) :
    (∀ t t', t' ≤ t → wellPosed t r.diagonal = true → wellPosed t' r.diagonal = true) ∧
    (∀ (t c : α) (r' : Dense α), c ≠ 0 → r'.diagonal.Perm (r.diagonal.map (c * ·)) →
      (∀ p ∈ r'.diagonal, Finiteness.isFinite p = true) →
        wellPosed t r'.diagonal = wellPosed t r.diagonal) ∧
    (∀ t x, t < 1 → x ≠ 0 → (∀ p ∈ r.diagonal, |p| = |x|) → wellPosed t r.diagonal = true) ∧
    (∀ t, 0 ≤ t → (wellPosed t r.diagonal = false ↔
      ∃ p ∈ r.diagonal, ∃ p' ∈ r.diagonal, |p| ≤ t * |p'|)) ∧
    ∀ (routine : Routine α) (t ratio : α) (shown : Threshold) (m : Dense α),
      m.isSquare = true → (routine.factor m).r = r →
        (Solver.relative routine t ratio shown).isNonSingular m = .ok (wellPosed t r.diagonal) ∧
        ((∃ f, (Solver.relative routine t ratio shown).factorize m = .ok f) ↔
          wellPosed t r.diagonal = true) := by
  refine ⟨fun t t' => wellPosed_of_le hfinite, ?_, ?_, ?_, ?_⟩
  · intro t c r' hc hperm hfinite'
    rw [wellPosed_of_finite t hfinite, wellPosed_of_finite t hfinite']
    exact exceedsRatio_of_perm hc hperm
  · intro t x ht hx hsame
    rw [wellPosed_of_finite t hfinite]
    exact exceedsRatio_of_same_magnitude ht hx hsame
  · intro t ht
    rw [wellPosed_of_finite t hfinite, ← Bool.not_eq_true, exceedsRatio_iff ht]
    push Not
    rfl
  · rintro routine t ratio shown m hsquare rfl
    have hverdict : (Solver.relative routine t ratio shown).isNonSingular m =
        .ok (wellPosed t (routine.factor m).r.diagonal) := Solver.isNonSingular_relative hsquare
    refine ⟨hverdict, ?_⟩
    rw [Solver.factorize_eq, hverdict]
    cases wellPosed t (routine.factor m).r.diagonal with
    | false => simp [Except.bind]
    | true => simp [Except.bind]

/-- Pivots -4, 2 and -1 are accepted at a fifth, so they are at a sixth, and with a common factor
of -3 and in another order.  They are rejected at a fourth, which is what the last pivot is of the
first. -/
theorem wellPosed_relative_fifth :
    let r : Dense ℚ := ⟨3, 3, [[-4, 5, 7], [0, 2, 1 / 3], [0, 0, -1]], rfl, by decide⟩
    let r' : Dense ℚ := ⟨3, 3, [[3, 0, 8], [0, 12, -2], [0, 0, -6]], rfl, by decide⟩
    (∀ p ∈ r.diagonal, Finiteness.isFinite p = true) ∧ wellPosed (1 / 5) r.diagonal = true ∧
      wellPosed (1 / 6) r.diagonal = true ∧ wellPosed (1 / 5) r'.diagonal = true ∧
      wellPosed (1 / 4) r.diagonal = false := by
  intro r r'
  have hfinite : ∀ p ∈ r.diagonal, Finiteness.isFinite p = true := fun _ _ => rfl
  have haccepted : wellPosed (1 / 5) r.diagonal = true := by decide +kernel
  have hperm : r'.diagonal.Perm (r.diagonal.map (-3 * ·)) := by decide +kernel
  obtain ⟨hlower, hrelative, -, hpair, -⟩ := wellPosed_relative r hfinite
  refine ⟨hfinite, haccepted, hlower (1 / 5) (1 / 6) (by norm_num) haccepted, ?_, ?_⟩
  · rw [hrelative (1 / 5) (-3) r' (by norm_num) hperm fun _ _ => rfl]
    exact haccepted
  · rw [hpair (1 / 4) (by norm_num)]
    exact ⟨-1, by decide +kernel, -4, by decide +kernel, by norm_num⟩

end LeastSquares

import LeastSquares.Proofs.Linear.ToMatrix
import LeastSquares.Solver.Screening
import Mathlib.Algebra.Order.Field.Basic

/-!
# The verdict on pivots in exact arithmetic

Where every scalar is finite all pivots are judged, and for a threshold that is not negative
the verdict is about any two of them: up to sign, each exceeds the threshold times the other
(`wellPosed_iff`).  A pivot is compared with itself as well, so it cannot be zero
(`ne_zero_of_wellPosed`), and nothing is noticed when an accepted factor is screened.
-/

namespace LeastSquares

/-- Scalars all of which are finite, as in exact arithmetic. -/
class Exact (α : Type*) [Finiteness α] : Prop where
  isFinite : ∀ x : α, Finiteness.isFinite x = true

instance : Finiteness ℚ := ⟨fun _ => true⟩

instance : Exact ℚ := ⟨fun _ => rfl⟩

variable {α : Type*}

/-! ## Extremes -/

theorem foldl_mem_of_pick {pick : α → α → α} (hpick : ∀ a b, pick a b = a ∨ pick a b = b) (x : α)
    (rest : List α) : rest.foldl pick x ∈ x :: rest := by
  induction rest generalizing x with
  | nil => exact List.mem_singleton_self x
  | cons y rest ih =>
      rw [List.foldl_cons]
      have htail := ih (pick x y)
      rcases List.mem_cons.mp htail with hhead | hrest
      · rw [hhead]
        rcases hpick x y with h | h
        · rw [h]
          exact List.mem_cons_self
        · rw [h]
          exact List.mem_cons_of_mem _ List.mem_cons_self
      · exact List.mem_cons_of_mem _ (List.mem_cons_of_mem _ hrest)

theorem foldl_rel_of_pick {pick : α → α → α} {R : α → α → Prop} (hrefl : ∀ a, R a a)
    (htrans : ∀ a b c, R a b → R b c → R a c) (hleft : ∀ a b, R (pick a b) a)
    (hright : ∀ a b, R (pick a b) b) {x : α} {rest : List α} :
    ∀ y ∈ x :: rest, R (rest.foldl pick x) y := by
  induction rest generalizing x with
  | nil =>
      intro y hy
      rw [List.mem_singleton.mp hy]
      exact hrefl x
  | cons z rest ih =>
      intro y hy
      rw [List.foldl_cons]
      have hpicked : R (rest.foldl pick (pick x z)) (pick x z) := ih _ List.mem_cons_self
      rcases List.mem_cons.mp hy with rfl | hy
      · exact htrans _ _ _ hpicked (hleft y z)
      rcases List.mem_cons.mp hy with rfl | hy
      · exact htrans _ _ _ hpicked (hright x y)
      · exact ih y (List.mem_cons_of_mem _ hy)

theorem least_mem [LT α] [DecidableLT α] (x : α) (rest : List α) : least x rest ∈ x :: rest :=
  foldl_mem_of_pick (fun a b => by split_ifs <;> simp) x rest

theorem greatest_mem [LT α] [DecidableLT α] (x : α) (rest : List α) :
    greatest x rest ∈ x :: rest :=
  foldl_mem_of_pick (fun a b => by split_ifs <;> simp) x rest

section Order

variable [LinearOrder α]

theorem least_le (x : α) (rest : List α) : ∀ y ∈ x :: rest, least x rest ≤ y := by
  refine foldl_rel_of_pick le_refl (fun a b c => le_trans) (fun a b => ?_) fun a b => ?_
  · split_ifs with h
    exacts [h.le, le_rfl]
  · split_ifs with h
    exacts [le_rfl, not_lt.mp h]

theorem le_greatest (x : α) (rest : List α) : ∀ y ∈ x :: rest, y ≤ greatest x rest := by
  refine foldl_rel_of_pick (R := (· ≥ ·)) le_refl (fun a b c => ge_trans) (fun a b => ?_)
    fun a b => ?_
  · split_ifs with h
    exacts [h.le, le_rfl]
  · split_ifs with h
    exacts [le_rfl, not_lt.mp h]

theorem lt_least_iff {x y : α} {rest : List α} :
    y < least x rest ↔ ∀ z ∈ x :: rest, y < z := by
  constructor
  · intro h z hz
    exact h.trans_le (least_le x rest z hz)
  · intro h
    exact h _ (least_mem x rest)

end Order

/-! ## The verdict -/

/-- Finite pivots are judged, if there are any. -/
theorem unjudged_eq_false [Finiteness α] {pivots : List α} (hne : pivots ≠ [])
    (hfinite : ∀ p ∈ pivots, Finiteness.isFinite p = true) : unjudged pivots = false := by
  rw [unjudged, List.all_eq_true.mpr hfinite, List.isEmpty_eq_false_iff.mpr hne]
  rfl

/-- The verdict on finite pivots is the comparison. -/
theorem wellPosed_of_finite [Finiteness α] [Zero α] [Neg α] [Mul α] [LT α] [DecidableLT α] (t : α)
    {pivots : List α} (hfinite : ∀ p ∈ pivots, Finiteness.isFinite p = true) :
    wellPosed t pivots = exceedsRatio t pivots := by
  cases pivots with
  | nil => rfl
  | cons p rest =>
      rw [wellPosed, unjudged_eq_false (List.cons_ne_nil p rest) hfinite]
      rfl

variable [Field α] [LinearOrder α] [IsStrictOrderedRing α]

theorem magnitude_eq_abs (x : α) : magnitude x = |x| := by
  unfold magnitude
  split_ifs with h
  · exact (abs_of_neg h).symm
  · exact (abs_of_nonneg (not_lt.mp h)).symm

variable {t : α} {pivots : List α}

/-- What exceeds a multiple of the greatest of scalars exceeds that multiple of each. -/
theorem mul_greatest_lt_iff (ht : 0 ≤ t) {x y : α} {rest : List α} :
    t * greatest x rest < y ↔ ∀ z ∈ x :: rest, t * z < y := by
  constructor
  · intro h z hz
    exact (mul_le_mul_of_nonneg_left (le_greatest x rest z hz) ht).trans_lt h
  · intro h
    exact h _ (greatest_mem x rest)

/-- A common factor stretches both sides of the comparison. -/
theorem mul_abs_mul_lt_iff {c : α} (hc : c ≠ 0) (t x y : α) :
    t * |c * x| < |c * y| ↔ t * |x| < |y| := by
  rw [abs_mul, abs_mul, mul_left_comm]
  exact mul_lt_mul_iff_right₀ (abs_pos.mpr hc)

theorem map_magnitude_eq (pivots : List α) : pivots.map magnitude = pivots.map fun p => |p| :=
  List.map_congr_left fun p _ => magnitude_eq_abs p

/-- The comparison of the extremes is a comparison of any two pivots. -/
theorem exceedsRatio_iff (ht : 0 ≤ t) :
    exceedsRatio t pivots = true ↔ ∀ p ∈ pivots, ∀ p' ∈ pivots, t * |p'| < |p| := by
  unfold exceedsRatio
  rw [map_magnitude_eq]
  cases pivots with
  | nil => simp
  | cons p rest =>
      rw [List.map_cons, decide_eq_true_iff, lt_least_iff]
      simp only [mul_greatest_lt_iff ht, ← List.map_cons (f := fun p : α => |p|),
        List.forall_mem_map]

variable [Finiteness α] [Exact α]

omit [IsStrictOrderedRing α] in
theorem wellPosed_eq_exceedsRatio (t : α) (pivots : List α) :
    wellPosed t pivots = exceedsRatio t pivots :=
  wellPosed_of_finite t fun p _ => Exact.isFinite p

/-- **The verdict.**  Pivots are accepted if, of any two of them, each exceeds the threshold
times the other, up to sign. -/
theorem wellPosed_iff (ht : 0 ≤ t) :
    wellPosed t pivots = true ↔ ∀ p ∈ pivots, ∀ p' ∈ pivots, t * |p'| < |p| := by
  rw [wellPosed_eq_exceedsRatio, exceedsRatio_iff ht]

theorem ne_zero_of_wellPosed (ht : 0 ≤ t) (h : wellPosed t pivots = true) :
    ∀ p ∈ pivots, p ≠ 0 := by
  rintro p hp rfl
  -- A zero would have to exceed a multiple of itself.
  have hself := (wellPosed_iff ht).mp h 0 hp 0 hp
  rw [abs_zero, mul_zero] at hself
  exact lt_irrefl 0 hself

/-! ## Accepted factors -/

omit [LinearOrder α] [IsStrictOrderedRing α] [Finiteness α] [Exact α] in
/-- The diagonal of a square matrix. -/
theorem Dense.mem_diagonal {r : Dense α} {n : ℕ} (hrows : r.rows = n) (hcolumns : r.columns = n)
    {p : α} : p ∈ r.diagonal ↔ ∃ i < n, r.entry i i = p := by
  have hentry : ∀ i < n, r.get? i i = some p ↔ r.entry i i = p := by
    intro i hi
    obtain ⟨x, hx⟩ := Option.isSome_iff_exists.mp (r.get?_isSome (hrows ▸ hi) (hcolumns ▸ hi))
    rw [Dense.entry, hx, Option.some.injEq, Option.getD_some]
  rw [Dense.diagonal, List.mem_filterMap, hrows]
  refine exists_congr fun i => ?_
  rw [List.mem_range]
  exact and_congr_right fun hi => hentry i hi

/-- Screening an accepted factor finds nothing. -/
theorem Screening.not_stops_of_wellPosed (s : Screening α) {r : Dense α} (ht : 0 ≤ t)
    (h : wellPosed t r.diagonal = true) : s.stops r = false := by
  refine s.not_stops (List.all_eq_true.mpr fun x _ => Exact.isFinite x) fun pivot hpivot => ?_
  rw [beq_eq_false_iff_ne]
  exact ne_zero_of_wellPosed ht h pivot hpivot

end LeastSquares

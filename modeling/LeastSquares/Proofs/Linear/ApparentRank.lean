import LeastSquares.Proofs.Linear.Answers
import LeastSquares.Proofs.Linear.Relative
import LeastSquares.Proofs.Linear.Substitution
import Mathlib.Algebra.Order.Ring.Rat
import Mathlib.Data.Finset.Max
import Mathlib.Tactic.NormNum

/-!
# The apparent rank

Two ratios are applied to the same pivots.  The threshold decides in one comparison of the least
and the greatest magnitude whether a factor is rejected.  A fixed ratio decides for each pivot
whether it counts.

In exact arithmetic both say something about any two pivots: a factor is accepted if each pivot
exceeds the threshold times any other (`wellPosed_iff`), and a pivot counts if it exceeds the ratio
times any other (`apparentRank_eq_countP`).  So all pivots count exactly if the factor would be
accepted with the ratio as its threshold (`apparentRank_eq_length_iff`), and the two ratios can be
compared instead of the two ways to use them.  A rejected factor has full apparent rank if it would
not be rejected at the ratio, which takes a threshold above the ratio.  The ratio of the solvers is
a hundredth (`rankRatio_eq`).

The main result is `apparentRank_of_rejected`.
-/

namespace LeastSquares

variable {α : Type*}

/-! ## The diagonal -/

theorem Dense.diagonal_eq_map [Zero α] {r : Dense α} {n : ℕ} (hrows : r.rows = n)
    (hcolumns : r.columns = n) : r.diagonal = (List.range n).map fun i => r.entry i i := by
  rw [Dense.diagonal, hrows, ← List.filterMap_eq_map]
  refine List.filterMap_congr fun i hi => ?_
  have hlt := List.mem_range.mp hi
  obtain ⟨x, hx⟩ := Option.isSome_iff_exists.mp (r.get?_isSome (hrows ▸ hlt) (hcolumns ▸ hlt))
  rw [Function.comp_apply, Dense.entry, hx, Option.getD_some]

theorem Dense.length_diagonal [Zero α] {r : Dense α} {n : ℕ} (hrows : r.rows = n)
    (hcolumns : r.columns = n) : r.diagonal.length = n := by
  rw [Dense.diagonal_eq_map hrows hcolumns, List.length_map, List.length_range]

/-! ## Which pivots count -/

variable [Field α] [LinearOrder α] [IsStrictOrderedRing α] {t ratio : α} {pivots pivots' : List α}

/-- A pivot counts if it exceeds the ratio times each of them. -/
theorem apparentRank_eq_countP (hratio : 0 ≤ ratio) :
    apparentRank ratio pivots =
      pivots.countP fun p => ∀ p' ∈ pivots, ratio * |p'| < |p| := by
  unfold apparentRank
  rw [map_magnitude_eq]
  cases pivots with
  | nil => rfl
  | cons p rest =>
      rw [List.map_cons]
      simp only [mul_greatest_lt_iff hratio, ← List.map_cons (f := fun p : α => |p|),
        List.forall_mem_map, List.countP_map]
      rfl

/-- The pivot of the greatest magnitude counts, so the rank is zero only if all pivots are. -/
theorem apparentRank_eq_zero_iff (hratio : 0 ≤ ratio) (hlt : ratio < 1) :
    apparentRank ratio pivots = 0 ↔ ∀ p ∈ pivots, p = 0 := by
  rw [apparentRank_eq_countP hratio, List.countP_eq_zero]
  simp only [decide_eq_true_eq]
  constructor
  · intro hnone p hp
    obtain ⟨q, hq, hmax⟩ := pivots.toFinset.exists_max_image (fun p => |p|)
      ⟨p, List.mem_toFinset.mpr hp⟩
    simp only [List.mem_toFinset] at hq hmax
    by_contra hne
    refine hnone q hq fun p' hp' => ?_
    have hpos : 0 < |q| := (abs_pos.mpr hne).trans_le (hmax p hp)
    calc ratio * |p'| ≤ ratio * |q| := mul_le_mul_of_nonneg_left (hmax p' hp') hratio
      _ < 1 * |q| := mul_lt_mul_of_pos_right hlt hpos
      _ = |q| := one_mul _
  · intro hzero p hp hcounts
    have hself := hcounts p hp
    rw [hzero p hp, abs_zero, mul_zero] at hself
    exact lt_irrefl 0 hself

/-- Neither the order of the pivots nor a common factor has an influence on which of them count. -/
theorem apparentRank_of_perm (hratio : 0 ≤ ratio) {c : α} (hc : c ≠ 0)
    (h : pivots'.Perm (pivots.map (c * ·))) :
    apparentRank ratio pivots' = apparentRank ratio pivots := by
  rw [apparentRank_eq_countP hratio, apparentRank_eq_countP hratio, h.countP_eq, List.countP_map]
  simp only [h.mem_iff, List.forall_mem_map, Function.comp_def, mul_abs_mul_lt_iff hc]

/-! ## The two ratios -/

variable [Finiteness α] [Exact α]

/-- All pivots count exactly if they would be accepted with the ratio as the threshold. -/
theorem apparentRank_eq_length_iff (hratio : 0 ≤ ratio) :
    apparentRank ratio pivots = pivots.length ↔ wellPosed ratio pivots = true := by
  rw [apparentRank_eq_countP hratio, List.countP_eq_length, wellPosed_iff hratio]
  simp only [decide_eq_true_eq]

/-- What is rejected at a threshold up to the ratio does not have full rank. -/
theorem apparentRank_lt_length (ht : 0 ≤ t) (hle : t ≤ ratio)
    (hrejected : wellPosed t pivots = false) : apparentRank ratio pivots < pivots.length := by
  have hratio := ht.trans hle
  refine lt_of_le_of_ne ?_ ?_
  · rw [apparentRank_eq_countP hratio]
    exact List.countP_le_length
  · intro hfull
    have haccepted := wellPosed_of_le (fun p _ => Exact.isFinite p) hle
      ((apparentRank_eq_length_iff hratio).mp hfull)
    rw [hrejected] at haccepted
    cases haccepted

/-! ### A factor of full apparent rank -/

/-- The identity, but for a first pivot `t`. -/
def Dense.lowered (k : ℕ) (t : α) : Dense α :=
  Dense.ofFn k k fun i j => if i = j then if i = 0 then t else 1 else 0

section Lowered

variable {k : ℕ}

omit [LinearOrder α] [IsStrictOrderedRing α] [Finiteness α] [Exact α] in
theorem Dense.isUpper_lowered (k : ℕ) (t : α) : (Dense.lowered k t).IsUpper k where
  rows := rfl
  columns := rfl
  entry_eq_zero i hi j hj := by
    rw [Dense.lowered, Dense.entry_ofFn _ hi (hj.trans hi), if_neg hj.ne']

omit [LinearOrder α] [IsStrictOrderedRing α] [Finiteness α] [Exact α] in
theorem Dense.mem_diagonal_lowered (hk : 2 ≤ k) (t : α) {p : α} :
    p ∈ (Dense.lowered k t).diagonal ↔ p = t ∨ p = 1 := by
  have hentry : ∀ i < k, (Dense.lowered k t).entry i i = if i = 0 then t else 1 := by
    intro i hi
    rw [Dense.lowered, Dense.entry_ofFn _ hi hi, if_pos rfl]
  rw [Dense.mem_diagonal (n := k) rfl rfl]
  constructor
  · rintro ⟨i, hi, rfl⟩
    rw [hentry i hi]
    split_ifs
    exacts [.inl rfl, .inr rfl]
  · rintro (rfl | rfl)
    · exact ⟨0, by omega, hentry 0 (by omega)⟩
    · exact ⟨1, by omega, hentry 1 (by omega)⟩

theorem Dense.not_wellPosed_lowered (hk : 2 ≤ k) (ht : 0 < t) :
    wellPosed t (Dense.lowered k t).diagonal = false := by
  rw [← Bool.not_eq_true, wellPosed_iff ht.le]
  intro haccepted
  -- The first pivot is just what it should exceed.
  have hfirst := haccepted t ((mem_diagonal_lowered hk t).mpr (.inl rfl)) 1
    ((mem_diagonal_lowered hk t).mpr (.inr rfl))
  rw [abs_one, mul_one, abs_of_pos ht] at hfirst
  exact lt_irrefl t hfirst

theorem Dense.apparentRank_lowered (hk : 2 ≤ k) (hratio : 0 ≤ ratio) (hlt : ratio < t)
    (htlt : t < 1) : apparentRank ratio (Dense.lowered k t).diagonal = k := by
  have ht : 0 < t := hratio.trans_lt hlt
  have haccepted : wellPosed ratio (Dense.lowered k t).diagonal = true := by
    rw [wellPosed_iff hratio]
    simp only [mem_diagonal_lowered hk, forall_eq_or_imp, forall_eq, abs_of_pos ht, abs_one,
      mul_one]
    refine ⟨⟨?_, hlt⟩, ?_, hlt.trans htlt⟩
    · exact mul_lt_of_lt_one_left ht (hlt.trans htlt)
    · exact (mul_le_of_le_one_right hratio htlt.le).trans_lt (hlt.trans htlt)
  rw [(apparentRank_eq_length_iff hratio).mpr haccepted]
  exact Dense.length_diagonal rfl rfl

end Lowered

/-! ### The ratio of the solvers -/

omit [Finiteness α] [Exact α] in
theorem rankRatio_eq : (rankRatio : α) = 1 / 100 := by
  norm_num [rankRatio]

/-- **When the apparent rank is full.**  It never is as long as the threshold is at most the ratio
from which pivots count.  Above the ratio there are rejected factors of every size with full
apparent rank.  At any threshold the rank is zero exactly if all pivots are, and it depends neither
on their order nor on a common factor.  It is the rank that is reported.  The ratio of the solvers
is a hundredth. -/
theorem apparentRank_of_rejected (ratio : α) (hratio : 0 < ratio) (hlt : ratio < 1) {k : ℕ}
    (hk : 2 ≤ k) :
    (∀ t, 0 < t → t < 1 →
      (t ≤ ratio → ∀ r : Dense α, r.IsUpper k → wellPosed t r.diagonal = false →
        apparentRank ratio r.diagonal ≤ k - 1) ∧
      (ratio < t → ∃ r : Dense α, r.IsUpper k ∧ wellPosed t r.diagonal = false ∧
        apparentRank ratio r.diagonal = k)) ∧
    (∀ t, ∀ r : Dense α, r.IsUpper k → wellPosed t r.diagonal = false →
      (apparentRank ratio r.diagonal = 0 ↔ ∀ p ∈ r.diagonal, p = 0)) ∧
    (∀ (r r' : Dense α) (c : α), r.IsUpper k → r'.IsUpper k → c ≠ 0 →
      r'.diagonal.Perm (r.diagonal.map (c * ·)) →
        apparentRank ratio r'.diagonal = apparentRank ratio r.diagonal) ∧
    (∀ (routine : Routine α) (t : α) (shown : Threshold) (m : Dense α), m.isSquare = true →
      wellPosed t (routine.factor m).r.diagonal = false →
        (Solver.relative routine t ratio shown).factorize m =
          .error (.singular m.rows shown
            (apparentRank ratio (routine.factor m).r.diagonal))) ∧
    (0 < (rankRatio : α) ∧ (rankRatio : α) < 1 ∧ (rankRatio : α) = 1 / 100) := by
  refine ⟨fun t ht htlt => ⟨?_, ?_⟩, ?_, ?_, ?_, ?_⟩
  · intro hle r hr hrejected
    have hless := apparentRank_lt_length ht.le hle hrejected
    rw [Dense.length_diagonal hr.rows hr.columns] at hless
    exact Nat.le_sub_one_of_lt hless
  · intro hratiolt
    exact ⟨Dense.lowered k t, Dense.isUpper_lowered k t, Dense.not_wellPosed_lowered hk ht,
      Dense.apparentRank_lowered hk hratio.le hratiolt htlt⟩
  · intro t r _ _
    exact apparentRank_eq_zero_iff hratio.le hlt
  · intro r r' c _ _ hc hperm
    exact apparentRank_of_perm hratio.le hc hperm
  · intro routine t shown m hsquare hrejected
    exact Solver.factorize_of_not_wellPosed hsquare hrejected
  · rw [rankRatio_eq]
    norm_num

/-- At a threshold of 1/100000 one of three pivots is too small, and it is one of two that do not
count for the solvers.  At 1/2 all of three pivots can count in spite of a rejection. -/
theorem apparentRank_of_rejected_hundredth :
    let r : Dense ℚ := ⟨3, 3, [[-4, 5, 7], [0, 1 / 50, 2], [0, 0, 1 / 90000]], rfl, by decide⟩
    wellPosed (1 / 100000) r.diagonal = false ∧ apparentRank rankRatio r.diagonal ≤ 3 - 1 ∧
      ∃ r' : Dense ℚ, r'.IsUpper 3 ∧ wellPosed (1 / 2) r'.diagonal = false ∧
        apparentRank rankRatio r'.diagonal = 3 := by
  intro r
  have hrejected : wellPosed (1 / 100000) r.diagonal = false := by decide +kernel
  have hsize : 2 ≤ 3 := by decide
  have hratio : (rankRatio : ℚ) = 1 / 100 := rankRatio_eq
  have hranks := (apparentRank_of_rejected (rankRatio : ℚ) (by norm_num [hratio])
    (by norm_num [hratio]) hsize).1
  have hlow := (hranks (1 / 100000) (by norm_num) (by norm_num)).1 (by norm_num [hratio])
  have hhigh := (hranks (1 / 2) (by norm_num) (by norm_num)).2 (by norm_num [hratio])
  exact ⟨hrejected, hlow r (by decide +kernel) hrejected, hhigh⟩

end LeastSquares

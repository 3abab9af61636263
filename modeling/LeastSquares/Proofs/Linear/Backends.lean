import LeastSquares.Proofs.Linear.Degenerate
import Mathlib.LinearAlgebra.Matrix.Block
import Mathlib.LinearAlgebra.Matrix.DotProduct

/-!
# Where the backends agree

Both backends apply one threshold to the pivots of a factorization, but to the pivots of two
different ones: the portable backend takes the columns as they are, and the native one takes the
longest first.  The ratio of the smallest to the largest pivot depends on that order, and so does
the verdict (`backends_disagree`).  Neither backend is the stricter one.

There are three cases in which they do agree.

* If the longest column is the leftmost one in every step, both eliminations take the same steps
  and find the same pivots, in floating-point arithmetic as well (`eliminate_longest`).
* If a matrix has no inverse, one of the pivots is zero in any order
  (`Solver.rejects_of_not_isUnit`).
* If a matrix stretches no two vectors too differently, neither do its triangular factors.  The
  length of column `j` is what a unit vector is stretched to, and `1 / r i i` is an entry of a
  vector that is taken to a unit vector, so the pivots cannot be too different either
  (`StretchesEvenly.mul_abs_lt`).

In exact arithmetic the order is the only thing that can make a difference: two triangular
factors for one order of the columns differ by an orthogonal and triangular matrix, which is
diagonal (`IsQR.abs_pivot_eq`).
-/

namespace LeastSquares

open Matrix

/-! ## Columns that keep their order -/

namespace Householder

/-- Whether the longest column is the leftmost one that is left, in every step. -/
def KeepsOrder (m : Dense Float) : Prop := (pivoted.factor m).order = some (List.range m.rows)

instance (m : Dense Float) : Decidable (KeepsOrder m) := inferInstanceAs (Decidable (_ = _))

theorem Reflection.length_applyAll (h : Reflection) (columns : List (List Float)) :
    (h.applyAll columns).length = columns.length := by
  fun_induction h.applyAll columns with
  | case1 => rfl
  | case2 => rfl
  | case3 column columns _ ih => rw [List.length_cons, List.length_cons, ih]

theorem Column.place_advance (c : Column) (entries : List Float) :
    (c.advance entries).place = c.place := by
  unfold Column.advance
  dsimp only
  split_ifs <;> rfl

theorem Column.map_place_advance {columns : List Column} {entries : List (List Float)}
    (h : entries.length = columns.length) :
    (List.zipWith Column.advance columns entries).map Column.place =
      columns.map Column.place := by
  induction columns generalizing entries with
  | nil => rfl
  | cons column columns ih =>
      obtain ⟨entry, entries, rfl⟩ := List.exists_cons_of_length_eq_add_one h
      rw [List.zipWith_cons_cons, List.map_cons, List.map_cons, Column.place_advance,
        ih (Nat.succ.inj h)]

variable {column : Column} {columns : List Column}

/-- If the longest column is at the place of the leftmost one, it is the leftmost one. -/
theorem longestFirst_of_place (hdistinct : ((column :: columns).map Column.place).Nodup)
    (h : (longestFirst column columns).1.place = column.place) :
    longestFirst column columns = (column, columns) := by
  unfold longestFirst at h ⊢
  split at h
  · rfl
  · split at h
    next place _ next hnext =>
      rw [List.map_cons, List.nodup_cons] at hdistinct
      exact absurd (h ▸ List.mem_map_of_mem (List.mem_of_getElem? hnext)) hdistinct.1
    next => simp only [*]

/-- If the places are those from left to right, both choices take the same steps. -/
theorem eliminate_longest (count : ℕ) (columns : List Column) (along : List (List Float))
    (hdistinct : (columns.map Column.place).Nodup)
    (h : (eliminate longest count columns along).map (fun step => step.1.place) =
      (columns.map Column.place).take count) :
    eliminate longest count columns along = eliminate leftmost count columns along := by
  induction count generalizing columns along with
  | zero => rfl
  | succ count ih =>
      cases columns with
      | nil => rfl
      | cons column columns =>
          simp only [eliminate, List.map_cons, List.take_succ_cons, List.cons.injEq] at h
          obtain ⟨hplace, hplaces⟩ := h
          have hnext : longest.next column columns = (column, columns) :=
            longestFirst_of_place hdistinct hplace
          simp only [eliminate, hnext] at hplaces ⊢
          -- The columns that are left have the places that they had.
          have hleft := Column.map_place_advance
            (((Reflection.ofColumn column.below).length_applyAll (columns.map Column.below)).trans
              (List.length_map _))
          rw [ih _ _ (hleft ▸ hdistinct.of_cons) (hleft ▸ hplaces)]
          rfl

theorem map_place_columnsOf (m : Dense Float) :
    (columnsOf m).map Column.place = List.range m.columns := by
  rw [columnsOf, List.map_map]
  exact List.map_id _

theorem KeepsOrder.triangle_eq {m : Dense Float} (h : KeepsOrder m) (hsquare : m.isSquare = true) :
    pivoted.triangle m = plain.triangle m := by
  have hplaces := Option.some.inj h
  rw [List.map_map] at hplaces
  have hrange : ((columnsOf m).map Column.place).take m.rows = List.range m.rows := by
    rw [map_place_columnsOf, ← beq_iff_eq.mp hsquare, List.take_of_length_le (by simp)]
  have hdistinct : ((columnsOf m).map Column.place).Nodup :=
    map_place_columnsOf m ▸ List.nodup_range
  have hsame := eliminate_longest m.rows (columnsOf m) (Dense.identity m.rows).columnList hdistinct
    (hplaces.trans hrange.symm)
  rw [pivoted.triangle_eq, plain.triangle_eq]
  exact congrArg (fun steps => upper m.rows (steps.map Prod.fst)) hsame

end Householder

theorem LinearSolver.isNonSingular_of_keepsOrder (threshold : Threshold) {m : Dense Float}
    (h : Householder.KeepsOrder m) :
    LinearSolver.isNonSingular ⟨.native, threshold⟩ (.dense m) =
      LinearSolver.isNonSingular ⟨.portable, threshold⟩ (.dense m) := by
  show Solver.isNonSingular _ m = Solver.isNonSingular _ m
  unfold Solver.isNonSingular
  by_cases hsquare : m.isSquare = true
  · rw [if_pos hsquare, if_pos hsquare]
    exact congrArg (fun r : Dense Float => threshold.judge r.diagonal) (h.triangle_eq hsquare)
  · rw [if_neg hsquare, if_neg hsquare]

theorem LinearSolver.isNonSingular_real (backend : Backend) (t : Float) {m : Dense Float}
    (hsquare : m.isSquare = true) :
    LinearSolver.isNonSingular ⟨backend, .real t⟩ (.dense m) =
      .ok (wellPosed t (backend.routine.triangle m).diagonal) := by
  show Solver.isNonSingular _ m = _
  rw [LinearSolver.solver, Threshold.solver_eq_relative (t := t) rfl, Solver.isNonSingular,
    if_pos hsquare]
  rfl

/-! ## The pivots of one order -/

variable {α : Type*} [Field α] {n : ℕ}

section Triangular

variable {A B : Matrix (Fin n) (Fin n) α}

theorem Dense.IsUpper.blockTriangular {r : Dense α} (h : r.IsUpper n) :
    BlockTriangular (r.toMatrix n n) id :=
  fun i j hij => h.entry_eq_zero i i.isLt j hij

theorem mul_apply_diagonal (hA : BlockTriangular A id) (hB : BlockTriangular B id) (i : Fin n) :
    (A * B) i i = A i i * B i i := by
  rw [mul_apply]
  refine Finset.sum_eq_single_of_mem i (Finset.mem_univ i) fun k _ hk => ?_
  rcases lt_or_gt_of_ne hk with hlt | hgt
  · rw [hA hlt, zero_mul]
  · rw [hB hgt, mul_zero]

theorem blockTriangular_inv (hA : BlockTriangular A id) (h : IsUnit A) :
    BlockTriangular A⁻¹ id := by
  have := h.invertible
  exact blockTriangular_inv_of_blockTriangular hA

/-- The diagonal entries of the inverse of a triangular matrix are inverses. -/
theorem mul_inv_apply_diagonal (hA : BlockTriangular A id) (h : IsUnit A) (i : Fin n) :
    A i i * A⁻¹ i i = 1 := by
  rw [← mul_apply_diagonal hA (blockTriangular_inv hA h),
    mul_nonsing_inv _ ((isUnit_iff_isUnit_det A).mp h), one_apply_eq]

end Triangular

namespace Factorization.IsQR

variable [Finiteness α] {f f' : Factorization α} {m : Dense α}

theorem dotProduct_mulVec (h : f.IsQR m n) (v : Fin n → α) :
    f.q.toMatrix n n *ᵥ v ⬝ᵥ f.q.toMatrix n n *ᵥ v = v ⬝ᵥ v := by
  rw [Matrix.dotProduct_mulVec, ← vecMul_transpose, vecMul_vecMul, h.orthogonal, vecMul_one]

/-- What `q r` maps a vector to is the image under the matrix of a vector of the same length. -/
theorem exists_mulVec (h : f.IsQR m n) (z : Fin n → α) :
    ∃ x : Fin n → α, x ⬝ᵥ x = z ⬝ᵥ z ∧
      m.toMatrix n n *ᵥ x = f.q.toMatrix n n *ᵥ (f.r.toMatrix n n *ᵥ z) := by
  have hz := tuple_ofFn z
  refine ⟨tuple n (f.inOrder (List.ofFn z)), ?_, by rw [h.mulVec_inOrder, hz]⟩
  calc ∑ k : Fin n, (f.inOrder (List.ofFn z)).getD k 0 * (f.inOrder (List.ofFn z)).getD k 0
      = ∑ j : Fin n, (f.inOrder (List.ofFn z)).getD (f.place j) 0 *
          (f.inOrder (List.ofFn z)).getD (f.place j) 0 :=
        (h.sum_place fun k =>
          (f.inOrder (List.ofFn z)).getD k 0 * (f.inOrder (List.ofFn z)).getD k 0).symm
    _ = ∑ j : Fin n, z j * z j := by
        refine Finset.sum_congr rfl fun j _ => ?_
        rw [h.getD_inOrder _ j.isLt]
        exact congrArg₂ (· * ·) (congrFun hz j) (congrFun hz j)

variable [LinearOrder α] [IsStrictOrderedRing α]

theorem isUnit_triangle (h : f.IsQR m n) (hA : IsUnit (m.toMatrix n n)) :
    IsUnit (f.r.toMatrix n n) := by
  by_contra hR
  obtain ⟨z, hz, hzero⟩ := exists_mulVec_eq_zero_iff.mpr (not_isUnit_iff_det_eq_zero.mp hR)
  obtain ⟨x, hlength, hx⟩ := h.exists_mulVec z
  rw [hzero, mulVec_zero] at hx
  refine not_isUnit_iff_det_eq_zero.mpr (exists_mulVec_eq_zero_iff.mp ⟨x, ?_, hx⟩) hA
  rwa [ne_eq, ← dotProduct_self_eq_zero, hlength, dotProduct_self_eq_zero]

/-- **The order of the columns decides.**  Two factorizations of one matrix that take its columns
in one order have the same pivots, up to sign. -/
theorem abs_pivot_eq (h : f.IsQR m n) (h' : f'.IsQR m n)
    (hplace : ∀ j < n, f.place j = f'.place j) (hA : IsUnit (m.toMatrix n n)) (i : Fin n) :
    |f'.r.entry i i| = |f.r.entry i i| := by
  let q := f.q.toMatrix n n
  let q' := f'.q.toMatrix n n
  let r := f.r.toMatrix n n
  let r' := f'.r.toMatrix n n
  have hproduct : q * r = q' * r' := by
    ext i j
    rw [← h.product i j, ← h'.product i j, hplace j j.isLt]
  -- What takes the one triangular factor to the other is orthogonal and triangular.
  let d := q'ᵀ * q
  have hr' : d * r = r' := by
    rw [Matrix.mul_assoc, hproduct, ← Matrix.mul_assoc, h'.orthogonal, Matrix.one_mul]
  have horthogonal : dᵀ * d = 1 := by
    have hcancel : q' * q'ᵀ = 1 := mul_eq_one_comm.mp h'.orthogonal
    rw [transpose_mul, transpose_transpose, Matrix.mul_assoc, ← Matrix.mul_assoc q', hcancel,
      Matrix.one_mul, h.orthogonal]
  have hr : IsUnit r := h.isUnit_triangle hA
  have hd : BlockTriangular d id := by
    rw [← mul_nonsing_inv_cancel_right r d ((isUnit_iff_isUnit_det r).mp hr), hr']
    exact h'.upper.blockTriangular.mul (blockTriangular_inv h.upper.blockTriangular hr)
  have hdt : BlockTriangular dᵀ id := by
    rw [← inv_eq_left_inv horthogonal]
    exact blockTriangular_inv hd (IsUnit.of_mul_eq_one_right _ horthogonal)
  have hsquare : d i i * d i i = 1 := by
    have hdiagonal := mul_apply_diagonal hdt hd i
    rw [horthogonal, one_apply_eq] at hdiagonal
    exact hdiagonal.symm
  have hone : |d i i| = 1 := (mul_self_eq_one_iff.mp hsquare).elim
    (fun h => by rw [h, abs_one]) fun h => by rw [h, abs_neg, abs_one]
  calc |r' i i| = |(d * r) i i| := by rw [hr']
    _ = |d i i| * |r i i| := by rw [mul_apply_diagonal hd h.upper.blockTriangular, abs_mul]
    _ = |r i i| := by rw [hone, one_mul]

theorem wellPosed_iff [Exact α] {t : α} (h : f.IsQR m n) (ht : 0 ≤ t) :
    wellPosed t f.r.diagonal = true ↔
      ∀ i j : Fin n, t * |f.r.entry j j| < |f.r.entry i i| := by
  have hmem := fun p => Dense.mem_diagonal (p := p) h.upper.rows h.upper.columns
  rw [LeastSquares.wellPosed_iff ht]
  constructor
  · intro haccepted i j
    exact haccepted _ ((hmem _).mpr ⟨i, i.isLt, rfl⟩) _ ((hmem _).mpr ⟨j, j.isLt, rfl⟩)
  · intro haccepted p hp p' hp'
    obtain ⟨i, hi, rfl⟩ := (hmem p).mp hp
    obtain ⟨j, hj, rfl⟩ := (hmem p').mp hp'
    exact haccepted ⟨i, hi⟩ ⟨j, hj⟩

end Factorization.IsQR

/-! ## Matrices that stretch evenly -/

variable [LinearOrder α] [IsStrictOrderedRing α]

/-- Of any two vectors the matrix stretches each by more than `t` times as much as the other.
The stretch of a vector is the ratio of the length of its image to its own length; here it is
squared, and the denominators are cleared. -/
def StretchesEvenly (t : α) (A : Matrix (Fin n) (Fin n) α) : Prop :=
  ∀ x y : Fin n → α, x ≠ 0 → y ≠ 0 →
    t ^ 2 * ((A *ᵥ x ⬝ᵥ A *ᵥ x) * (y ⬝ᵥ y)) < (A *ᵥ y ⬝ᵥ A *ᵥ y) * (x ⬝ᵥ x)

omit [IsStrictOrderedRing α] in
theorem StretchesEvenly.isUnit {t : α} {A : Matrix (Fin n) (Fin n) α}
    (h : StretchesEvenly t A) : IsUnit A := by
  by_contra hA
  obtain ⟨x, hx, hzero⟩ := exists_mulVec_eq_zero_iff.mpr (not_isUnit_iff_det_eq_zero.mp hA)
  have hself := h x x hx hx
  rw [hzero, zero_dotProduct, zero_mul, mul_zero] at hself
  exact lt_irrefl 0 hself

/-- Triangular factors stretch as evenly as the matrix. -/
theorem StretchesEvenly.triangle [Finiteness α] {t : α} {f : Factorization α} {m : Dense α}
    (h : StretchesEvenly t (m.toMatrix n n)) (hqr : f.IsQR m n) :
    StretchesEvenly t (f.r.toMatrix n n) := by
  intro z w hz hw
  obtain ⟨x, hxz, hx⟩ := hqr.exists_mulVec z
  obtain ⟨y, hyw, hy⟩ := hqr.exists_mulVec w
  have hne : ∀ {v u : Fin n → α}, v ⬝ᵥ v = u ⬝ᵥ u → u ≠ 0 → v ≠ 0 := by
    intro v u hlength hu
    rwa [ne_eq, ← dotProduct_self_eq_zero, hlength, dotProduct_self_eq_zero]
  have hstretch := h x y (hne hxz hz) (hne hyw hw)
  rwa [hx, hy, hxz, hyw, hqr.dotProduct_mulVec, hqr.dotProduct_mulVec] at hstretch

theorem mul_self_le_dotProduct (v : Fin n → α) (i : Fin n) : v i * v i ≤ v ⬝ᵥ v :=
  Finset.single_le_sum (f := fun i => v i * v i) (fun i _ => mul_self_nonneg (v i))
    (Finset.mem_univ i)

/-- The pivots of a triangular matrix are among what it stretches by. -/
theorem StretchesEvenly.mul_abs_lt {t : α} {R : Matrix (Fin n) (Fin n) α}
    (h : StretchesEvenly t R) (hR : BlockTriangular R id) (i j : Fin n) :
    t * |R j j| < |R i i| := by
  have hunit : IsUnit R := h.isUnit
  have hinverse : R i i * R⁻¹ i i = 1 := mul_inv_apply_diagonal hR hunit i
  have hpivot : R i i ≠ 0 := left_ne_zero_of_mul_eq_one hinverse
  have hne : ∀ k : Fin n, (Pi.single k 1 : Fin n → α) ≠ 0 := fun k =>
    Pi.single_ne_zero_iff.mpr one_ne_zero
  have hone : ∀ k : Fin n, (Pi.single k 1 : Fin n → α) ⬝ᵥ Pi.single k 1 = 1 := fun k => by
    rw [single_one_dotProduct, Pi.single_eq_same]
  -- A vector that is taken to a unit vector, and its entry there.
  let y : Fin n → α := R⁻¹ *ᵥ Pi.single i 1
  have himage : R *ᵥ y = Pi.single i 1 := by
    rw [mulVec_mulVec, mul_nonsing_inv _ ((isUnit_iff_isUnit_det R).mp hunit), one_mulVec]
  have hentry : y i = R⁻¹ i i := congrFun (mulVec_single_one R⁻¹ i) i
  have hy : y ≠ 0 := by
    intro hzero
    rw [hzero, mulVec_zero] at himage
    exact hne i himage.symm
  have hcolumn : R j j * R j j ≤ R *ᵥ Pi.single j 1 ⬝ᵥ R *ᵥ Pi.single j 1 := by
    have hle := mul_self_le_dotProduct (R *ᵥ Pi.single j 1) j
    rwa [mulVec_single_one] at hle ⊢
  have hlength : R⁻¹ i i * R⁻¹ i i ≤ y ⬝ᵥ y := hentry ▸ mul_self_le_dotProduct y i
  have hboth := mul_le_mul hcolumn hlength (mul_self_nonneg _) ((mul_self_nonneg _).trans hcolumn)
  have hstretch := h (Pi.single j 1) y (hne j) hy
  rw [himage, hone, hone, mul_one] at hstretch
  refine lt_of_pow_lt_pow_left₀ 2 (abs_nonneg _) ?_
  calc (t * |R j j|) ^ 2
      = t ^ 2 * (R j j * R j j) * (R i i * R⁻¹ i i) ^ 2 := by
        rw [hinverse, mul_pow, sq_abs]
        ring
    _ = R i i ^ 2 * (t ^ 2 * (R j j * R j j * (R⁻¹ i i * R⁻¹ i i))) := by ring
    _ ≤ R i i ^ 2 *
        (t ^ 2 * ((R *ᵥ Pi.single j 1 ⬝ᵥ R *ᵥ Pi.single j 1) * (y ⬝ᵥ y))) := by
        gcongr
    _ < R i i ^ 2 * 1 := mul_lt_mul_of_pos_left hstretch (sq_pos_of_ne_zero hpivot)
    _ = |R i i| ^ 2 := by rw [mul_one, sq_abs]

/-! ## The verdicts -/

section Verdicts

variable [Finiteness α] [Exact α] {routine routine' : Routine α} {t rankRatio : α}
  {shown : Threshold} {m : Dense α}

theorem Solver.isNonSingular_of_stretchesEvenly (ht : 0 ≤ t)
    (hqr : (routine.factor m).IsQR m n) (h : StretchesEvenly t (m.toMatrix n n)) :
    (Solver.relative routine t rankRatio shown).isNonSingular m = .ok true := by
  have hr : StretchesEvenly t ((routine.factor m).r.toMatrix n n) := h.triangle hqr
  rw [Solver.isNonSingular_relative hqr.isSquare,
    (hqr.wellPosed_iff ht).mpr (hr.mul_abs_lt hqr.upper.blockTriangular)]

theorem Solver.isNonSingular_of_place (ht : 0 ≤ t) (hqr : (routine.factor m).IsQR m n)
    (hqr' : (routine'.factor m).IsQR m n)
    (hplace : ∀ j < n, (routine.factor m).place j = (routine'.factor m).place j) :
    (Solver.relative routine' t rankRatio shown).isNonSingular m =
      (Solver.relative routine t rankRatio shown).isNonSingular m := by
  by_cases hA : IsUnit (m.toMatrix n n)
  · rw [Solver.isNonSingular_relative hqr.isSquare, Solver.isNonSingular_relative hqr'.isSquare]
    have hsame := hqr.abs_pivot_eq hqr' hplace hA
    refine congrArg Except.ok (Bool.eq_iff_iff.mpr ?_)
    simp only [hqr.wellPosed_iff ht, hqr'.wellPosed_iff ht, hsame]
  · rw [(Solver.rejects_of_not_isUnit ht hqr hA).isNonSingular,
      (Solver.rejects_of_not_isUnit ht hqr' hA).isNonSingular]

/-- **Where the backends agree.**  In floating-point arithmetic they agree, at every threshold,
about a matrix whose columns keep their order.  In exact arithmetic any two routines agree that
take the columns in one order.  In whatever order they take the columns, they both accept a matrix
that stretches evenly for the threshold, and both reject a matrix without an inverse. -/
theorem backends_agree :
    (∀ (threshold : Threshold) (m : Dense Float), Householder.KeepsOrder m →
      LinearSolver.isNonSingular ⟨.native, threshold⟩ (.dense m) =
        LinearSolver.isNonSingular ⟨.portable, threshold⟩ (.dense m)) ∧
    ∀ (routine routine' : Routine α) (t rankRatio : α) (shown : Threshold) (m : Dense α),
      0 ≤ t → (routine.factor m).IsQR m n → (routine'.factor m).IsQR m n →
        ((∀ j < n, (routine.factor m).place j = (routine'.factor m).place j) →
          (Solver.relative routine' t rankRatio shown).isNonSingular m =
            (Solver.relative routine t rankRatio shown).isNonSingular m) ∧
        (StretchesEvenly t (m.toMatrix n n) →
          (Solver.relative routine t rankRatio shown).isNonSingular m = .ok true ∧
            (Solver.relative routine' t rankRatio shown).isNonSingular m = .ok true) ∧
        (¬ IsUnit (m.toMatrix n n) →
          (Solver.relative routine t rankRatio shown).isNonSingular m = .ok false ∧
            (Solver.relative routine' t rankRatio shown).isNonSingular m = .ok false) := by
  refine ⟨fun threshold m => LinearSolver.isNonSingular_of_keepsOrder threshold, ?_⟩
  intro routine routine' t rankRatio shown m ht hqr hqr'
  refine ⟨Solver.isNonSingular_of_place ht hqr hqr', fun heven => ⟨?_, ?_⟩, fun hA => ⟨?_, ?_⟩⟩
  · exact Solver.isNonSingular_of_stretchesEvenly ht hqr heven
  · exact Solver.isNonSingular_of_stretchesEvenly ht hqr' heven
  · exact (Solver.rejects_of_not_isUnit ht hqr hA).isNonSingular
  · exact (Solver.rejects_of_not_isUnit ht hqr' hA).isNonSingular

end Verdicts

/-! ### Orthogonal columns -/

namespace Rotated

/-- Two orthogonal columns, the second one twice as long as the first. -/
def system : Dense ℚ := ⟨2, 2, [[3, -8], [4, 6]], rfl, by decide⟩

/-- Its factors with the columns as they are. -/
def kept : Factorization ℚ where
  q := Collinear.axes
  r := ⟨2, 2, [[5, 0], [0, 10]], rfl, by decide⟩
  order := none
  screening := .leading
  single := ⟨false, false⟩

/-- The same up to a sign, with the order of the columns recorded. -/
def flipped : Factorization ℚ where
  q := ⟨2, 2, [[-3 / 5, -4 / 5], [-4 / 5, 3 / 5]], rfl, by decide⟩
  r := ⟨2, 2, [[-5, 0], [0, 10]], rfl, by decide⟩
  order := some [0, 1]
  screening := .smallest
  single := ⟨false, false⟩

/-- Its factors if the longer column comes first. -/
def exchanged : Factorization ℚ where
  q := ⟨2, 2, [[-4 / 5, 3 / 5], [3 / 5, 4 / 5]], rfl, by decide⟩
  r := ⟨2, 2, [[10, 0], [0, 5]], rfl, by decide⟩
  order := some [1, 0]
  screening := .smallest
  single := ⟨false, false⟩

theorem isQR_kept : kept.IsQR system 2 := by decide +kernel

theorem isQR_flipped : flipped.IsQR system 2 := by decide +kernel

theorem isQR_exchanged : exchanged.IsQR system 2 := by decide +kernel

/-- The stretches are between five and ten. -/
theorem stretchesEvenly_system : StretchesEvenly (2 / 5) (system.toMatrix 2 2) := by
  have hentries : system.toMatrix 2 2 = !![3, -8; 4, 6] := by decide +kernel
  have hself : ∀ x : Fin 2 → ℚ, x ⬝ᵥ x = x 0 * x 0 + x 1 * x 1 := by
    intro x
    rw [dotProduct, Fin.sum_univ_two]
  have himage : ∀ x : Fin 2 → ℚ, system.toMatrix 2 2 *ᵥ x ⬝ᵥ system.toMatrix 2 2 *ᵥ x =
      25 * (x 0 * x 0) + 100 * (x 1 * x 1) := by
    intro x
    rw [hentries, hself]
    simp only [cons_mulVec, cons_val_zero, cons_val_one, dotProduct, Fin.sum_univ_two]
    ring
  intro x y hx hy
  have hpos : ∀ z : Fin 2 → ℚ, z ≠ 0 → 0 < z ⬝ᵥ z := fun z hz =>
    (Finset.sum_nonneg fun i _ => mul_self_nonneg (z i)).lt_of_ne'
      (mt dotProduct_self_eq_zero.mp hz)
  calc (2 / 5) ^ 2 * ((system.toMatrix 2 2 *ᵥ x ⬝ᵥ system.toMatrix 2 2 *ᵥ x) * (y ⬝ᵥ y))
      ≤ (2 / 5) ^ 2 * (100 * (x ⬝ᵥ x) * (y ⬝ᵥ y)) := by
        have hupper : system.toMatrix 2 2 *ᵥ x ⬝ᵥ system.toMatrix 2 2 *ᵥ x ≤ 100 * (x ⬝ᵥ x) := by
          rw [himage, hself]
          linarith [mul_self_nonneg (x 0)]
        have := (hpos y hy).le
        gcongr
    _ < 25 * (y ⬝ᵥ y) * (x ⬝ᵥ x) := by
        linarith [mul_pos (hpos x hx) (hpos y hy)]
    _ ≤ (system.toMatrix 2 2 *ᵥ y ⬝ᵥ system.toMatrix 2 2 *ᵥ y) * (x ⬝ᵥ x) := by
        have hlower : 25 * (y ⬝ᵥ y) ≤ system.toMatrix 2 2 *ᵥ y ⬝ᵥ system.toMatrix 2 2 *ᵥ y := by
          rw [himage, hself]
          linarith [mul_self_nonneg (y 1)]
        have := (hpos x hx).le
        gcongr

/-- A matrix with the longer column on the left. -/
def ordered : Dense Float := Dense.ofArray 2 2 [2, 1, 0, 1] rfl

/-- The backends agree about columns that keep their order, and orthogonal columns are accepted in
either order at a threshold below the ratio of their lengths. -/
theorem backends_agree_rotated :
    (Householder.KeepsOrder ordered ∧
      LinearSolver.isNonSingular ⟨.native, .real 0.75⟩ (.dense ordered) =
        LinearSolver.isNonSingular ⟨.portable, .real 0.75⟩ (.dense ordered)) ∧
    (Solver.relative (.always flipped) (2 / 5) (1 / 100) (.real 0.4)).isNonSingular system =
      (Solver.relative (.always kept) (2 / 5) (1 / 100) (.real 0.4)).isNonSingular system ∧
    ((Solver.relative (.always kept) (2 / 5) (1 / 100) (.real 0.4)).isNonSingular system =
        .ok true ∧
      (Solver.relative (.always exchanged) (2 / 5) (1 / 100) (.real 0.4)).isNonSingular system =
        .ok true) ∧
    (Solver.relative (.always Collinear.kept) 0 (1 / 100) (.real 0)).isNonSingular
        Collinear.system = .ok false ∧
      (Solver.relative (.always Collinear.exchanged) 0 (1 / 100) (.real 0)).isNonSingular
        Collinear.system = .ok false := by
  have hordered : Householder.KeepsOrder ordered := by decide +kernel
  obtain ⟨hfloat, hexact⟩ := backends_agree (α := ℚ) (n := 2)
  obtain ⟨hsame, -, -⟩ := hexact (.always kept) (.always flipped) (2 / 5) (1 / 100) (.real 0.4)
    system (by norm_num) isQR_kept isQR_flipped
  obtain ⟨-, heven, -⟩ := hexact (.always kept) (.always exchanged) (2 / 5) (1 / 100) (.real 0.4)
    system (by norm_num) isQR_kept isQR_exchanged
  obtain ⟨-, -, hreject⟩ := hexact (.always Collinear.kept) (.always Collinear.exchanged) 0
    (1 / 100) (.real 0) Collinear.system le_rfl Collinear.isQR_kept Collinear.isQR_exchanged
  have hsingular : ¬ IsUnit (Collinear.system.toMatrix 2 2) :=
    not_isUnit_iff_det_eq_zero.mpr (by rw [det_fin_two]; decide +kernel)
  exact ⟨⟨hordered, hfloat (.real 0.75) ordered hordered⟩, hsame (by decide),
    heven stretchesEvenly_system, hreject hsingular⟩

end Rotated

/-! ### Three matrices about which the backends disagree -/

namespace Disagreement

/-- A shear: the pivots are `1, 1` as the columns are, and `√2, 1 / √2` if the longer one comes
first. -/
def shear : Dense Float := Dense.ofArray 2 2 [1, 1, 0, 1] rfl

/-- A steeper shear. -/
def steep : Dense Float := Dense.ofArray 2 2 [1, 1000, 0, 1] rfl

/-- A matrix whose pivots are more even if the longest column comes first. -/
def uneven : Dense Float := Dense.ofArray 3 3 [-20, -20, 26, 16, -12, 0, 0, 9, 0] rfl

/-- **Neither backend is the stricter one.**  The native backend rejects matrices that the portable
one accepts, at the threshold that is the default as well, and it accepts one that the portable
backend rejects. -/
theorem backends_disagree :
    (LinearSolver.isNonSingular ⟨.portable, .real 0.75⟩ (.dense shear) = .ok true ∧
      LinearSolver.isNonSingular ⟨.native, .real 0.75⟩ (.dense shear) = .ok false) ∧
    (LinearSolver.isNonSingular ⟨.portable, .real Cutoff.default.val⟩ (.dense steep) = .ok true ∧
      LinearSolver.isNonSingular ⟨.native, .real Cutoff.default.val⟩ (.dense steep) =
        .ok false) ∧
    (LinearSolver.isNonSingular ⟨.portable, .real 0.3⟩ (.dense uneven) = .ok false ∧
      LinearSolver.isNonSingular ⟨.native, .real 0.3⟩ (.dense uneven) = .ok true) := by
  have hverdict := fun backend t (m : Dense Float) (h : m.isSquare = true) (accepted : Bool)
    (hpivots : wellPosed t (backend.routine.triangle m).diagonal = accepted) =>
      (LinearSolver.isNonSingular_real backend t h).trans (congrArg Except.ok hpivots)
  refine ⟨⟨?_, ?_⟩, ⟨?_, ?_⟩, ?_, ?_⟩
  · exact hverdict .portable 0.75 shear rfl true (by decide +kernel)
  · exact hverdict .native 0.75 shear rfl false (by decide +kernel)
  · exact hverdict .portable _ steep rfl true (by decide +kernel)
  · exact hverdict .native _ steep rfl false (by decide +kernel)
  · exact hverdict .portable 0.3 uneven rfl false (by decide +kernel)
  · exact hverdict .native 0.3 uneven rfl true (by decide +kernel)

end Disagreement

end LeastSquares

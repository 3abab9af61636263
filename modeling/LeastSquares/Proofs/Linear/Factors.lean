import LeastSquares.Proofs.Linear.Substitution
import Mathlib.LinearAlgebra.Matrix.NonsingularInverse

/-!
# The factors of a matrix over a field

`Factorization.IsQR` says what a factorization of a matrix is: an orthogonal factor and a
triangular one whose product is the matrix with its columns exchanged.

The solution `x` is put together from a `z` with `r z = qᵀ b`.  The product of the matrix with
`x` is a sum over the columns of the matrix.  When it is summed in the order of the columns of
`q r`, the entries that it meets are those of `z`, because entry `j` of `z` was put at the
place that column `j` came from (`IsQR.mulVec_inOrder`).  What is left is `q r z = q qᵀ b = b`.

The main results are `IsQR.apply_solution` and, because there is a solution for every
right-hand side, `IsQR.isUnit`.
-/

namespace LeastSquares

open Matrix

variable {α : Type*} [Field α]

/-- The routine that finds the same factors for every matrix. -/
def Routine.always [Finiteness α] (f : Factorization α) : Routine α :=
  ⟨fun _ => f, fun _ => f.r, fun _ => rfl⟩

namespace Factorization

variable [Finiteness α]

/-! ## Factors of a matrix -/

/-- The place, among the columns of the matrix, of column `j` of `q r`. -/
def place (f : Factorization α) (j : ℕ) : ℕ :=
  match f.order with
  | some order => order.getD j 0
  | none => j

/-- The factors of an `n × n` matrix: `q` is orthogonal, `r` is upper triangular, and the columns
of `q r` are those of the matrix in the order that is recorded, if they were exchanged. -/
structure IsQR (f : Factorization α) (m : Dense α) (n : ℕ) : Prop where
  rows : m.rows = n
  columns : m.columns = n
  q_rows : f.q.rows = n
  q_columns : f.q.columns = n
  orthogonal : (f.q.toMatrix n n)ᵀ * f.q.toMatrix n n = 1
  upper : f.r.IsUpper n
  order_perm : ∀ order, f.order = some order → order.Perm (List.range n)
  product : ∀ i j : Fin n, m.entry i (f.place j) = (f.q.toMatrix n n * f.r.toMatrix n n) i j

instance [DecidableEq α] (f : Factorization α) (m : Dense α) (n : ℕ) : Decidable (f.IsQR m n) :=
  decidable_of_iff
    ((m.rows = n ∧ m.columns = n ∧ f.q.rows = n ∧ f.q.columns = n) ∧
      (f.q.toMatrix n n)ᵀ * f.q.toMatrix n n = 1 ∧ f.r.IsUpper n ∧
      (∀ order ∈ f.order, order.Perm (List.range n)) ∧
      ∀ i j : Fin n, m.entry i (f.place j) = (f.q.toMatrix n n * f.r.toMatrix n n) i j)
    ⟨fun ⟨⟨hrows, hcolumns, hqrows, hqcolumns⟩, horthogonal, hupper, horder, hproduct⟩ =>
        ⟨hrows, hcolumns, hqrows, hqcolumns, horthogonal, hupper, horder, hproduct⟩,
      fun h => ⟨⟨h.rows, h.columns, h.q_rows, h.q_columns⟩, h.orthogonal, h.upper, h.order_perm,
        h.product⟩⟩

namespace IsQR

variable {f : Factorization α} {m : Dense α} {n : ℕ}

theorem isSquare (h : f.IsQR m n) : m.isSquare = true :=
  beq_iff_eq.mpr (h.rows.trans h.columns.symm)

/-! ## The exchange of columns -/

theorem length_order (h : f.IsQR m n) {order : List ℕ} (horder : f.order = some order) :
    order.length = n :=
  (h.order_perm order horder).length_eq.trans List.length_range

theorem nodup_order (h : f.IsQR m n) {order : List ℕ} (horder : f.order = some order) :
    order.Nodup :=
  (h.order_perm order horder).nodup_iff.mpr List.nodup_range

theorem order_get (h : f.IsQR m n) {order : List ℕ} (horder : f.order = some order) {j : ℕ}
    (hj : j < n) :
    ∃ hlength : j < order.length, f.place j = order[j] ∧ order[j] < order.length := by
  have hlength : j < order.length := by rw [h.length_order horder]; exact hj
  refine ⟨hlength, ?_, ?_⟩
  · rw [place, horder]
    exact List.getD_eq_getElem _ _ hlength
  · rw [h.length_order horder]
    exact List.mem_range.mp ((h.order_perm order horder).mem_iff.mp (List.getElem_mem hlength))

theorem place_lt (h : f.IsQR m n) {j : ℕ} (hj : j < n) : f.place j < n := by
  cases horder : f.order with
  | none =>
      rw [place, horder]
      exact hj
  | some order =>
      obtain ⟨hlength, hplace, hlt⟩ := h.order_get horder hj
      rwa [hplace, ← h.length_order horder]

theorem place_injective (h : f.IsQR m n) {i j : ℕ} (hi : i < n) (hj : j < n)
    (hplace : f.place i = f.place j) : i = j := by
  cases horder : f.order with
  | none =>
      simp only [place, horder] at hplace
      exact hplace
  | some order =>
      obtain ⟨hi', hplacei, hlti⟩ := h.order_get horder hi
      obtain ⟨hj', hplacej, hltj⟩ := h.order_get horder hj
      rw [hplacei, hplacej] at hplace
      exact (h.nodup_order horder).getElem_inj_iff.mp hplace

/-- A sum over the columns of the matrix can be taken in the order of the columns of `q r`. -/
theorem sum_place (h : f.IsQR m n) (g : ℕ → α) : ∑ j : Fin n, g (f.place j) = ∑ k : Fin n, g k := by
  have hinjective : Function.Injective fun j : Fin n => (⟨f.place j, h.place_lt j.isLt⟩ : Fin n) :=
    fun i j hij => Fin.ext (h.place_injective i.isLt j.isLt (congrArg Fin.val hij))
  exact (Finite.injective_iff_bijective.mp hinjective).sum_comp fun k : Fin n => g k

theorem length_inOrder (h : f.IsQR m n) {z : List α} (hz : z.length = n) :
    (f.inOrder z).length = n := by
  cases horder : f.order with
  | none => rwa [inOrder, horder]
  | some order =>
      rw [inOrder, horder, length_scatter]
      exact h.length_order horder

/-- Entry `j` is put at the place that column `j` came from. -/
theorem getD_inOrder (h : f.IsQR m n) (z : List α) {j : ℕ} (hj : j < n) :
    (f.inOrder z).getD (f.place j) 0 = z.getD j 0 := by
  cases horder : f.order with
  | none => rw [inOrder, place, horder]
  | some order =>
      obtain ⟨hlength, hplace, hlt⟩ := h.order_get horder hj
      rw [hplace, inOrder, horder, List.getD_eq_getElem?_getD,
        getElem?_scatter (h.nodup_order horder) z hlength hlt, Option.getD_some]

/-- The matrix maps what is put in order to what `q r` maps as it is. -/
theorem mulVec_inOrder (h : f.IsQR m n) (z : List α) :
    m.toMatrix n n *ᵥ tuple n (f.inOrder z) =
      f.q.toMatrix n n *ᵥ (f.r.toMatrix n n *ᵥ tuple n z) := by
  rw [mulVec_mulVec]
  funext i
  calc ∑ k : Fin n, m.entry i k * (f.inOrder z).getD k 0
      = ∑ j : Fin n, m.entry i (f.place j) * (f.inOrder z).getD (f.place j) 0 :=
        (h.sum_place fun k => m.entry i k * (f.inOrder z).getD k 0).symm
    _ = ∑ j : Fin n, (f.q.toMatrix n n * f.r.toMatrix n n) i j * z.getD j 0 := by
        refine Finset.sum_congr rfl fun j _ => ?_
        rw [h.product i j, h.getD_inOrder z j.isLt]

end IsQR

/-! ## The solution -/

/-- What a right-hand side with one column is answered if no zero is noticed. -/
def solution (f : Factorization α) (b : List α) : List α :=
  f.inOrder (solveUpper f.single f.r (f.q.transpose.apply b))

namespace IsQR

variable {f : Factorization α} {m : Dense α} {n : ℕ}

theorem length_transpose_apply (h : f.IsQR m n) (b : List α) :
    (f.q.transpose.apply b).length = n := by
  rw [Dense.length_apply]
  exact h.q_columns

theorem length_solution (h : f.IsQR m n) (b : List α) : (f.solution b).length = n := by
  refine h.length_inOrder ?_
  rw [solveUpper, Substitution.length_solveRows, List.length_zip, h.length_transpose_apply,
    Dense.staircase, List.length_mapIdx, f.r.length_entries, h.upper.rows, min_self]

/-- Without a zero pivot the solution solves. -/
theorem apply_solution (h : f.IsQR m n) (hpivots : ∀ i < n, f.r.entry i i ≠ 0) {b : List α}
    (hb : b.length = n) : m.apply (f.solution b) = b := by
  have hlength : (m.apply (f.solution b)).length = n := by rw [Dense.length_apply, h.rows]
  refine tuple_injective hlength hb ?_
  let z := solveUpper f.single f.r (f.q.transpose.apply b)
  have hz : f.r.apply z = f.q.transpose.apply b :=
    apply_solveUpper f.single h.upper hpivots (h.length_transpose_apply b)
  have htriangular : f.r.toMatrix n n *ᵥ tuple n z = (f.q.toMatrix n n)ᵀ *ᵥ tuple n b := by
    rw [← Dense.tuple_apply h.upper.rows h.upper.columns, hz,
      Dense.tuple_apply (k := n) h.q_columns h.q_rows,
      Dense.toMatrix_transpose h.q_rows h.q_columns]
  -- A square matrix with a left inverse has it as a right inverse too.
  have hcancel : f.q.toMatrix n n * (f.q.toMatrix n n)ᵀ = 1 := mul_eq_one_comm.mp h.orthogonal
  calc tuple n (m.apply (f.solution b))
      = m.toMatrix n n *ᵥ tuple n (f.inOrder z) := Dense.tuple_apply h.rows h.columns _
    _ = f.q.toMatrix n n *ᵥ (f.r.toMatrix n n *ᵥ tuple n z) := h.mulVec_inOrder z
    _ = f.q.toMatrix n n *ᵥ ((f.q.toMatrix n n)ᵀ *ᵥ tuple n b) := by rw [htriangular]
    _ = tuple n b := by rw [mulVec_mulVec, hcancel, one_mulVec]

/-- Without a zero pivot the matrix is invertible. -/
theorem isUnit (h : f.IsQR m n) (hpivots : ∀ i < n, f.r.entry i i ≠ 0) :
    IsUnit (m.toMatrix n n) := by
  rw [← mulVec_surjective_iff_isUnit]
  intro b
  refine ⟨tuple n (f.solution (List.ofFn b)), ?_⟩
  rw [← Dense.tuple_apply h.rows h.columns, h.apply_solution hpivots List.length_ofFn, tuple_ofFn]

/-- Vectors with the same image are equal. -/
theorem apply_injective (h : f.IsQR m n) (hpivots : ∀ i < n, f.r.entry i i ≠ 0) {x y : List α}
    (hx : x.length = n) (hy : y.length = n) (hxy : m.apply x = m.apply y) : x = y := by
  refine tuple_injective hx hy (mulVec_injective_iff_isUnit.mpr (h.isUnit hpivots) ?_)
  rw [← Dense.tuple_apply h.rows h.columns, hxy, Dense.tuple_apply h.rows h.columns]

end IsQR

end Factorization

end LeastSquares

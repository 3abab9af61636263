import LeastSquares.Kernel.Product
import Mathlib.Algebra.BigOperators.Fin
import Mathlib.Data.List.GetD
import Mathlib.Data.Matrix.Mul

/-!
# Lists of rows as matrices over a ring

The kernels compute with lists.  `tuple` reads a list as a tuple of a given length and
`Dense.toMatrix` a list of rows as a matrix, with zeros where a list is too short, and
the operations of the library become those of linear algebra: `dot` is the dot product,
`Dense.apply` the product of a matrix and a vector (`tuple_apply`), `Dense.transpose` the
transpose.

Nothing is lost on the way: lists of one length with equal tuples are equal
(`tuple_injective`), and so are matrices of one shape with equal entries
(`Dense.ext_entry`) or equal columns (`Dense.ext_column`).
-/

namespace LeastSquares

open Matrix

variable {α : Type*}

/-! ## Vectors -/

/-- A list as a tuple of a given length. -/
def tuple [Zero α] (n : ℕ) (v : List α) : Fin n → α := fun i => v.getD i 0

theorem tuple_injective [Zero α] {n : ℕ} {v w : List α} (hv : v.length = n) (hw : w.length = n)
    (h : tuple n v = tuple n w) : v = w := by
  refine List.ext_getElem (hv.trans hw.symm) fun i hi hi' => ?_
  have hentry := congrFun h ⟨i, hv ▸ hi⟩
  simpa only [tuple, List.getD_eq_getElem _ _ hi, List.getD_eq_getElem _ _ hi'] using hentry

theorem tuple_ofFn [Zero α] {n : ℕ} (x : Fin n → α) : tuple n (List.ofFn x) = x := by
  funext i
  rw [tuple, List.getD_eq_getElem _ _ (by simp), List.getElem_ofFn]

variable [NonUnitalNonAssocSemiring α]

@[simp] theorem dot_nil_left (w : List α) : dot [] w = 0 := by
  simp [dot]

@[simp] theorem dot_nil_right (v : List α) : dot v [] = 0 := by
  simp [dot]

@[simp] theorem dot_cons (x y : α) (v w : List α) : dot (x :: v) (y :: w) = x * y + dot v w := by
  simp [dot]

/-- Only the first factor has to have the full length: what the second one lacks counts as
zeros. -/
theorem dot_eq_dotProduct {n : ℕ} {v : List α} (hv : v.length = n) (w : List α) :
    dot v w = tuple n v ⬝ᵥ tuple n w := by
  induction n generalizing v w with
  | zero =>
      rw [List.length_eq_zero_iff.mp hv, dot_nil_left, dotProduct, Finset.univ_eq_empty,
        Finset.sum_empty]
  | succ n ih =>
      obtain ⟨x, v, rfl⟩ := List.exists_cons_of_length_eq_add_one hv
      rw [dotProduct, Fin.sum_univ_succ]
      cases w with
      | nil => simp [tuple]
      | cons y w =>
          rw [dot_cons, ih (Nat.succ.inj hv) w]
          rfl

/-- Leading zeros can be left out. -/
theorem dot_eq_dot_drop {k : ℕ} {v : List α} (h : ∀ j < k, v.getD j 0 = 0) (w : List α) :
    dot v w = dot (v.drop k) (w.drop k) := by
  induction k generalizing v w with
  | zero => rfl
  | succ k ih =>
      cases v with
      | nil => simp
      | cons x v =>
          cases w with
          | nil => simp
          | cons y w =>
              have hx : x = 0 := h 0 k.succ_pos
              rw [dot_cons, hx, zero_mul, zero_add, List.drop_succ_cons, List.drop_succ_cons]
              exact ih (fun j hj => h (j + 1) (Nat.succ_lt_succ hj)) w

/-! ## Matrices -/

namespace Dense

variable {m : Dense α} {n k : ℕ}

theorem entry_of_getElem? {i : ℕ} {row : List α} (h : m.entries[i]? = some row) (j : ℕ) :
    m.entry i j = row.getD j 0 := by
  rw [entry, get?, h, Option.bind_some, List.getD_eq_getElem?_getD]

/-- A list of rows as a matrix of a given shape. -/
def toMatrix (n k : ℕ) (m : Dense α) : Matrix (Fin n) (Fin k) α := Matrix.of fun i j => m.entry i j

@[simp] theorem toMatrix_apply (i : Fin n) (j : Fin k) : m.toMatrix n k i j = m.entry i j := rfl

theorem entry_ofFn {rows columns i j : ℕ} (f : ℕ → ℕ → α) (hi : i < rows) (hj : j < columns) :
    (ofFn rows columns f).entry i j = f i j := by
  rw [entry, get?_ofFn, if_pos ⟨hi, hj⟩, Option.getD_some]

theorem toMatrix_transpose (hrows : m.rows = n) (hcolumns : m.columns = k) :
    m.transpose.toMatrix k n = (m.toMatrix n k)ᵀ := by
  ext i j
  exact entry_ofFn _ (hcolumns ▸ i.isLt) (hrows ▸ j.isLt)

/-- The images of vectors under a matrix. -/
theorem tuple_apply (hrows : m.rows = n) (hcolumns : m.columns = k) (v : List α) :
    tuple n (m.apply v) = m.toMatrix n k *ᵥ tuple k v := by
  funext i
  have hi : (i : ℕ) < m.entries.length := by rw [m.length_entries, hrows]; exact i.isLt
  obtain ⟨row, hrow⟩ : ∃ row, m.entries[(i : ℕ)]? = some row :=
    ⟨_, List.getElem?_eq_getElem hi⟩
  have hlength : row.length = k := by
    rw [m.length_row row (List.mem_of_getElem? hrow), hcolumns]
  rw [tuple, List.getD_eq_getElem?_getD, getElem?_apply, hrow, Option.map_some, Option.getD_some,
    dot_eq_dotProduct hlength]
  refine congrArg (· ⬝ᵥ tuple k v) (funext fun j => ?_)
  rw [toMatrix_apply, entry_of_getElem? hrow]
  rfl

omit [NonUnitalNonAssocSemiring α] in
theorem length_column {j : ℕ} (hj : j < m.columns) : (m.column j).length = m.rows := by
  have hall : ∀ row ∈ m.entries, (row[j]?).isSome = true := by
    intro row hrow
    rw [← m.length_row row hrow] at hj
    rw [List.getElem?_eq_getElem hj, Option.isSome_some]
  rw [column, List.length_filterMap_eq_countP, List.countP_eq_length.mpr hall, m.length_entries]

theorem column_eq_map {j : ℕ} (hj : j < m.columns) :
    m.column j = m.entries.map fun row => row.getD j 0 := by
  rw [column, ← List.filterMap_eq_map]
  refine List.filterMap_congr fun row hrow => ?_
  have hj' : j < row.length := by rw [m.length_row row hrow]; exact hj
  rw [Function.comp_apply, List.getD_eq_getElem _ _ hj', List.getElem?_eq_getElem hj']

theorem getD_column {i j : ℕ} (hi : i < m.rows) (hj : j < m.columns) :
    (m.column j).getD i 0 = m.entry i j := by
  have hi' : i < m.entries.length := by rw [m.length_entries]; exact hi
  rw [column_eq_map hj, entry_of_getElem? (List.getElem?_eq_getElem hi'),
    List.getD_eq_getElem _ _ (by simpa), List.getElem_map]

omit [NonUnitalNonAssocSemiring α] in
/-- A matrix is known by its shape and what is in it. -/
theorem ext_get? {a b : Dense α} (hrows : a.rows = b.rows) (hcolumns : a.columns = b.columns)
    (h : ∀ i < a.rows, ∀ j < a.columns, a.get? i j = b.get? i j) : a = b := by
  refine Dense.ext hrows hcolumns ?_
  refine List.ext_getElem (by rw [a.length_entries, b.length_entries, hrows]) fun i hi hi' => ?_
  have hlength := a.length_row _ (List.getElem_mem hi)
  have hlength' := b.length_row _ (List.getElem_mem hi')
  refine List.ext_getElem (by omega) fun j hj hj' => ?_
  have hentry := h i (a.length_entries ▸ hi) j (hlength ▸ hj)
  simpa [get?, hi, hi', hj, hj'] using hentry

/-- Matrices of one shape with equal entries are equal. -/
theorem ext_entry {a b : Dense α} (hrows : a.rows = b.rows) (hcolumns : a.columns = b.columns)
    (h : ∀ i < a.rows, ∀ j < a.columns, a.entry i j = b.entry i j) : a = b := by
  refine ext_get? hrows hcolumns fun i hi j hj => ?_
  obtain ⟨x, hx⟩ := Option.isSome_iff_exists.mp (a.get?_isSome hi hj)
  obtain ⟨y, hy⟩ := Option.isSome_iff_exists.mp (b.get?_isSome (hrows ▸ hi) (hcolumns ▸ hj))
  have hentry := h i hi j hj
  rw [entry, entry, hx, hy, Option.getD_some, Option.getD_some] at hentry
  rw [hx, hy, hentry]

/-- Matrices of one shape with equal columns are equal. -/
theorem ext_column {a b : Dense α} (hrows : a.rows = b.rows) (hcolumns : a.columns = b.columns)
    (h : ∀ j < a.columns, a.column j = b.column j) : a = b :=
  ext_entry hrows hcolumns fun i hi j hj => by
    rw [← getD_column hi hj, h j hj, getD_column (hrows ▸ hi) (hcolumns ▸ hj)]

/-- The columns of a matrix that was made of columns of the right length. -/
theorem column_ofColumns {rows : ℕ} {columns : List (List α)}
    (h : ∀ column ∈ columns, column.length = rows) {j : ℕ} (hj : j < columns.length) :
    (ofColumns rows columns).column j = columns[j] := by
  have hlength : ((ofColumns rows columns).column j).length = rows := length_column hj
  refine List.ext_getElem (hlength.trans (h _ (List.getElem_mem hj)).symm) fun i hi hi' => ?_
  have hi'' : i < rows := hlength ▸ hi
  rw [← List.getD_eq_getElem _ 0 hi, getD_column hi'' hj, ofColumns, entry_ofFn _ hi'' hj,
    List.getD_eq_getElem _ _ hj, List.getD_eq_getElem _ _ hi']

end Dense

end LeastSquares

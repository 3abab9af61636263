import LeastSquares.Proofs.Linear.ToMatrix
import LeastSquares.Solver.Factorization
import Mathlib.Algebra.Field.Basic

/-!
# Back substitution over a field

Over a field it makes no difference in which way a row of a triangular system is solved for
its unknown (`Substitution.solveRows_eq`).

The rows are solved from the last one up, and row `i` is known from its pivot on only.  What
the recursion keeps true is `Substitution.SolvesRows`: each row solves against what is left of
the unknowns at its own place.  For an upper triangular matrix the entries that were left out
are zeros, so the whole rows solve as well.

The main result is `apply_solveUpper`.
-/

namespace LeastSquares

variable {α : Type*} [Field α]

namespace Substitution

variable (s : Substitution)

theorem foldr_sub (products : List α) (b : α) :
    products.foldr (fun product rest => rest - product) b = b - products.sum := by
  induction products with
  | nil => rw [List.foldr_nil, List.sum_nil, sub_zero]
  | cons product products ih => rw [List.foldr_cons, ih, List.sum_cons, sub_sub, add_comm]

theorem reduce_eq (b : α) (row xs : List α) : s.reduce b row xs = b - dot row xs := by
  unfold reduce
  split
  · rfl
  · exact foldr_sub _ b

theorem quotient_eq (rest pivot : α) : s.quotient rest pivot = rest / pivot := by
  unfold quotient
  split
  · exact mul_one_div rest pivot
  · rfl

/-- All substitutions find the same unknowns. -/
theorem solveRows_eq (s' : Substitution) (lines : List (List α × α)) :
    s.solveRows lines = s'.solveRows lines := by
  induction lines with
  | nil => rfl
  | cons line lines ih =>
      simp only [solveRows, ih, reduce_eq, quotient_eq]

/-- Each row, from its pivot on, against the unknowns from its own place on. -/
def SolvesRows : List (List α × α) → List α → Prop
  | [], _ => True
  | (row, b) :: more, xs => dot row xs = b ∧ SolvesRows more xs.tail

theorem solvesRows_solveRows {lines : List (List α × α)}
    (hpivots : ∀ line ∈ lines, line.1.headD 0 ≠ 0) : SolvesRows lines (s.solveRows lines) := by
  induction lines with
  | nil => trivial
  | cons line lines ih =>
      obtain ⟨row, b⟩ := line
      have hpivot : row.headD 0 ≠ 0 := hpivots (row, b) List.mem_cons_self
      refine ⟨?_, ih fun line hline => hpivots line (List.mem_cons_of_mem _ hline)⟩
      cases row with
      | nil => exact absurd rfl hpivot
      | cons pivot row =>
          rw [List.headD_cons] at hpivot
          calc dot (pivot :: row) (s.solveRows ((pivot :: row, b) :: lines))
              = pivot * ((b - dot row (s.solveRows lines)) / pivot)
                + dot row (s.solveRows lines) := by
                rw [solveRows, dot_cons, quotient_eq, reduce_eq, List.headD_cons, List.tail_cons]
            _ = b := by rw [mul_div_cancel₀ _ hpivot, sub_add_cancel]

theorem SolvesRows.dot_drop {lines : List (List α × α)} {xs : List α} (h : SolvesRows lines xs)
    {i : ℕ} {row : List α} {b : α} (hline : lines[i]? = some (row, b)) :
    dot row (xs.drop i) = b := by
  induction lines generalizing xs i with
  | nil => simp at hline
  | cons line lines ih =>
      cases i with
      | zero =>
          obtain rfl : line = (row, b) := Option.some.inj hline
          exact h.1
      | succ i =>
          have hrest := ih h.2 hline
          rwa [List.drop_tail] at hrest

end Substitution

/-! ## Triangular matrices -/

/-- An `n × n` matrix with zeros below its diagonal. -/
structure Dense.IsUpper (r : Dense α) (n : ℕ) : Prop where
  rows : r.rows = n
  columns : r.columns = n
  entry_eq_zero : ∀ i < n, ∀ j < i, r.entry i j = 0

instance [DecidableEq α] (r : Dense α) (n : ℕ) : Decidable (r.IsUpper n) :=
  decidable_of_iff (r.rows = n ∧ r.columns = n ∧ ∀ i < n, ∀ j < i, r.entry i j = 0)
    ⟨fun ⟨hrows, hcolumns, hzero⟩ => ⟨hrows, hcolumns, hzero⟩,
      fun h => ⟨h.rows, h.columns, h.entry_eq_zero⟩⟩

variable {r : Dense α} {n : ℕ}

omit [Field α] in
theorem Dense.staircase_getElem? (r : Dense α) (i : ℕ) :
    r.staircase[i]? = r.entries[i]?.map (List.drop i) :=
  List.getElem?_mapIdx

/-- The lines of a triangular system: row `i` from its pivot on, and its right-hand side. -/
theorem Dense.IsUpper.getElem?_lines (hr : r.IsUpper n) {b : List α} (hb : b.length = n) {i : ℕ}
    (hi : i < n) :
    ∃ row x, r.entries[i]? = some row ∧ b[i]? = some x ∧
      (r.staircase.zip b)[i]? = some (row.drop i, x) := by
  have hrow : i < r.entries.length := by rw [r.length_entries, hr.rows]; exact hi
  have hx : i < b.length := by rw [hb]; exact hi
  refine ⟨_, _, List.getElem?_eq_getElem hrow, List.getElem?_eq_getElem hx, ?_⟩
  rw [List.getElem?_zip_eq_some, r.staircase_getElem?, List.getElem?_eq_getElem hrow,
    List.getElem?_eq_getElem hx]
  exact ⟨rfl, rfl⟩

/-- **Back substitution solves.**  An upper triangular matrix without a zero on its diagonal
maps what back substitution finds to the right-hand side. -/
theorem apply_solveUpper (s : Substitution) (hr : r.IsUpper n)
    (hdiagonal : ∀ i < n, r.entry i i ≠ 0) {b : List α} (hb : b.length = n) :
    r.apply (solveUpper s r b) = b := by
  have hsolves : Substitution.SolvesRows (r.staircase.zip b) (solveUpper s r b) := by
    refine s.solvesRows_solveRows fun line hline => ?_
    obtain ⟨i, hi⟩ := List.mem_iff_getElem?.mp hline
    have hin : i < n := by
      have hlength := (List.getElem?_eq_some_iff.mp hi).1
      rw [List.length_zip, hb] at hlength
      exact lt_of_lt_of_le hlength (min_le_right _ _)
    obtain ⟨row, x, hrow, -, hzip⟩ := hr.getElem?_lines hb hin
    obtain rfl : (row.drop i, x) = line := Option.some.inj (hzip.symm.trans hi)
    have hentry := hdiagonal i hin
    rw [Dense.entry_of_getElem? hrow] at hentry
    rwa [List.headD_eq_head?_getD, List.head?_drop, ← List.getD_eq_getElem?_getD]
  refine List.ext_getElem? fun i => ?_
  by_cases hi : i < n
  · obtain ⟨row, x, hrow, hx, hzip⟩ := hr.getElem?_lines hb hi
    -- What the row lacks before its pivot are products with zeros.
    have hzeros : ∀ j < i, row.getD j 0 = 0 := by
      intro j hj
      rw [← Dense.entry_of_getElem? hrow]
      exact hr.entry_eq_zero i hi j hj
    rw [Dense.getElem?_apply, hrow, Option.map_some, hx, dot_eq_dot_drop hzeros]
    exact congrArg some (hsolves.dot_drop hzip)
  · rw [List.getElem?_eq_none (by rw [Dense.length_apply, hr.rows]; exact not_lt.mp hi),
      List.getElem?_eq_none (by rw [hb]; exact not_lt.mp hi)]

end LeastSquares

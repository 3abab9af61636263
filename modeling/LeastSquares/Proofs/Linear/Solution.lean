import LeastSquares.Proofs.Linear.Factors
import LeastSquares.Proofs.Linear.Verdict
import LeastSquares.Solver.Basic

/-!
# Solving in exact arithmetic

What is assumed of a routine is that it finds factors of the matrix (`Factorization.IsQR`).
If the pivots are accepted none of them is zero, so nothing is noticed when they are screened,
and the factorization `Solves`: every right-hand side has an answer, which is its only
solution, and the columns of a matrix are answered one by one.

Solutions without a rival do not depend on how they were found.  So any two accepted
factorizations of one matrix give the same answers, whatever columns they exchange and
whatever their thresholds.  The main result is `solves_of_accepted`.
-/

namespace LeastSquares

variable {α : Type*} [Field α]

/-! ## Solutions -/

/-- A vector that the matrix maps to a right-hand side. -/
structure Dense.Solves (m : Dense α) (x b : List α) : Prop where
  length : x.length = m.columns
  apply_eq : m.apply x = b

/-- A matrix whose columns the matrix maps to those of a right-hand side. -/
structure Dense.SolvesAll (m x b : Dense α) : Prop where
  rows : x.rows = m.columns
  columns : x.columns = b.columns
  apply_column : ∀ j < b.columns, m.apply (x.column j) = b.column j

/-- Reading members that all can be read. -/
theorem readEach_eq_ok {β γ : Type*} {f : β → Except Failure γ} {g : β → γ} {l : List β}
    (h : ∀ x ∈ l, f x = .ok (g x)) : (readEach f l).map Subtype.val = .ok (l.map g) := by
  induction l with
  | nil => rfl
  | cons x rest ih =>
      have hrest := ih fun y hy => h y (List.mem_cons_of_mem _ hy)
      rw [readEach, h x List.mem_cons_self]
      cases hread : readEach f rest with
      | error failure =>
          rw [hread] at hrest
          cases hrest
      | ok ys =>
          rw [hread] at hrest
          rw [List.map_cons, ← Except.ok.inj hrest]
          rfl

namespace Factorization

variable [Finiteness α] [BEq α]

/-! ## Answers -/

section Answers

variable {f : Factorization α}

theorem solve_vector (hstops : f.stops = false) (b : List α) :
    f.solve (.vector b) = .ok (.vector (f.solution b)) := by
  rw [solve, solveVector, solveFactors, hstops]
  rfl

theorem solveFactors_eq (hstops : f.stops = false) (s : Substitution) (b : List α) :
    f.solveFactors s b = .ok (solveUpper f.single f.r (f.q.transpose.apply b)) := by
  rw [solveFactors, hstops, solveUpper, solveUpper, s.solveRows_eq f.single]
  rfl

theorem solve_matrix (hstops : f.stops = false) (b : Dense α) :
    f.solve (.matrix b) =
      .ok (.matrix (Dense.ofColumns f.r.columns (b.columnList.map f.solution))) := by
  have hread := readEach_eq_ok (l := b.columnList)
    fun column _ => solveFactors_eq hstops (f.substitution b.columns) column
  rw [solve, solveMatrix, solveEach, hstops, Bool.and_false, if_neg Bool.false_ne_true, hread]
  simp only [Except.map, List.map_map]
  rfl

end Answers

/-- What a factorization that solves for a matrix does.  Every right-hand side of the right
length has an answer, which is a solution, and no other solution exists.  The columns of a
matrix are answered as they are by themselves. -/
structure Solves (f : Factorization α) (m : Dense α) : Prop where
  vector : ∀ b : List α, b.length = m.rows →
    ∃ x, f.solve (.vector b) = .ok (.vector x) ∧ m.Solves x b ∧ ∀ y, m.Solves y b → y = x
  matrix : ∀ b : Dense α, b.rows = m.rows →
    ∃ x, f.solve (.matrix b) = .ok (.matrix x) ∧ m.SolvesAll x b ∧
      (∀ y, m.SolvesAll y b → y = x) ∧
      ∀ j < b.columns, f.solve (.vector (b.column j)) = .ok (.vector (x.column j))

variable {f f' : Factorization α} {m : Dense α}

/-- Factorizations that solve for one matrix give the same answers. -/
theorem Solves.solve_vector_eq (h : f.Solves m) (h' : f'.Solves m) {b : List α}
    (hb : b.length = m.rows) : f'.solve (.vector b) = f.solve (.vector b) := by
  -- The answer of the one is a solution, and the answer of the other has no rival.
  obtain ⟨x, hx, -, hunique⟩ := h.vector b hb
  obtain ⟨x', hx', hsolves', -⟩ := h'.vector b hb
  rw [hx, hx', hunique x' hsolves']

theorem Solves.solve_matrix_eq (h : f.Solves m) (h' : f'.Solves m) {b : Dense α}
    (hb : b.rows = m.rows) : f'.solve (.matrix b) = f.solve (.matrix b) := by
  obtain ⟨x, hx, -, hunique, -⟩ := h.matrix b hb
  obtain ⟨x', hx', hsolves', -⟩ := h'.matrix b hb
  rw [hx, hx', hunique x' hsolves']

namespace IsQR

variable {n : ℕ}

omit [BEq α] in
/-- Column `j` of the answer is the solution for column `j`. -/
theorem column_answer (h : f.IsQR m n) {b : Dense α} {j : ℕ} (hj : j < b.columns) :
    (Dense.ofColumns f.r.columns (b.columnList.map f.solution)).column j =
      f.solution (b.column j) := by
  have hlength : ∀ column ∈ b.columnList.map f.solution, column.length = f.r.columns := by
    intro column hcolumn
    obtain ⟨c, -, rfl⟩ := List.mem_map.mp hcolumn
    rw [h.length_solution, h.upper.columns]
  have hj' : j < (b.columnList.map f.solution).length := by
    rwa [List.length_map, b.length_columnList]
  rw [Dense.column_ofColumns hlength hj', List.getElem_map]
  exact congrArg f.solution (by simp [Dense.columnList])

/-- Factors without a zero on the diagonal that pass the screening solve. -/
theorem solves (h : f.IsQR m n) (hpivots : ∀ i < n, f.r.entry i i ≠ 0)
    (hstops : f.stops = false) : f.Solves m where
  vector b hb := by
    have happly := h.apply_solution hpivots (hb.trans h.rows)
    refine ⟨f.solution b, solve_vector hstops b, ⟨?_, happly⟩, ?_⟩
    · rw [h.length_solution, h.columns]
    · intro y hy
      exact h.apply_injective hpivots (hy.length.trans h.columns) (h.length_solution b)
        (hy.apply_eq.trans happly.symm)
  matrix b hb := by
    have hcolumn : ∀ j < b.columns, (b.column j).length = n := by
      intro j hj
      rw [Dense.length_column hj, hb, h.rows]
    refine ⟨_, solve_matrix hstops b, ⟨?_, ?_, ?_⟩, ?_, ?_⟩
    · exact h.upper.columns.trans h.columns.symm
    · show (b.columnList.map f.solution).length = b.columns
      rw [List.length_map, b.length_columnList]
    · intro j hj
      rw [h.column_answer hj, h.apply_solution hpivots (hcolumn j hj)]
    · intro y hy
      refine Dense.ext_column ?_ ?_ fun j hj => ?_
      · exact hy.rows.trans (h.columns.trans h.upper.columns.symm)
      · show y.columns = (b.columnList.map f.solution).length
        rw [List.length_map, b.length_columnList, hy.columns]
      · have hjb : j < b.columns := hy.columns ▸ hj
        have hy' : (y.column j).length = n := by rw [Dense.length_column hj, hy.rows, h.columns]
        rw [h.column_answer hjb]
        refine h.apply_injective hpivots hy' (h.length_solution _) ?_
        rw [hy.apply_column j hjb, h.apply_solution hpivots (hcolumn j hjb)]
    · intro j hj
      rw [h.column_answer hj]
      exact solve_vector hstops (b.column j)

end IsQR

end Factorization

/-! ## Accepted matrices -/

section Accepted

variable [Finiteness α]

omit [Field α] in
/-- A matrix is factorized if it is square and the judgement of its pivots is favourable. -/
theorem Solver.factorize_eq_ok_iff (s : Solver α) {m : Dense α} {f : Factorization α} :
    s.factorize m = .ok f ↔
      m.isSquare = true ∧ s.judge (s.routine.factor m).r.diagonal = .ok true ∧
        s.routine.factor m = f := by
  unfold Solver.factorize
  by_cases hsquare : m.isSquare = true
  · rw [if_pos hsquare]
    cases hjudge : s.judge (s.routine.factor m).r.diagonal with
    | error failure => simp [hjudge]
    | ok accepted => cases accepted <;> simp [hsquare, hjudge]
  · simp [hsquare]

variable [LinearOrder α] [IsStrictOrderedRing α] [Exact α]
  {m : Dense α} {routine : Routine α} {t rankRatio : α} {shown : Threshold} {f : Factorization α}

/-- An accepted factorization solves. -/
theorem Solver.solves_of_factorize (ht : 0 ≤ t) (hqr : (routine.factor m).IsQR m m.rows)
    (hf : (Solver.relative routine t rankRatio shown).factorize m = .ok f) : f.Solves m := by
  obtain ⟨-, hjudge, rfl⟩ := (Solver.factorize_eq_ok_iff _).mp hf
  have haccepted : wellPosed t (routine.factor m).r.diagonal = true := Except.ok.inj hjudge
  refine hqr.solves (fun i hi => ?_) (Screening.not_stops_of_wellPosed _ ht haccepted)
  refine ne_zero_of_wellPosed ht haccepted _ ?_
  exact (Dense.mem_diagonal hqr.upper.rows hqr.upper.columns).mpr ⟨i, hi, rfl⟩

/-- **Accepted matrices are solved for.**  Whatever factors a routine finds and whatever columns
it exchanges, if the threshold is not negative and the pivots are accepted, every right-hand
side is answered with its only solution, column by column, and with the same one as by any
other routine and threshold that accept the matrix. -/
theorem solves_of_accepted (ht : 0 ≤ t) (hqr : (routine.factor m).IsQR m m.rows)
    (hf : (Solver.relative routine t rankRatio shown).factorize m = .ok f) :
    f.Solves m ∧
      ∀ (routine' : Routine α) (t' rankRatio' : α) (shown' : Threshold) (f' : Factorization α),
        0 ≤ t' → (routine'.factor m).IsQR m m.rows →
        (Solver.relative routine' t' rankRatio' shown').factorize m = .ok f' →
        (∀ b : List α, b.length = m.rows → f'.solve (.vector b) = f.solve (.vector b)) ∧
          ∀ b : Dense α, b.rows = m.rows → f'.solve (.matrix b) = f.solve (.matrix b) := by
  have hsolves : f.Solves m := Solver.solves_of_factorize ht hqr hf
  refine ⟨hsolves, ?_⟩
  intro routine' t' rankRatio' shown' f' ht' hqr' hf'
  have hsolves' : f'.Solves m := Solver.solves_of_factorize ht' hqr' hf'
  exact ⟨fun b hb => hsolves.solve_vector_eq hsolves' hb,
    fun b hb => hsolves.solve_matrix_eq hsolves' hb⟩

end Accepted

/-! ### Three columns in a cycle -/

namespace Cycle

/-- A matrix whose columns are exchanged in a cycle. -/
def system : Dense ℚ := ⟨3, 3, [[0, 4, 1], [0, 0, 2], [1, 0, 0]], rfl, by decide⟩

/-- Its factors if the longest column that is left comes first. -/
def exchanged : Factorization ℚ where
  q := Dense.identity 3
  r := ⟨3, 3, [[4, 1, 0], [0, 2, 0], [0, 0, 1]], rfl, by decide⟩
  order := some [1, 2, 0]
  screening := .smallest
  single := ⟨false, false⟩

/-- Its factors with the columns as they are. -/
def kept : Factorization ℚ where
  q := ⟨3, 3, [[0, -1, 0], [0, 0, 1], [-1, 0, 0]], rfl, by decide⟩
  r := ⟨3, 3, [[-1, 0, 0], [0, -4, -1], [0, 0, 2]], rfl, by decide⟩
  order := none
  screening := .leading
  single := ⟨false, false⟩

theorem isQR_exchanged : exchanged.IsQR system 3 := by decide +kernel

theorem isQR_kept : kept.IsQR system 3 := by decide +kernel

/-- The solver that finds these factors. -/
def solver (f : Factorization ℚ) : Solver ℚ :=
  Solver.relative (.always f) (1 / 10) (1 / 100) (.real Cutoff.default.val)

theorem factorize_exchanged : (solver exchanged).factorize system = .ok exchanged :=
  (Solver.factorize_eq_ok_iff _).mpr ⟨rfl, congrArg Except.ok (by decide +kernel), rfl⟩

theorem factorize_kept : (solver kept).factorize system = .ok kept :=
  (Solver.factorize_eq_ok_iff _).mpr ⟨rfl, congrArg Except.ok (by decide +kernel), rfl⟩

/-- The exchange is undone in the right direction: a cycle of three is not its own inverse. -/
theorem solves_exchanged_and_kept :
    exchanged.Solves system ∧ kept.solve (.vector [11, 6, 1]) = .ok (.vector [1, 2, 3]) ∧
      exchanged.solve (.vector [11, 6, 1]) = .ok (.vector [1, 2, 3]) := by
  have hstops : kept.stops = false := by decide +kernel
  have hsolution : kept.solution [11, 6, 1] = [1, 2, 3] := by decide +kernel
  have hkept : kept.solve (.vector [11, 6, 1]) = .ok (.vector [1, 2, 3]) := by
    rw [Factorization.solve_vector hstops, hsolution]
  obtain ⟨hsolves, hagree⟩ := solves_of_accepted (by norm_num) isQR_exchanged factorize_exchanged
  obtain ⟨hvector, -⟩ := hagree (.always kept) (1 / 10) (1 / 100) _ kept (by norm_num) isQR_kept
    factorize_kept
  refine ⟨hsolves, hkept, ?_⟩
  rw [← hvector [11, 6, 1] rfl, hkept]

end Cycle

end LeastSquares

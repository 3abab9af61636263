import LeastSquares.Solver.Basic

/-!
# The two answers about a matrix

A solver can be asked whether a matrix is non-singular, and it can be asked for the factors of
the matrix.  The first answer is found without the orthogonal factor, so the two questions
take different ways through the elimination.  They meet at the pivots of the triangular factor,
which is the same on both ways, and so the second answer is a function of the first
(`Solver.factorize_eq`): it adds the factors, or it makes a refusal of a negative verdict.

What is left is to tell the refusal from everything that can go wrong before.  A value that is
no matrix is reported as such (`MatrixValue.kind?_of_access`), a matrix that is not square and
a threshold that is no floating-point number are not reported under the library's own name.

Nothing of this depends on how the factors are found, so it is shown of any routine
(`Threshold.sameAnswer`).  The main result is `LinearSolver.isNonSingular_iff_factorize`.
-/

namespace LeastSquares

universe u

/-- The kind of error that a failure is reported as, if it is raised under the library's own
name. -/
def Failure.kind? (failure : Failure) : Option ReportKind := failure.report?.map Report.kind

/-- A value that is no matrix is reported as one of the wrong layout. -/
theorem MatrixValue.kind?_of_access {m : MatrixValue} {failure : Failure}
    (h : m.access = .error failure) : failure.kind? = some .layout := by
  have hlayout : ∃ got, failure = .layout expectedStorage got := by
    cases m with
    | dense matrix => cases h
    | other d =>
        cases h
        exact ⟨_, rfl⟩
    | buffer b =>
        have hrefusal : failure = b.refusal := by
          simp only [access, Buffer.toDense] at h
          split at h
          · split at h
            · cases h
            · exact (Except.error.inj h).symm
          · exact (Except.error.inj h).symm
        exact ⟨_, hrefusal⟩
  obtain ⟨got, rfl⟩ := hlayout
  rfl

/-! ## One verdict -/

section Solver

variable {α : Type u} [Finiteness α]

/-- The factors are the answer to a favourable verdict, and a refusal to an unfavourable one. -/
theorem Solver.factorize_eq (s : Solver α) (m : Dense α) :
    s.factorize m = (s.isNonSingular m).bind fun accepted =>
      if accepted then .ok (s.routine.factor m)
      else .error (s.refusal m.rows (s.routine.factor m).r.diagonal) := by
  unfold Solver.factorize Solver.isNonSingular
  by_cases hsquare : m.isSquare = true
  · rw [if_pos hsquare, if_pos hsquare, s.routine.triangle_eq]
    cases hjudge : s.judge (s.routine.factor m).r.diagonal with
    | error failure =>
        simp only [hjudge]
        rfl
    | ok accepted =>
        cases accepted with
        | false =>
            simp only [hjudge]
            rfl
        | true =>
            simp only [hjudge]
            rfl
  · rw [if_neg hsquare, if_neg hsquare]
    rfl

theorem Solver.isNonSingular_relative [Zero α] [Neg α] [Mul α] [LT α] [DecidableLT α]
    {routine : Routine α} {t rankRatio : α} {shown : Threshold} {m : Dense α}
    (hsquare : m.isSquare = true) :
    (Solver.relative routine t rankRatio shown).isNonSingular m =
      .ok (wellPosed t (routine.factor m).r.diagonal) := by
  rw [Solver.isNonSingular, if_pos hsquare, Routine.triangle_eq]
  rfl

/-- The rank that is reported is that of the factor that was rejected. -/
theorem Solver.factorize_of_not_wellPosed [Zero α] [Neg α] [Mul α] [LT α] [DecidableLT α]
    {routine : Routine α} {t ratio : α} {shown : Threshold} {m : Dense α}
    (hsquare : m.isSquare = true)
    (hrejected : wellPosed t (routine.factor m).r.diagonal = false) :
    (Solver.relative routine t ratio shown).factorize m =
      .error (.singular m.rows shown (apparentRank ratio (routine.factor m).r.diagonal)) := by
  rw [Solver.factorize_eq, Solver.isNonSingular_relative hsquare, hrejected]
  rfl

/-- A matrix that counts as singular: the verdict is unfavourable and the factors are refused. -/
structure Solver.Rejects (s : Solver α) (m : Dense α) : Prop where
  isNonSingular : s.isNonSingular m = .ok false
  factorize : ∃ size threshold rank, s.factorize m = .error (.singular size threshold rank)

theorem Solver.rejects_of_not_wellPosed [Zero α] [Neg α] [Mul α] [LT α] [DecidableLT α]
    {routine : Routine α} {t ratio : α} {shown : Threshold} {m : Dense α}
    (hsquare : m.isSquare = true)
    (hrejected : wellPosed t (routine.factor m).r.diagonal = false) :
    (Solver.relative routine t ratio shown).Rejects m where
  isNonSingular := by rw [Solver.isNonSingular_relative hsquare, hrejected]
  factorize := ⟨_, _, _, Solver.factorize_of_not_wellPosed hsquare hrejected⟩

/-- The answers to the two questions about a matrix agree.  It is non-singular exactly if it has
factors, and singular exactly if they are refused with the report of a singular matrix.  Any other
failure is the answer to both questions. -/
structure SameAnswer (verdict : Except Failure Bool)
    (factors : Except Failure (Factorization α)) : Prop where
  accepted : verdict = .ok true ↔ ∃ f, factors = .ok f
  rejected : verdict = .ok false ↔
    ∃ failure, factors = .error failure ∧ failure.kind? = some .singular
  failed : ∀ failure, verdict = .error failure ↔
    factors = .error failure ∧ failure.kind? ≠ some .singular

namespace SameAnswer

theorem ok (accepted : Bool) (f : Factorization α) {refusal : Failure}
    (h : refusal.kind? = some .singular) :
    SameAnswer (.ok accepted) (if accepted then .ok f else .error refusal) := by
  cases accepted with
  | true => constructor <;> simp
  | false =>
      refine ⟨by simp, by simp [h], fun failure => iff_of_false (by simp) ?_⟩
      rintro ⟨hsame, hother⟩
      exact hother (Except.error.inj hsame ▸ h)

theorem error {failure : Failure} (h : failure.kind? ≠ some .singular) :
    SameAnswer (α := α) (.error failure) (.error failure) := by
  refine ⟨by simp, by simp [h], fun other => ?_⟩
  rw [Except.error.injEq, Except.error.injEq]
  constructor
  · rintro rfl
    exact ⟨rfl, h⟩
  · rintro ⟨hsame, -⟩
    exact hsame

end SameAnswer

end Solver

namespace Threshold

variable {threshold : Threshold} {routine : Routine Float} {matrix : Dense Float}
  {failure : Failure}

theorem judge_eq_error_iff {list : List Float} :
    threshold.judge list = .error failure ↔
      unjudged list = false ∧ threshold.value? = none ∧ failure = .numberRange := by
  unfold judge
  cases unjudged list with
  | true => simp
  | false => cases threshold.value? <;> simp [eq_comm]

/-- What can go wrong before there is a verdict, in the order in which it is noticed. -/
theorem isNonSingular_eq_error_iff :
    (threshold.solver routine).isNonSingular matrix = .error failure ↔
      matrix.rows ≠ matrix.columns ∧ failure = .notSquare matrix.rows matrix.columns ∨
        matrix.rows = matrix.columns ∧ unjudged (routine.factor matrix).r.diagonal = false ∧
          threshold.value? = none ∧ failure = .numberRange := by
  have htriangle : (threshold.solver routine).routine.triangle matrix =
      (routine.factor matrix).r := routine.triangle_eq matrix
  simp only [Solver.isNonSingular, Dense.isSquare, beq_iff_eq, htriangle]
  by_cases hsquare : matrix.rows = matrix.columns
  · rw [if_pos hsquare]
    refine judge_eq_error_iff.trans ?_
    constructor
    · intro h
      exact Or.inr ⟨hsquare, h⟩
    · rintro (⟨hne, -⟩ | ⟨-, h⟩)
      · exact absurd hsquare hne
      · exact h
  · rw [if_neg hsquare, Except.error.injEq]
    constructor
    · intro h
      exact Or.inl ⟨hsquare, h.symm⟩
    · rintro (⟨-, h⟩ | ⟨hsame, -⟩)
      · exact h.symm
      · exact absurd hsame hsquare

theorem kind?_of_isNonSingular
    (h : (threshold.solver routine).isNonSingular matrix = .error failure) :
    failure.kind? = none := by
  rcases isNonSingular_eq_error_iff.mp h with ⟨-, rfl⟩ | ⟨-, -, -, rfl⟩ <;> rfl

/-- The two answers agree, however factors are found. -/
theorem sameAnswer (threshold : Threshold) (routine : Routine Float) (matrix : Dense Float) :
    SameAnswer ((threshold.solver routine).isNonSingular matrix)
      ((threshold.solver routine).factorize matrix) := by
  rw [Solver.factorize_eq]
  cases hverdict : (threshold.solver routine).isNonSingular matrix with
  | error failure =>
      refine SameAnswer.error ?_
      rw [kind?_of_isNonSingular hverdict]
      simp
  | ok accepted => exact SameAnswer.ok accepted _ rfl

end Threshold

namespace LinearSolver

variable {s : LinearSolver} {m : MatrixValue} {failure : Failure} {matrix : Dense Float}

/-- The pivots by which a matrix is judged. -/
def pivots (s : LinearSolver) (matrix : Dense Float) : List Float :=
  (s.backend.routine.factor matrix).r.diagonal

theorem isNonSingular_of_access (h : m.access = .ok matrix) :
    s.isNonSingular m = (s.threshold.solver s.backend.routine).isNonSingular matrix := by
  rw [LinearSolver.isNonSingular, h]
  rfl

theorem factorize_of_access (h : m.access = .ok matrix) :
    s.factorize m = (s.threshold.solver s.backend.routine).factorize matrix := by
  rw [LinearSolver.factorize, h]
  rfl

/-- What can go wrong before there is a verdict about a value. -/
theorem isNonSingular_eq_error_iff :
    s.isNonSingular m = .error failure ↔
      m.access = .error failure ∨
        ∃ matrix, m.access = .ok matrix ∧
          (matrix.rows ≠ matrix.columns ∧ failure = .notSquare matrix.rows matrix.columns ∨
            matrix.rows = matrix.columns ∧ unjudged (s.pivots matrix) = false ∧
              s.threshold.value? = none ∧ failure = .numberRange) := by
  cases haccess : m.access with
  | error failure' =>
      rw [LinearSolver.isNonSingular, haccess]
      simp
  | ok matrix =>
      rw [isNonSingular_of_access haccess, Threshold.isNonSingular_eq_error_iff]
      simp only [reduceCtorEq, false_or, Except.ok.injEq, exists_eq_left']
      rfl

/-- The two answers about a value of any type agree. -/
theorem sameAnswer (s : LinearSolver) (m : MatrixValue) :
    SameAnswer (s.isNonSingular m) (s.factorize m) := by
  cases haccess : m.access with
  | error failure =>
      rw [LinearSolver.isNonSingular, LinearSolver.factorize, haccess]
      refine SameAnswer.error ?_
      rw [MatrixValue.kind?_of_access haccess]
      simp
  | ok matrix =>
      rw [isNonSingular_of_access haccess, factorize_of_access haccess]
      exact s.threshold.sameAnswer s.backend.routine matrix

/-- **The two answers agree.**  For either backend, any threshold and any value, a matrix is
non-singular exactly if it has factors, and singular exactly if the factors are refused with the
report of a singular matrix.  Otherwise both questions fail in the same way: the layout is
noticed first, then a shape that is not square, and last a threshold that is no floating-point
number, if it is needed.  The same holds of a matrix at any threshold if its factors are found in
any other way. -/
theorem isNonSingular_iff_factorize (s : LinearSolver) (m : MatrixValue) :
    (s.isNonSingular m = .ok true ↔ ∃ f, s.factorize m = .ok f) ∧
      (s.isNonSingular m = .ok false ↔
        ∃ failure, s.factorize m = .error failure ∧ failure.kind? = some .singular) ∧
      (∀ failure, s.isNonSingular m = .error failure ↔
        s.factorize m = .error failure ∧ failure.kind? ≠ some .singular) ∧
      (∀ failure, s.isNonSingular m = .error failure ↔
        (m.access = .error failure ∧ failure.kind? = some .layout) ∨
          ∃ matrix, m.access = .ok matrix ∧
            (matrix.rows ≠ matrix.columns ∧ failure = .notSquare matrix.rows matrix.columns ∨
              matrix.rows = matrix.columns ∧ unjudged (s.pivots matrix) = false ∧
                s.threshold.value? = none ∧ failure = .numberRange)) ∧
      ∀ (threshold : Threshold) (routine : Routine Float) (matrix : Dense Float),
        SameAnswer ((threshold.solver routine).isNonSingular matrix)
          ((threshold.solver routine).factorize matrix) ∧
        ∀ failure, (threshold.solver routine).isNonSingular matrix = .error failure ↔
          matrix.rows ≠ matrix.columns ∧ failure = .notSquare matrix.rows matrix.columns ∨
            matrix.rows = matrix.columns ∧ unjudged (routine.factor matrix).r.diagonal = false ∧
              threshold.value? = none ∧ failure = .numberRange := by
  have hlayout : ∀ failure, (m.access = .error failure ∧ failure.kind? = some .layout) ↔
      m.access = .error failure :=
    fun failure => and_iff_left_of_imp MatrixValue.kind?_of_access
  simp only [hlayout]
  obtain ⟨haccepted, hrejected, hfailed⟩ := s.sameAnswer m
  refine ⟨haccepted, hrejected, hfailed, fun _ => isNonSingular_eq_error_iff, ?_⟩
  intro threshold routine matrix
  exact ⟨threshold.sameAnswer routine matrix, fun _ => Threshold.isNonSingular_eq_error_iff⟩

end LinearSolver

end LeastSquares

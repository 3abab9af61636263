import LeastSquares.Dense.Layout
import LeastSquares.Settings.Basic
import LeastSquares.Solver.Householder

/-!
# Solvers

A `Solver` factorizes square matrices and judges them by their pivots.  It answers
whether a matrix is non-singular, and it factorizes a matrix or refuses it; the two
answers agree because both judge the pivots of the same triangular factor.

A `LinearSolver` is a solver for floating-point matrices: a `Backend`, which is a way
to factorize, with a threshold.  `LinearSolver.ofSettings` makes the one that settings
select.
-/

namespace LeastSquares

universe u

/-! ## Judging and factorizing -/

/-- A way to factorize square matrices, to judge the pivots, and to refuse. -/
structure Solver (α : Type u) [Finiteness α] where
  /-- The way to factorize. -/
  routine : Routine α
  /-- Whether pivots are accepted. -/
  judge : List α → Except Failure Bool
  /-- The refusal of a matrix of a given size with given pivots. -/
  refusal : Nat → List α → Failure

namespace Solver

variable {α : Type u} [Finiteness α]

/-- The solver that judges pivots relative to the largest. -/
def relative [Zero α] [Neg α] [Mul α] [LT α] [DecidableLT α]
    (routine : Routine α) (threshold rankRatio : α) (shown : Threshold) : Solver α where
  routine := routine
  judge pivots := .ok (wellPosed threshold pivots)
  refusal size pivots := .singular size shown (apparentRank rankRatio pivots)

/-- Whether a matrix can be solved. -/
def isNonSingular (s : Solver α) (m : Dense α) : Except Failure Bool :=
  if m.isSquare then s.judge (s.routine.triangle m).diagonal
  else .error (.notSquare m.rows m.columns)

/-- The factors of a matrix that can be solved. -/
def factorize (s : Solver α) (m : Dense α) : Except Failure (Factorization α) :=
  if m.isSquare then
    let f := s.routine.factor m
    match s.judge f.r.diagonal with
    | .ok true => .ok f
    | .ok false => .error (s.refusal m.rows f.r.diagonal)
    | .error failure => .error failure
  else .error (.notSquare m.rows m.columns)

end Solver

/-! ## Backends -/

/-- A way to factorize floating-point matrices. -/
inductive Backend where
  /-- Always available. -/
  | portable
  /-- Accelerated, and available where its dependency is installed. -/
  | native
  deriving DecidableEq, Repr

namespace Backend

/-- The name of a backend in messages. -/
def name : Backend → String
  | portable => "PortableLinearSystemSolver"
  | native => "NativeLinearSystemSolver"

/-- The factorization that a backend uses. -/
def routine : Backend → Routine Float
  | portable => Householder.plain
  | native => Householder.pivoted

end Backend

/-- Whether pivots are accepted at a threshold.  Only where they are judged does the
threshold have to be a floating-point number. -/
def Threshold.judge (threshold : Threshold) (pivots : List Float) : Except Failure Bool :=
  if unjudged pivots then .ok true
  else
    match threshold.value? with
    | some t => .ok (exceedsRatio t pivots)
    | none => .error .numberRange

namespace Threshold

/-- The judging and factorizing of a routine at a threshold. -/
def solver (threshold : Threshold) (routine : Routine Float) : Solver Float where
  routine := routine
  judge := threshold.judge
  refusal size pivots := .singular size threshold (apparentRank rankRatio pivots)

/-- At a threshold that is a floating-point number, pivots are judged relative to the
largest. -/
theorem solver_eq_relative {threshold : Threshold} {t : Float} (h : threshold.value? = some t)
    (routine : Routine Float) :
    threshold.solver routine = Solver.relative routine t rankRatio threshold := by
  have hjudge : threshold.judge = fun pivots => .ok (wellPosed t pivots) := by
    funext pivots
    simp only [judge, wellPosed, h]
    cases unjudged pivots <;> rfl
  simp only [solver, Solver.relative, hjudge]

end Threshold

/-- A backend with a threshold. -/
structure LinearSolver where
  /-- The way to factorize. -/
  backend : Backend
  /-- The ratio of pivots below which a matrix counts as singular. -/
  threshold : Threshold := .real Cutoff.default.val

namespace LinearSolver

/-- A backend with a threshold, if its dependency is installed. -/
def make (installed : Bool) (backend : Backend) (threshold : Threshold) :
    Except Failure LinearSolver :=
  if backend = .native ∧ installed = false then .error .dependencyMissing
  else .ok ⟨backend, threshold⟩

/-- The solver that settings select. -/
def ofSettings (installed : Bool) (settings : Settings) : Except Failure LinearSolver :=
  make installed (if settings.nativeMath then .native else .portable)
    (.real settings.threshold.val)

/-- The judging and factorizing of a backend at its threshold. -/
def solver (s : LinearSolver) : Solver Float := s.threshold.solver s.backend.routine

/-- Whether a value of any type is a matrix that can be solved. -/
def isNonSingular (s : LinearSolver) (m : MatrixValue) : Except Failure Bool :=
  match m.access with
  | .ok matrix => s.solver.isNonSingular matrix
  | .error failure => .error failure

/-- The factors of a value of any type that is a matrix that can be solved. -/
def factorize (s : LinearSolver) (m : MatrixValue) : Except Failure (Factorization Float) :=
  match m.access with
  | .ok matrix => s.solver.factorize matrix
  | .error failure => .error failure

end LinearSolver

/-- The solution for a right-hand side that a nesting describes. -/
def Factorization.solveNesting (f : Factorization Float) (b : Nesting Datum) :
    Except Failure (Columns Float) :=
  match NArray.read Datum.entry b with
  | .ok a => f.solveArray a
  | .error failure => .error failure

end LeastSquares

import LeastSquares.Association.Basic
import LeastSquares.Kernel.Gram
import LeastSquares.Solver.Basic

/-!
# Half a step of alternating least squares

One side of an association matrix is held fixed: every item has a factor vector.  The
factors of a user are the solution of the normal equations of the items that the user
is associated with: the matrix is the sum of `v vᵀ` over their vectors, and the
right-hand side the sum of `w v`, where `w` is the weight of the association.

A user without associations has no equations, and one whose items do not span the
space has no unique solution.  Vectors that are kept as plain lists can be summed up to
the matrix, but not to the right-hand side.
-/

namespace LeastSquares

universe u v

/-- What half a step finds for a user. -/
inductive HalfStep (α : Type u) where
  /-- There is nothing to learn from. -/
  | unobserved
  /-- The equations have no unique solution. -/
  | singular
  /-- The factors of the user. -/
  | factors (x : List α)

variable {α : Type u} {β : Type v}

namespace Store

/-- The vectors of the ids that have a weight, by ascending id. -/
def weighted {γ : Type u} (items : Store β) (weights : IdMap γ) : Except Failure (Store β) :=
  weights.ascending.traverse fun id _ => items.vectorAt id

variable [Zero α] [Add α] [Mul α]

/-- A vector of the store times its weight.  The vector has to be of a given length. -/
def scaledVector (widen : Nesting β → Except Failure (NArray α)) (length : Nat)
    (items : Store β) (entry : Int × α) : Except Failure (List α) :=
  match items.vectorAt entry.1 with
  | .error failure => .error failure
  | .ok v =>
      match widen v with
      | .error failure => .error failure
      | .ok a =>
          if a.shape = [length] then .ok (a.entries.map (entry.2 * ·))
          else .error .shapeMismatch

/-- The sum of lists of a given length, entry by entry. -/
def sumVectors (length : Nat) (vectors : List (List α)) : List α :=
  vectors.foldl (List.zipWith (· + ·)) (List.replicate length 0)

/-- The sum of the vectors times their weights, by ascending id. -/
def weightedSum (widen : Nesting β → Except Failure (NArray α)) (length : Nat)
    (items : Store β) (weights : IdMap α) : Except Failure (List α) :=
  (readEach (items.scaledVector widen length) weights.sorted).map fun terms =>
    sumVectors length terms.val

end Store

variable [Finiteness α] [Zero α] [One α] [Add α] [Sub α] [Mul α] [Div α] [BEq α]

namespace Solver

/-- The factors of a user from the vectors of the items and the weights of the user.  There
are `length` factors; whether the vectors are of that length, and can be widened to be scaled,
only matters once there is a unique solution. -/
def halfStep (s : Solver α) (read : β → Except Failure α)
    (widen : Nesting β → Except Failure (NArray α)) (length : Nat) (items : Store β)
    (weights : IdMap α) : Except Failure (HalfStep α) :=
  match items.weighted weights with
  | .error failure => .error failure
  | .ok observed =>
      match observed.gram read with
      | .error failure => .error failure
      | .ok none => .ok .unobserved
      | .ok (some m) =>
          match s.isNonSingular m with
          | .error failure => .error failure
          | .ok false => .ok .singular
          | .ok true =>
              match items.weightedSum widen length weights, s.factorize m with
              | .error failure, _ => .error failure
              | .ok _, .error failure => .error failure
              | .ok b, .ok f =>
                  match f.solveVector b with
                  | .error failure => .error failure
                  | .ok x => .ok (.factors x)

end Solver

/-- How the vectors of a store are kept. -/
inductive VectorForm where
  /-- As arrays. -/
  | array
  /-- As plain lists. -/
  | plain
  deriving DecidableEq, Repr

/-- A vector as the array that is scaled.  Plain lists cannot be widened to one. -/
def VectorForm.widen : VectorForm → Nesting Datum → Except Failure (NArray Float)
  | array, v => NArray.read Datum.entry v
  | plain, _ => .error .plainVector

/-- Half a step for one user of an association matrix. -/
def LinearSolver.halfStep (s : LinearSolver) (form : VectorForm) (length : Nat)
    (m : Association) (items : Store Datum) (user : Int) : Except Failure (HalfStep Float) :=
  s.solver.halfStep Datum.entry form.widen length items (m.row user)

end LeastSquares

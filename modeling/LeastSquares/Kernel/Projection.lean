import LeastSquares.Kernel.Product
import LeastSquares.Kernel.Store

/-!
# Projection of factor vectors through a matrix

A matrix is applied to one vector, or to every vector of a store.  A single result
keeps its full precision; the results of a store are narrowed, since they are
factor vectors again.  The vectors of a store are read in order of insertion, so
the first one that does not fit decides the failure.

The scalars, the way they are read and the narrowing are parameters.
-/

namespace LeastSquares

universe u v w

variable {α : Type u} {β : Type v} {γ : Type w} [Zero α] [Add α] [Mul α]

namespace Dense

/-- An array as a vector that the matrix can be applied to. -/
def operand (m : Dense α) (a : NArray α) : Except Failure (List α) :=
  match a.shape with
  | [n] =>
      if n = m.columns then .ok a.entries
      else .error (.vectorLength n m.rows m.columns)
  | shape => .error (.vectorRank shape.length)

/-- The matrix applied to an array, which has to be a vector. -/
def applyArray (m : Dense α) (a : NArray α) : Except Failure (List α) :=
  (m.operand a).map m.apply

/-- The matrix applied to a nesting, which has to be a vector. -/
def project (read : β → Except Failure α) (m : Dense α) (v : Nesting β) :
    Except Failure (List α) :=
  match NArray.read read v with
  | .ok a => m.applyArray a
  | .error failure => .error failure

/-- The matrix applied to every vector of a store, each result narrowed. -/
def projectStore (read : β → Except Failure α) (narrow : α → γ) (m : Dense α)
    (store : Store β) : Except Failure (IdMap (List γ)) :=
  store.traverse fun _ v => (m.project read v).map fun result => result.map narrow

end Dense

end LeastSquares

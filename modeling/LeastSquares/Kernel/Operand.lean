import LeastSquares.Kernel.Cross
import LeastSquares.Kernel.Gram
import LeastSquares.Kernel.Projection

/-!
# Kernels on floating-point numbers

The kernels as callers reach them: matrices of any type are checked first, scalars
are read from loosely typed values, and results that go back into a store are
narrowed to 24 bits of precision.
-/

namespace LeastSquares

/-- What a matrix is to be applied to. -/
inductive Operand where
  /-- Every vector of a store. -/
  | store (s : Store Datum)
  /-- A nesting of lists, to be read as one vector. -/
  | nesting (v : Nesting Datum)
  /-- An array, to be used as one vector. -/
  | array (a : NArray Float)
  /-- Anything else. -/
  | other (d : Datum)

/-- The result of applying a matrix. -/
inductive Projected where
  /-- The narrowed images of the vectors of a store. -/
  | store (s : IdMap (List Float))
  /-- The image of a single vector. -/
  | vector (v : List Float)

/-- A matrix applied to an operand of any type. -/
def Dense.applyTo (m : Dense Float) : Operand → Except Failure Projected
  | .store s => (m.projectStore Datum.entry Number.narrow s).map .store
  | .nesting v => (m.project Datum.entry v).map .vector
  | .array a => (m.applyArray a).map .vector
  | .other d => .error (.operandType d.typeName)

/-- A value of any type applied to an operand of any type, as a matrix. -/
def MatrixValue.applyTo (m : MatrixValue) (o : Operand) : Except Failure Projected :=
  match m.access with
  | .ok matrix => matrix.applyTo o
  | .error failure => .error failure

/-- The normal equations of a store of floating-point vectors, if there is one and it is not
empty. -/
def Store.normalMatrix (store? : Option (Store Datum)) :
    Except Failure (Option (Dense Float)) :=
  gramIfAny chunkSize Datum.entry store?

/-- The dot products of the floating-point vectors of two stores. -/
def Store.crossMatrix (x y : Store Datum) : Except Failure (Dense Float) :=
  x.cross Datum.entry y

end LeastSquares

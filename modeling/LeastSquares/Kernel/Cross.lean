import LeastSquares.Kernel.Product
import LeastSquares.Kernel.Store

/-!
# Cross products of two stores

`Store.cross` is the matrix of the dot products of every vector of one store with
every vector of another, both keyed by the indices from zero on.  Without vectors
on one side it is a matrix without entries, and no index is looked at.

Stacked members that are no vectors are multiplied by the rules for arrays of any
number of axes: the last axis of the first factor meets the second axis of the
other one.  Only a product with two axes is a matrix.
-/

namespace LeastSquares

universe u v

variable {α : Type u} {β : Type v} [Zero α] [Add α] [Mul α]

namespace NArray

/-- The lengths of two axes that are aligned, when one of them can be repeated. -/
def alignAxis (m n : Nat) : Option Nat :=
  if m = n then some m else if m = 1 then some n else if n = 1 then some m else none

/-- The number of axes of two aligned shapes, given from the last axis on. -/
def alignedRank? : List Nat → List Nat → Option Nat
  | [], t => some t.length
  | s, [] => some s.length
  | m :: s, n :: t => (alignAxis m n).bind fun _ => (alignedRank? s t).map (· + 1)

/-- The length of the axis of the first factor that is summed over. -/
def lastLength (a : NArray α) : Nat := a.shape.getLast?.getD 1

/-- The length of the axis of the second factor that is summed over. -/
def secondLength (a : NArray α) : Nat :=
  match a.shape with
  | _ :: n :: _ => n
  | [n] => n
  | [] => 1

/-- The number of axes of the product of an array with the reversal of another, when
the axes that are not summed over can be aligned.  It is one at least. -/
def productRank? (x y : NArray α) : Option Nat :=
  let free := (if 2 ≤ x.rank then 1 else 0) + (if 2 ≤ y.rank then 1 else 0)
  (alignedRank? (x.shape.reverse.drop 2) (y.shape.drop 2)).map fun n => max 1 (n + free)

/-- The product of an array with the reversal of another, as a matrix. -/
def timesReversed (x y : NArray α) : Except Failure (Dense α) :=
  if x.lastLength ≠ y.secondLength then .error .shapeMismatch
  else
    match x, y with
    | ⟨[m, k], v, hv⟩, ⟨[n, l], w, hw⟩ =>
        .ok ((Dense.ofArray m k v hv).timesTranspose (Dense.ofArray n l w hw))
    | ⟨[m, n, k], v, _⟩, ⟨[_], w, _⟩ =>
        .ok (Dense.ofFn m n fun i j => dot ((v.drop ((i * n + j) * k)).take k) w)
    | ⟨[_], v, _⟩, ⟨[n, k, m], w, _⟩ =>
        .ok (Dense.ofFn m n fun i j =>
          dot v ((splitRows m k (w.drop (j * k * m))).filterMap fun row => row[i]?))
    | x, y =>
        match productRank? x y with
        | some rank => .error (rankRefusal rank)
        | none => .error .shapeMismatch

end NArray

namespace Store

/-- The vectors of a store keyed by the indices from zero on, stacked by index. -/
def indexedBlock (read : β → Except Failure α) (store : Store β) : Except Failure (NArray α) :=
  match store.indexed with
  | .ok vectors => block read vectors
  | .error failure => .error failure

/-- The dot products of the vectors of two stores keyed by the indices from zero on. -/
def cross (read : β → Except Failure α) (x y : Store β) : Except Failure (Dense α) :=
  if x.isEmpty || y.isEmpty then .ok (Dense.zeros x.size y.size)
  else
    match x.indexedBlock read with
    | .error failure => .error failure
    | .ok a =>
        match y.indexedBlock read with
        | .error failure => .error failure
        | .ok b => a.timesReversed b

end Store

end LeastSquares

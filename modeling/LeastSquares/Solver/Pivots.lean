/-!
# The pivots of a triangular factor

Whether a matrix can be solved is judged by the diagonal of its triangular factor
alone: the smallest magnitude has to exceed a threshold times the largest.  Pivots
that are not finite are not judged, so that they show up in the solution.

The scalars are of any type with the operations used here, so that the same
definitions serve floating-point and exact arithmetic.
-/

namespace LeastSquares

universe u

/-- Scalars some of which may stand for no finite number. -/
class Finiteness (α : Type u) where
  /-- Whether a scalar is a finite number. -/
  isFinite : α → Bool

instance : Finiteness Float := ⟨Float.isFinite⟩

variable {α : Type u}

/-- A scalar without its sign. -/
def magnitude [Zero α] [Neg α] [LT α] [DecidableLT α] (x : α) : α := if x < 0 then -x else x

/-- The least of a first scalar and further ones. -/
def least [LT α] [DecidableLT α] (x : α) (rest : List α) : α :=
  rest.foldl (fun a b => if b < a then b else a) x

/-- The greatest of a first scalar and further ones. -/
def greatest [LT α] [DecidableLT α] (x : α) (rest : List α) : α :=
  rest.foldl (fun a b => if a < b then b else a) x

/-- Whether pivots are accepted without being judged: there are none, or one of them is
not finite. -/
def unjudged [Finiteness α] (pivots : List α) : Bool :=
  pivots.isEmpty || !pivots.all Finiteness.isFinite

variable [Zero α] [Neg α] [Mul α] [LT α] [DecidableLT α]

/-- Whether the smallest magnitude exceeds a ratio of the largest. -/
def exceedsRatio (ratio : α) (pivots : List α) : Bool :=
  match pivots.map magnitude with
  | [] => true
  | x :: rest => ratio * greatest x rest < least x rest

/-- Whether a triangular factor with these pivots is accepted. -/
def wellPosed [Finiteness α] (threshold : α) (pivots : List α) : Bool :=
  unjudged pivots || exceedsRatio threshold pivots

/-- How many magnitudes exceed a ratio of the largest. -/
def apparentRank (ratio : α) (pivots : List α) : Nat :=
  match pivots.map magnitude with
  | [] => 0
  | x :: rest => (x :: rest).countP fun y => ratio * greatest x rest < y

/-- Pivots below this fraction of the largest do not count toward the apparent rank. -/
def rankRatio [OfScientific α] : α := 0.01

end LeastSquares

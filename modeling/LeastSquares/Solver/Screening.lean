import LeastSquares.Dense.Basic
import LeastSquares.Solver.Lanes
import LeastSquares.Solver.Pivots

/-!
# Screening a triangular factor for zero pivots

Before a triangular system is solved, scalars on and below the diagonal are compared
with zero.  A `Screening` says which ones.  As long as all pivots are finite they are
pivots of the factor, so that a factor with finite pivots none of which is zero passes
(`not_stops`).

Among finite numbers both screenings here notice every zero pivot.  What is not
finite can hide one: the first screening stops looking where it would spread to the
pivots, and the second one looks for the least pivot only.  In the first one a pivot that
does not compare can also give way to a zero below it, which is then taken for the pivot.
-/

namespace LeastSquares

universe u

variable {α : Type u}

/-- The entries with equal row and column. -/
def Dense.diagonal (m : Dense α) : List α :=
  (List.range m.rows).filterMap fun i => m.get? i i

/-- Which scalars of a triangular factor are compared with zero, and when. -/
structure Screening (α : Type u) [Finiteness α] where
  /-- The scalars that are looked at. -/
  inspected : Dense α → List α
  /-- They are pivots if all pivots are finite. -/
  inspected_subset : ∀ r, r.diagonal.all Finiteness.isFinite = true → inspected r ⊆ r.diagonal
  /-- Whether they are looked at although there is nothing to solve for. -/
  always : Bool

namespace Screening

variable [Finiteness α]

/-- Whether a zero is noticed. -/
def stops [Zero α] [BEq α] (s : Screening α) (r : Dense α) : Bool :=
  (s.inspected r).any (· == 0)

/-- A factor passes if its pivots are finite and none of them is zero. -/
theorem not_stops [Zero α] [BEq α] (s : Screening α) {r : Dense α}
    (hfinite : r.diagonal.all Finiteness.isFinite = true)
    (h : ∀ pivot ∈ r.diagonal, (pivot == 0) = false) : s.stops r = false :=
  List.any_eq_false.mpr fun pivot hpivot => by
    simp [h pivot (s.inspected_subset r hfinite hpivot)]

/-- Whether the entries above the pivot of column `j` are finite. -/
def finiteAbove (r : Dense α) (j : Nat) : Bool :=
  ((r.column j).take j).all Finiteness.isFinite

variable [Zero α] [Neg α] [LT α] [DecidableLT α]

/-- What a search for the greatest magnitude finds on and below the diagonal in column `j`: the
pivot, but where that is not finite it can be a zero below it.  The search is staggered if an
even number of entries is stored before the pivot, column after column. -/
def foundFrom [BEq α] (r : Dense α) (j : Nat) (pivot : α) : α :=
  if Finiteness.isFinite pivot then pivot
  else if greatestPlace (j * (r.rows + 1) % 2 == 0) (magnitude pivot)
      (List.replicate (r.rows - (j + 1)) 0) = 0 then pivot
  else 0

/-- All columns are searched from their pivots on, up to the first one that is not finite above
its pivot. -/
def leading [BEq α] : Screening α where
  inspected r :=
    ((List.range r.rows).takeWhile (finiteAbove r)).filterMap fun j =>
      (r.get? j j).map (foundFrom r j)
  inspected_subset r hfinite := by
    intro x hx
    obtain ⟨j, hj, hx⟩ := List.mem_filterMap.mp hx
    obtain ⟨pivot, hpivot, rfl⟩ := Option.map_eq_some_iff.mp hx
    have hmem : pivot ∈ r.diagonal :=
      List.mem_filterMap.mpr ⟨j, (List.takeWhile_sublist _).subset hj, hpivot⟩
    rw [foundFrom, if_pos (List.all_eq_true.mp hfinite pivot hmem)]
    exact hmem
  always := true

/-- The pivot of the least magnitude is looked at. -/
def smallest : Screening α where
  inspected r :=
    match r.diagonal with
    | [] => []
    | pivot :: rest => [extreme (fun a b => magnitude a < magnitude b) false pivot rest]
  inspected_subset r _ := by
    cases r.diagonal with
    | nil => exact List.Subset.refl _
    | cons pivot rest =>
        intro p hp
        rw [List.mem_singleton.mp hp]
        exact extreme_mem _ false pivot rest
  always := false

end Screening

end LeastSquares

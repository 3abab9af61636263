import LeastSquares.Kernel.Product
import LeastSquares.Solver.Columns
import LeastSquares.Solver.Screening

/-!
# Solving with a factorization

A `Factorization` of a square matrix consists of an orthogonal factor `q`, an upper
triangular factor `r` and, if columns are exchanged, their order, so that column
`order i` of the matrix is column `i` of `q r`.

To solve for a right-hand side `b` is to solve `r z = qᵀ b` from the last row up and
to put entry `i` of `z` at place `order i` (`getElem?_scatter`).  A right-hand side with
several columns is solved column by column.  The pivots of `r` are screened for zeros
first, so that nothing is divided by a zero that was noticed.

In exact arithmetic it makes no difference how a row is solved for its unknown.  In floating
point it decides what leaves the range, so a `Substitution` says it.  For several columns the
pivots are inverted once, and the inverse of a very small one is not finite.

The members of a stack of matrices are solved for one by one.  There it is the first axis
of the stack that is put in order, and not the rows of its members.
-/

namespace LeastSquares

universe u

variable {α : Type u}

/-! ## Triangular systems -/

/-- How a row of a triangular system is solved for its unknown. -/
structure Substitution where
  /-- Whether the products with the unknowns that are known are added up and then subtracted.
  Otherwise they are subtracted one by one, the last one first. -/
  addsUp : Bool
  /-- Whether the pivot is inverted and multiplied by.  Otherwise it is divided by. -/
  inverts : Bool
  deriving DecidableEq, Repr

namespace Substitution

variable [Zero α] [One α] [Add α] [Sub α] [Mul α] [Div α]

/-- A right-hand side less the products of the entries of a row with the known unknowns. -/
def reduce (s : Substitution) (b : α) (row xs : List α) : α :=
  if s.addsUp then b - dot row xs
  else (List.zipWith (· * ·) row xs).foldr (fun product rest => rest - product) b

/-- What is left of a right-hand side by the pivot. -/
def quotient (s : Substitution) (rest pivot : α) : α :=
  if s.inverts then rest * (1 / pivot) else rest / pivot

/-- The solution of a triangular system, whose rows are given from their pivots on,
each with its right-hand side.  The last unknown is found first. -/
def solveRows (s : Substitution) : List (List α × α) → List α
  | [] => []
  | (row, b) :: more =>
      let xs := s.solveRows more
      s.quotient (s.reduce b row.tail xs) (row.headD 0) :: xs

@[simp] theorem length_solveRows (s : Substitution) (rows : List (List α × α)) :
    (s.solveRows rows).length = rows.length := by
  induction rows with
  | nil => rfl
  | cons row rows ih => simp [solveRows, ih]

end Substitution

/-- The rows, each from its diagonal entry on. -/
def Dense.staircase (m : Dense α) : List (List α) := m.entries.mapIdx fun i row => row.drop i

/-- The solution of `r z = b` for an upper triangular `r`. -/
def solveUpper [Zero α] [One α] [Add α] [Sub α] [Mul α] [Div α] (s : Substitution)
    (r : Dense α) (b : List α) : List α :=
  s.solveRows (r.staircase.zip b)

/-! ## Factorizations -/

/-- The factors of a matrix. -/
structure Factorization (α : Type u) [Finiteness α] where
  /-- The orthogonal factor. -/
  q : Dense α
  /-- The upper triangular factor. -/
  r : Dense α
  /-- The places of the columns of `q r` among those of the matrix, if columns are exchanged. -/
  order : Option (List Nat)
  /-- Which pivots of `r` are compared with zero. -/
  screening : Screening α
  /-- How `r` is solved for a single column. -/
  single : Substitution

/-- The list whose entry at place `order i` is entry `i` of `z`. -/
def scatter [Zero α] (order : List Nat) (z : List α) : List α :=
  (List.range order.length).map fun place => z.getD (order.idxOf place) 0

@[simp] theorem length_scatter [Zero α] (order : List Nat) (z : List α) :
    (scatter order z).length = order.length := by
  simp [scatter]

/-- Entry `i` goes to the place that the order gives it. -/
theorem getElem?_scatter [Zero α] {order : List Nat} (hdistinct : order.Nodup) (z : List α)
    {i : Nat} (hi : i < order.length) (hplace : order[i] < order.length) :
    (scatter order z)[order[i]]? = some (z.getD i 0) := by
  rw [scatter, List.getElem?_map, List.getElem?_range hplace, Option.map_some,
    hdistinct.idxOf_getElem i hi]

namespace Factorization

variable [Finiteness α] [Zero α] [One α] [Add α] [Sub α] [Mul α] [Div α] [BEq α]

/-- Whether a zero pivot is noticed. -/
def stops (f : Factorization α) : Bool := f.screening.stops f.r

/-- How `r` is solved for so many columns. -/
def substitution (f : Factorization α) (columns : Nat) : Substitution :=
  if columns = 1 then f.single else { addsUp := false, inverts := true }

/-- The solution `z` of `r z = qᵀ b`. -/
def solveFactors (f : Factorization α) (s : Substitution) (b : List α) :
    Except Failure (List α) :=
  if f.stops then .error .zeroPivot else .ok (solveUpper s f.r (f.q.transpose.apply b))

/-- The entries of `z` at the places of the columns that they belong to. -/
def inOrder (f : Factorization α) (z : List α) : List α :=
  match f.order with
  | some order => scatter order z
  | none => z

/-- The solution for a single column. -/
def solveVector (f : Factorization α) (b : List α) : Except Failure (List α) :=
  (f.solveFactors f.single b).map f.inOrder

/-- The solution `z` of `r z = qᵀ b` for each column of a matrix `b`. -/
def solveEach (f : Factorization α) (b : Dense α) : Except Failure (List (List α)) :=
  if f.screening.always && f.stops then .error .zeroPivot
  else (readEach (f.solveFactors (f.substitution b.columns)) b.columnList).map Subtype.val

/-- The solution for each column of a matrix. -/
def solveMatrix (f : Factorization α) (b : Dense α) : Except Failure (Dense α) :=
  (f.solveEach b).map fun zs => Dense.ofColumns f.r.columns (zs.map f.inOrder)

/-- A stack whose first axis is put in order.  There have to be as many members along it as
columns.  A single one would have to be put at all places, which are more than there are. -/
def arrange (f : Factorization α) (z : Stack α) : Except Failure (Stack α) :=
  match f.order, z.outer with
  | some order, length :: inner =>
      if length = order.length then
        .ok (z.rearrange (Nesting.volume inner) fun place => order.idxOf place)
      else if length = 1 then .error .outOfBounds
      else .error .shapeMismatch
  | _, _ => .ok z

/-- The solution for each member of a stack. -/
def solveStack (f : Factorization α) (b : Stack α) : Except Failure (Stack α) :=
  match readEach f.solveEach b.members with
  | .error failure => .error failure
  | .ok ⟨solutions, h⟩ =>
      f.arrange
        { b with
          members := solutions.map (Dense.ofColumns f.r.columns)
          length_members := by rw [List.length_map, h]; exact b.length_members }

/-- The solution for one column or for several. -/
def solve (f : Factorization α) : Columns α → Except Failure (Columns α)
  | .vector b => (f.solveVector b).map .vector
  | .matrix b => (f.solveMatrix b).map .matrix
  | .stack b => (f.solveStack b).map .stack

/-- The solution for an array, which has to have one row for each unknown. -/
def solveArray (f : Factorization α) (b : NArray α) : Except Failure (Columns α) :=
  match Columns.ofNArray f.r.columns b with
  | .ok columns => f.solve columns
  | .error failure => .error failure

end Factorization

/-! ## Routines -/

/-- A way to factorize square matrices.  The triangular factor can be found alone. -/
structure Routine (α : Type u) [Finiteness α] where
  /-- The factors of a matrix. -/
  factor : Dense α → Factorization α
  /-- The triangular factor of a matrix. -/
  triangle : Dense α → Dense α
  /-- Both ways find the same triangular factor. -/
  triangle_eq : ∀ m, triangle m = (factor m).r

end LeastSquares

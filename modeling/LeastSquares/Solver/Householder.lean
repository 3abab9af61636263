import LeastSquares.Solver.Factorization

/-!
# Factorization by reflections

A matrix is brought to triangular form column by column.  Each column is reflected
onto its first entry, the same reflection is applied to the columns to its right, and
the first entries of all of them are a row of the triangular factor.  Columns of the
identity that go along become the transpose of the orthogonal factor.

The columns are taken from left to right, or always the longest remaining one first.

What a reflection does not change is not computed.  A column that is zero below its
first entry is reflected by the identity, so that the pivots of a triangular matrix are
its diagonal entries.  A reflection acts on the rows up to the last one in which its
vector is not zero, and on the columns up to the last one that is not zero in these rows,
so that zeros stay zeros whatever else there is.

Lengths are formed after division by the largest entry where squares would leave the
range.
-/

namespace LeastSquares.Householder

/-! ## Lengths -/

/-- What entries are divided by before they are squared: nothing is, unless the largest one
is extreme. -/
def unit (top : Float) : Float := if 1e-140 < top && top < 1e140 then 1 else top

/-- The Euclidean length of a column.  It is a NaN if an entry is one. -/
def norm (column : List Float) : Float :=
  let sizes := column.map magnitude
  let top := greatest 0 sizes
  if sizes.any Float.isNaN then 0 / 0
  else if top == 0 || !top.isFinite then top
  else unit top * (sizes.map fun x => x / unit top * (x / unit top)).sum.sqrt

/-- The length of a column from its first entry and the length of the others.  It is a NaN if
one of them is. -/
def hypotenuse (x y : Float) : Float :=
  let a := magnitude x
  let b := magnitude y
  let long := greatest a [b]
  let short := least a [b]
  if (a + b).isNaN then a + b
  else if short == 0 || !long.isFinite then long
  else long * (1 + short / long * (short / long)).sqrt

/-! ## Reflections -/

/-- A reflection that takes a column onto its first entry: the identity less `scale` times
the square of the vector that starts with one and goes on as `tail`, and then with zeros. -/
structure Reflection where
  /-- The first entry of the reflected column; the others are zero. -/
  pivot : Float
  /-- The factor of the square. -/
  scale : Float
  /-- The vector after its first entry, up to its last entry that is not zero. -/
  tail : List Float

/-- A list without the zeros at its end. -/
def dropEndZeros (l : List Float) : List Float := (l.reverse.dropWhile (· == 0)).reverse

namespace Reflection

/-- The reflection of a column that starts with `x` and is not zero below it.  The sign of
the pivot is opposite to that of `x`, so that no digits cancel. -/
def onto (x : Float) (rest : List Float) : Reflection :=
  let length := hypotenuse x (norm rest)
  let pivot := if x < 0 then length else -length
  ⟨pivot, (pivot - x) / pivot, dropEndZeros (rest.map (· * (1 / (x - pivot))))⟩

/-- The length below which a column is raised before it is reflected, so that there is an
inverse of what its entries are divided by: two to the power -969. -/
def shortLength : Float := 2.004168360008973e-292

/-- The reflection of a column onto its first entry. -/
def ofColumn : List Float → Reflection
  | [] => ⟨0, 0, []⟩
  | x :: rest =>
      if rest.all (· == 0) then ⟨x, 0, []⟩
      else if hypotenuse x (norm rest) < shortLength then
        let h := onto (x / shortLength) (rest.map (· / shortLength))
        { h with pivot := h.pivot * shortLength }
      else onto x rest

/-- A column under a reflection. -/
def apply (h : Reflection) (column : List Float) : List Float :=
  match column with
  | [] => []
  | y :: ys =>
      if h.scale == 0 then y :: ys
      else
        let shift := h.scale * (y + dot h.tail ys)
        (y - shift) :: (List.zipWith (fun a b => a - shift * b) ys h.tail ++
          ys.drop h.tail.length)

/-- Whether a column is zero in the rows on which a reflection acts. -/
def misses (h : Reflection) (column : List Float) : Bool :=
  (column.take (h.tail.length + 1)).all (· == 0)

/-- Columns under a reflection, up to the last one that it does not miss. -/
def applyAll (h : Reflection) : List (List Float) → List (List Float)
  | [] => []
  | column :: columns =>
      if h.misses column && columns.all h.misses then column :: columns
      else h.apply column :: applyAll h columns

end Reflection

/-! ## Columns -/

/-- A column during elimination. -/
structure Column where
  /-- Its place in the matrix. -/
  place : Nat
  /-- Its entries in the rows that are finished, from the last one up. -/
  above : List Float
  /-- Its entries in the rows that are left. -/
  below : List Float
  /-- The length of the entries that are left. -/
  length : Float
  /-- The length when it was last formed from the entries. -/
  formed : Float

namespace Column

/-- A column of which no row is finished. -/
def start (place : Nat) (entries : List Float) : Column :=
  ⟨place, [], entries, norm entries, norm entries⟩

/-- The square root of the distance from one to the next number below it. -/
def lengthTolerance : Float := 1.0536712127723509e-8

/-- A column whose first row is finished, with these entries in the rows that were left.
Its length is reduced by the first of them, and formed anew where that would cancel. -/
def advance (c : Column) (entries : List Float) : Column :=
  let head := entries.headD 0
  let rest := entries.tail
  let ratio := magnitude head / c.length
  let part := 1 - ratio * ratio
  let kept := if 0 < part then part else 0
  let drift := c.length / c.formed
  if c.length == 0 then ⟨c.place, head :: c.above, rest, c.length, c.formed⟩
  else if kept * (drift * drift) ≤ lengthTolerance then
    ⟨c.place, head :: c.above, rest, norm rest, norm rest⟩
  else ⟨c.place, head :: c.above, rest, c.length * kept.sqrt, c.formed⟩

/-- The entries of a column of the triangular factor, down to its pivot. -/
def finish (c : Column) (pivot : Float) : List Float := c.above.reverse ++ [pivot]

end Column

/-! ## Elimination -/

/-- How the next column is chosen. -/
structure Choice where
  /-- The next one of a leftmost column and others, and the others that are left. -/
  next : Column → List Column → Column × List Column
  /-- Whether columns are exchanged. -/
  exchanges : Bool

/-- The leftmost column is next. -/
def leftmost : Choice := ⟨fun column columns => (column, columns), false⟩

/-- The longest of a leftmost column and others, the first one among equals.  The leftmost one
takes its place.  The search is staggered after an even number of rows. -/
def longestFirst (column : Column) (columns : List Column) : Column × List Column :=
  match greatestPlace (column.above.length % 2 == 0) column.length
      (columns.map Column.length) with
  | 0 => (column, columns)
  | place + 1 =>
      match columns[place]? with
      | some next => (next, columns.set place column)
      | none => (column, columns)

/-- The longest column is next. -/
def longest : Choice := ⟨longestFirst, true⟩

/-- The first entries of columns. -/
def heads (columns : List (List Float)) : List Float := columns.map fun c => c.headD 0

/-- A column of the triangular factor, with its place in the matrix. -/
structure Finished where
  /-- The place in the matrix. -/
  place : Nat
  /-- The entries down to the pivot. -/
  entries : List Float

/-- What up to `count` reflections of `columns` leave behind: the columns of the triangular
factor, each with the row that they leave of the columns that went along. -/
def eliminate (choice : Choice) :
    Nat → List Column → List (List Float) → List (Finished × List Float)
  | 0, _, _ => []
  | _ + 1, [], _ => []
  | count + 1, column :: columns, along =>
      let (next, others) := choice.next column columns
      let h := Reflection.ofColumn next.below
      let reflected := List.zipWith Column.advance others (h.applyAll (others.map Column.below))
      let along := along.map h.apply
      (⟨next.place, next.finish h.pivot⟩, heads along) ::
        eliminate choice count reflected (along.map List.tail)

/-- The columns of the triangular factor do not depend on the columns that go along. -/
theorem map_fst_eliminate (choice : Choice) (count : Nat) (columns : List Column)
    (along along' : List (List Float)) :
    (eliminate choice count columns along).map Prod.fst =
      (eliminate choice count columns along').map Prod.fst := by
  induction count generalizing columns along along' with
  | zero => rfl
  | succ count ih =>
      cases columns with
      | nil => rfl
      | cons column columns =>
          simp only [eliminate, List.map_cons]
          rw [ih]

/-- The columns of a matrix before elimination. -/
def columnsOf (m : Dense Float) : List Column :=
  (List.range m.columns).map fun j => Column.start j (m.column j)

/-- The upper triangular matrix with these columns, each down to its diagonal entry. -/
def upper (size : Nat) (columns : List Finished) : Dense Float :=
  Dense.ofFn size size fun i j => ((columns.map Finished.entries).getD j []).getD i 0

/-- The factors of a matrix whose columns are taken by a choice. -/
def factor (choice : Choice) (screening : Screening Float) (single : Substitution)
    (m : Dense Float) : Factorization Float :=
  let steps := eliminate choice m.rows (columnsOf m) (Dense.identity m.rows).columnList
  let places := (steps.map Prod.fst).map Finished.place
  { q := Dense.ofFn m.rows m.rows fun i j => ((steps.map Prod.snd).getD j []).getD i 0
    r := upper m.rows (steps.map Prod.fst)
    order := if choice.exchanges then some places else none
    screening := screening
    single := single }

/-- The triangular factor of a matrix whose columns are taken by a choice. -/
def triangle (choice : Choice) (m : Dense Float) : Dense Float :=
  upper m.rows ((eliminate choice m.rows (columnsOf m) []).map Prod.fst)

theorem triangle_eq (choice : Choice) (screening : Screening Float) (single : Substitution)
    (m : Dense Float) : triangle choice m = (factor choice screening single m).r := by
  simp only [triangle, factor]
  rw [map_fst_eliminate]

/-! ## Routines -/

/-- Reflections by a choice of the columns, with a screening of the pivots and a way to solve
for a single column. -/
def routine (choice : Choice) (screening : Screening Float) (single : Substitution) :
    Routine Float where
  factor m := factor choice screening single m
  triangle m := triangle choice m
  triangle_eq m := triangle_eq choice screening single m

/-- Reflections of the columns from left to right. -/
def plain : Routine Float :=
  routine leftmost Screening.leading { addsUp := false, inverts := false }

/-- Reflections of the longest remaining column first. -/
def pivoted : Routine Float :=
  routine longest Screening.smallest { addsUp := true, inverts := false }

end LeastSquares.Householder

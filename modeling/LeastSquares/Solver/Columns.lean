import LeastSquares.Dense.Basic

/-!
# Right-hand sides

What a system of equations is solved for comes as `Columns`: a single one, those of a
matrix, or those of a `Stack` of matrices along further axes.  Solutions have the same
form.

`Columns.ofNArray` reads an array in this way.  Its last two axes are rows and columns, and
there has to be one row for each unknown.
-/

namespace LeastSquares

universe u

/-! ## Stacks -/

/-- Matrices of one shape that are stacked along further axes. -/
structure Stack (α : Type u) where
  /-- The lengths of the further axes, outermost first. -/
  outer : List Nat
  /-- The rows of each member. -/
  rows : Nat
  /-- The columns of each member. -/
  columns : Nat
  /-- The members, the last one of the outer indices running fastest. -/
  members : List (Dense α)
  /-- There is one member for each choice of outer indices. -/
  length_members : members.length = Nesting.volume outer

variable {α : Type u}

namespace Stack

/-- The stack with these entries in row-major order. -/
def ofEntries [Zero α] (outer : List Nat) (rows columns : Nat) (entries : List α) : Stack α where
  outer := outer
  rows := rows
  columns := columns
  members := (NArray.splitRows (rows * columns) (Nesting.volume outer) entries).map fun member =>
    Dense.ofFn rows columns fun i j => member.getD (i * columns + j) 0
  length_members := by rw [List.length_map, NArray.length_splitRows]

/-- The lengths of all axes. -/
def shape (s : Stack α) : List Nat := s.outer ++ [s.rows, s.columns]

/-- All entries, member by member and row by row. -/
def entries (s : Stack α) : List α := s.members.flatMap fun m => m.entries.flatten

/-- The stack with every entry replaced by its image. -/
def map {β : Type u} (f : α → β) (s : Stack α) : Stack β where
  outer := s.outer
  rows := s.rows
  columns := s.columns
  members := s.members.map (Dense.map f)
  length_members := by rw [List.length_map]; exact s.length_members

/-- The stack with the members along its first axis, each of them `size` matrices, taken from
other places of it. -/
def rearrange [Zero α] (s : Stack α) (size : Nat) (source : Nat → Nat) : Stack α where
  outer := s.outer
  rows := s.rows
  columns := s.columns
  members := (List.range (Nesting.volume s.outer)).map fun k =>
    s.members.getD (source (k / size) * size + k % size) (Dense.zeros s.rows s.columns)
  length_members := by rw [List.length_map, List.length_range]

end Stack

/-! ## Columns -/

/-- A right-hand side, or a solution. -/
inductive Columns (α : Type u) where
  /-- A single column. -/
  | vector (v : List α)
  /-- The columns of a matrix. -/
  | matrix (m : Dense α)
  /-- The columns of the members of a stack. -/
  | stack (s : Stack α)

namespace Columns

/-- An array with one axis or more as columns of a given length.  The last two axes are rows and
columns. -/
def ofNArray [Zero α] (length : Nat) (a : NArray α) : Except Failure (Columns α) :=
  match a with
  | ⟨[n], entries, _⟩ =>
      if n = length then .ok (vector entries) else .error .shapeMismatch
  | ⟨[n, m], entries, h⟩ =>
      if n = length then .ok (matrix (Dense.ofArray n m entries h)) else .error .shapeMismatch
  | ⟨shape, entries, _⟩ =>
      match shape.reverse with
      | m :: n :: outer =>
          if n = length then .ok (stack (Stack.ofEntries outer.reverse n m entries))
          else .error .shapeMismatch
      | _ => .error .shapeMismatch

/-- The columns with every entry replaced by its image. -/
def map {β : Type u} (f : α → β) : Columns α → Columns β
  | vector v => vector (v.map f)
  | matrix m => matrix (m.map f)
  | stack s => stack (s.map f)

end Columns

end LeastSquares

import LeastSquares.Dense.Basic

/-!
# Products of vectors and matrices

The sums that the kernels are made of, over any type of scalars: the dot product
of two vectors, a matrix applied to a vector, and the pairwise dot products of the
rows of two matrices.

Every entry of a product is a `dot`, by `get?_ofDots` and `getElem?_apply`.
-/

namespace LeastSquares

universe u

variable {α : Type u} [Zero α] [Add α] [Mul α]

/-- The sum of the products of the entries at equal positions. -/
def dot (v w : List α) : α := (List.zipWith (· * ·) v w).sum

namespace Dense

/-- The dot products of the rows with a vector. -/
def apply (m : Dense α) (v : List α) : List α := m.entries.map fun row => dot row v

/-- The dot products of the members of one list of vectors with those of another. -/
def ofDots (xs ys : List (List α)) : Dense α where
  rows := xs.length
  columns := ys.length
  entries := xs.map fun x => ys.map fun y => dot x y
  length_entries := by simp
  length_row := by
    intro row h
    obtain ⟨x, _, rfl⟩ := List.mem_map.mp h
    simp

/-- A matrix times the transpose of another: the dot products of their rows. -/
def timesTranspose (x y : Dense α) : Dense α := ofDots x.entries y.entries

/-- The transpose of a matrix times the matrix: the dot products of its columns. -/
def gram (m : Dense α) : Dense α := ofDots m.columnList m.columnList

/-- Two matrices of one shape added entry by entry. -/
def plus (a b : Dense α) : Dense α := ofFn a.rows a.columns fun i j => a.entry i j + b.entry i j

/-- A matrix with the same amount added to every entry. -/
def plusEverywhere (a : Dense α) (x : α) : Dense α :=
  ofFn a.rows a.columns fun i j => a.entry i j + x

/-! ## Entries of products -/

@[simp] theorem length_apply (m : Dense α) (v : List α) : (m.apply v).length = m.rows := by
  rw [apply, List.length_map, m.length_entries]

theorem getElem?_apply (m : Dense α) (v : List α) (i : Nat) :
    (m.apply v)[i]? = m.entries[i]?.map fun row => dot row v :=
  List.getElem?_map

theorem get?_ofDots (xs ys : List (List α)) (i j : Nat) :
    (ofDots xs ys).get? i j =
      xs[i]?.bind fun x => ys[j]?.map fun y => dot x y := by
  simp only [get?, ofDots, List.getElem?_map]
  cases xs[i]? with
  | none => rfl
  | some x => simp

@[simp] theorem rows_gram (m : Dense α) : m.gram.rows = m.columns := length_columnList m

@[simp] theorem columns_gram (m : Dense α) : m.gram.columns = m.columns := length_columnList m

end Dense

end LeastSquares

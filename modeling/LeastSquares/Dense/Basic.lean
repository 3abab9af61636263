import LeastSquares.Dense.Nesting

/-!
# Dense matrices

A `Dense` matrix is a list of rows of one width.  Both sizes are kept, because a
matrix without rows still has a width.

`ofFn` makes a matrix from its entries and `get?` reads them; the two are
related by `get?_ofFn`.  `modify` changes one entry and no other, by `get?_modify`.
`ofNArray?` takes an array of at most two axes: a scalar is a matrix of one entry and
a single axis is a matrix of one row.  `toNArray` copies a matrix into an array, which
is read as the same matrix (`ofNArray?_toNArray`).
-/

namespace LeastSquares

universe u v

/-- A list of rows of one width. -/
@[ext]
structure Dense (α : Type u) where
  /-- The number of rows. -/
  rows : Nat
  /-- The number of columns. -/
  columns : Nat
  /-- The entries, row by row. -/
  entries : List (List α)
  /-- There are as many rows as there should be. -/
  length_entries : entries.length = rows
  /-- Every row has one entry for each column. -/
  length_row : ∀ row ∈ entries, row.length = columns

namespace Dense

variable {α : Type u} {β : Type v}

/-! ## Making -/

/-- The matrix whose entry in row `i` and column `j` is `f i j`. -/
def ofFn (rows columns : Nat) (f : Nat → Nat → α) : Dense α where
  rows := rows
  columns := columns
  entries := (List.range rows).map fun i => (List.range columns).map fun j => f i j
  length_entries := by simp
  length_row := by
    intro row h
    obtain ⟨i, _, rfl⟩ := List.mem_map.mp h
    simp

/-- The matrix of zeros. -/
def zeros [Zero α] (rows columns : Nat) : Dense α := ofFn rows columns fun _ _ => 0

/-- The matrix with the given columns. -/
def ofColumns [Zero α] (rows : Nat) (columns : List (List α)) : Dense α :=
  ofFn rows columns.length fun i j => (columns.getD j []).getD i 0

/-- How many bytes an entry takes. -/
def entryBytes : Nat := 8

/-- The matrix of zeros for sizes that may be negative or too large. -/
def zeros? [Zero α] (rows columns : Int) : Except Failure (Dense α) :=
  match NArray.sizeFailure? entryBytes [rows, columns] with
  | some failure => .error failure
  | none => .ok (zeros rows.toNat columns.toNat)

/-- The matrix with ones on the diagonal and zeros elsewhere. -/
def identity [Zero α] [One α] (size : Nat) : Dense α :=
  ofFn size size fun i j => if i = j then 1 else 0

/-- The identity matrix for a size that may be negative or too large. -/
def identity? [Zero α] [One α] (size : Int) : Except Failure (Dense α) :=
  match NArray.sizeFailure? entryBytes [size, size] with
  | some failure => .error failure
  | none => .ok (identity size.toNat)

/-- The rows of an array with two axes. -/
def ofArray (rows columns : Nat) (entries : List α)
    (h : entries.length = Nesting.volume [rows, columns]) : Dense α where
  rows := rows
  columns := columns
  entries := NArray.splitRows columns rows entries
  length_entries := NArray.length_splitRows columns rows entries
  length_row := fun _ hrow =>
    NArray.length_of_mem_splitRows
      (Nat.le_of_eq (h.trans (Nesting.volume_pair rows columns)).symm) hrow

/-- An array with at most two axes as a matrix; missing axes are added in front, with
length one. -/
def ofNArray? (a : NArray α) : Option (Dense α) :=
  match a with
  | ⟨[], entries, h⟩ => some (ofArray 1 1 entries h)
  | ⟨[n], entries, h⟩ => some (ofArray 1 n entries (h.trans (Nesting.volume_single n)))
  | ⟨[m, n], entries, h⟩ => some (ofArray m n entries h)
  | _ => none

/-! ## Reading -/

/-- The entry in row `i` and column `j`. -/
def get? (m : Dense α) (i j : Nat) : Option α := m.entries[i]?.bind fun row => row[j]?

/-- The entry in row `i` and column `j`, zero outside of the matrix. -/
def entry [Zero α] (m : Dense α) (i j : Nat) : α := (m.get? i j).getD 0

/-- Column `j`, from top to bottom. -/
def column (m : Dense α) (j : Nat) : List α := m.entries.filterMap fun row => row[j]?

/-- The entries copied into an array with two axes. -/
def toNArray (m : Dense α) : NArray α where
  shape := [m.rows, m.columns]
  entries := m.entries.flatten
  length_entries := by
    rw [NArray.length_flatten_eq_mul m.length_row, m.length_entries, Nesting.volume_pair]

/-- All columns, from left to right. -/
def columnList (m : Dense α) : List (List α) := (List.range m.columns).map m.column

/-- Whether there are as many rows as columns. -/
def isSquare (m : Dense α) : Bool := m.rows == m.columns

/-- The matrix in one line. -/
def summary (m : Dense α) : String :=
  "DenseMatrix(rows=" ++ Decimal.ofInt m.rows ++ ", cols=" ++ Decimal.ofInt m.columns ++ ")"

/-! ## Writing -/

/-- The matrix with one entry replaced by its image; all others as they are. -/
def modify (m : Dense α) (i j : Nat) (f : α → α) : Dense α where
  rows := m.rows
  columns := m.columns
  entries := m.entries.modify i fun row => row.modify j f
  length_entries := by rw [List.length_modify]; exact m.length_entries
  length_row := by
    intro row h
    obtain ⟨k, hk, rfl⟩ := List.mem_iff_getElem.mp h
    rw [List.getElem_modify]
    split
    · rw [List.length_modify]
      exact m.length_row _ (List.getElem_mem _)
    · exact m.length_row _ (List.getElem_mem _)

/-- The matrix with every entry replaced by its image. -/
def map (f : α → β) (m : Dense α) : Dense β where
  rows := m.rows
  columns := m.columns
  entries := m.entries.map fun row => row.map f
  length_entries := by rw [List.length_map]; exact m.length_entries
  length_row := by
    intro row h
    obtain ⟨old, hold, rfl⟩ := List.mem_map.mp h
    rw [List.length_map]
    exact m.length_row old hold

/-- The matrix with rows and columns exchanged. -/
def transpose [Zero α] (m : Dense α) : Dense α :=
  ofFn m.columns m.rows fun i j => m.entry j i

/-! ## Laws -/

@[simp] theorem length_columnList (m : Dense α) : m.columnList.length = m.columns := by
  simp [columnList]

theorem get?_ofFn (rows columns : Nat) (f : Nat → Nat → α) (i j : Nat) :
    (ofFn rows columns f).get? i j =
      if i < rows ∧ j < columns then some (f i j) else none := by
  simp only [get?, ofFn, List.getElem?_map]
  by_cases hi : i < rows
  · by_cases hj : j < columns <;> simp [hi, hj]
  · simp [hi]

/-- A matrix is what its copy is read as. -/
theorem ofNArray?_toNArray (m : Dense α) : ofNArray? m.toNArray = some m := by
  have hentries : NArray.splitRows m.columns m.rows m.entries.flatten = m.entries := by
    rw [← m.length_entries]
    exact NArray.splitRows_flatten m.length_row
  exact congrArg some (Dense.ext rfl rfl hentries)

theorem get?_isSome (m : Dense α) {i j : Nat} (hi : i < m.rows) (hj : j < m.columns) :
    (m.get? i j).isSome = true := by
  have hi' : i < m.entries.length := by rw [m.length_entries]; exact hi
  have hj' : j < m.entries[i].length := by
    rw [m.length_row _ (List.getElem_mem hi')]; exact hj
  simp [get?, List.getElem?_eq_getElem hi', List.getElem?_eq_getElem hj']

theorem get?_modify (m : Dense α) (i j r c : Nat) (f : α → α) :
    (m.modify i j f).get? r c =
      if r = i ∧ c = j then (m.get? r c).map f else m.get? r c := by
  simp only [get?, modify, List.getElem?_modify]
  by_cases hr : i = r
  · subst hr
    cases m.entries[i]? with
    | none => simp
    | some row =>
        by_cases hc : j = c
        · simp [hc]
        · have hc' : ¬ c = j := fun h => hc h.symm
          simp [hc, hc']
  · have hr' : ¬ r = i := fun h => hr h.symm
    simp [hr, hr']

end Dense

end LeastSquares

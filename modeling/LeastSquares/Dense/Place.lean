import LeastSquares.Dense.Layout

/-!
# Entries by their indices

Rows and columns are addressed by integers, negative ones counting from the end.  Two indices
stand for a place of a matrix (`place`), or fail in one of two ways.

An array is read and changed through two indices as well.  A `Buffer.Edit` is one change of one
entry: replacing the entry asks first whether the array may be written to, and adding to it reads
the entry before that.
-/

namespace LeastSquares

open Number

/-- The position that an index stands for along an axis of a given length. -/
def position? (length : Nat) (index : Int) : Option Nat :=
  if 0 ≤ index ∧ index < length then some index.toNat
  else if -(length : Int) ≤ index ∧ index < 0 then some (index + length).toNat
  else none

/-- Why an index cannot be used for any axis: it fits 64 bits without a sign only, or it is
no machine integer at all. -/
def indexFailure? (index : Int) : Option Failure :=
  if fitsInt64 index then none
  else if 0 ≤ index ∧ index < 18446744073709551616 then some .idRange
  else some .outOfBounds

/-- Why two indices cannot be used together: the first one that cannot be used decides. -/
def indicesFailure? (row column : Int) : Option Failure :=
  (indexFailure? row).or (indexFailure? column)

/-- The row and column that two indices stand for.  Both have to be usable before either is
compared with the shape. -/
def place (rows columns : Nat) (row column : Int) : Except Failure (Nat × Nat) :=
  match indicesFailure? row column with
  | some failure => .error failure
  | none =>
      match position? rows row, position? columns column with
      | some i, some j => .ok (i, j)
      | _, _ => .error .outOfBounds

namespace Dense

/-- The entry that two indices address. -/
def readAt (m : Dense Float) (row column : Int) : Except Failure Float :=
  (place m.rows m.columns row column).map fun (i, j) => m.entry i j

/-- The matrix with a value at the place that two indices address. -/
def writeAt (m : Dense Float) (row column : Int) (value : Except Failure Float) :
    Except Failure (Dense Float) :=
  match place m.rows m.columns row column, value with
  | .error failure, _ => .error failure
  | .ok _, .error failure => .error failure
  | .ok (i, j), .ok x => .ok (m.modify i j fun _ => x)

/-- The matrix with an amount added at the place that two indices address. -/
def addAt (m : Dense Float) (row column : Int) (amount : Except Failure Float) :
    Except Failure (Dense Float) :=
  match place m.rows m.columns row column, amount with
  | .error failure, _ => .error failure
  | .ok _, .error failure => .error failure
  | .ok (i, j), .ok x => .ok (m.modify i j (· + x))

/-- Two matrices of one shape. -/
def SameShape (m m' : Dense Float) : Prop := m'.rows = m.rows ∧ m'.columns = m.columns

theorem sameShape_of_writeAt {m m' : Dense Float} {row column : Int}
    {value : Except Failure Float} (h : m.writeAt row column value = .ok m') : m.SameShape m' := by
  unfold writeAt at h
  split at h
  · cases h
  · cases h
  · cases h
    exact ⟨rfl, rfl⟩

theorem sameShape_of_addAt {m m' : Dense Float} {row column : Int}
    {amount : Except Failure Float} (h : m.addAt row column amount = .ok m') : m.SameShape m' := by
  unfold addAt at h
  split at h
  · cases h
  · cases h
  · cases h
    exact ⟨rfl, rfl⟩

end Dense

namespace Buffer

/-- An array with two axes as the matrix of its entries, in whatever format they are. -/
def table? (b : Buffer) : Option (Dense Float) :=
  match b.array with
  | ⟨[m, n], entries, h⟩ => some (Dense.ofArray m n entries h)
  | _ => none

/-- What becomes of two indices where there are not two axes. -/
def axesFailure (row column : Int) : Failure := (indicesFailure? row column).getD .outOfBounds

/-- The entry of an array that two indices address. -/
def readAt (b : Buffer) (row column : Int) : Except Failure Float :=
  match b.table? with
  | some m => m.readAt row column
  | none => .error (axesFailure row column)

/-- The array with the entries of a matrix of its shape. -/
def withEntries (b : Buffer) (m : Dense Float) : Buffer := { b with array := m.toNArray }

/-- A change of one entry of an array. -/
inductive Edit where
  /-- Replaces the entry by a value. -/
  | write (row column : Int) (value : Datum)
  /-- Adds an amount to the entry. -/
  | add (row column : Int) (amount : Datum)

/-- The array after a change.  Writing into an array that may only be read fails before the
indices are looked at; adding to an entry of it has read the entry by then. -/
def edit (b : Buffer) : Edit → Except Failure Buffer
  | .write row column value =>
      if b.writable then
        match b.table? with
        | some m => (m.writeAt row column (b.kind.read value)).map b.withEntries
        | none => .error (axesFailure row column)
      else .error .readOnly
  | .add row column amount =>
      match b.table? with
      | some m =>
          match m.addAt row column amount.addend with
          | .ok changed => if b.writable then .ok (b.withEntries changed) else .error .readOnly
          | .error failure => .error failure
      | none => .error (axesFailure row column)

/-! ## Layouts -/

/-- Two arrays that differ in nothing but their entries. -/
structure SameLayout (b b' : Buffer) : Prop where
  kind_eq : b'.kind = b.kind
  columnMajor_eq : b'.columnMajor = b.columnMajor
  writable_eq : b'.writable = b.writable
  shape_eq : b'.array.shape = b.array.shape

theorem SameLayout.refl (b : Buffer) : b.SameLayout b := ⟨rfl, rfl, rfl, rfl⟩

variable {b b' : Buffer} {m m' : Dense Float}

theorem shape_of_table? (h : b.table? = some m) : b.array.shape = [m.rows, m.columns] := by
  unfold table? at h
  split at h
  · rename_i rows columns entries hlength harray
    cases h
    rw [harray]
    rfl
  · cases h

theorem sameLayout_withEntries (h : b.table? = some m) (hshape : m.SameShape m') :
    b.SameLayout (b.withEntries m') := by
  refine ⟨rfl, rfl, rfl, ?_⟩
  rw [shape_of_table? h, ← hshape.1, ← hshape.2]
  rfl

theorem sameLayout_of_edit {e : Edit} (h : b.edit e = .ok b') : b.SameLayout b' := by
  cases e with
  | write row column value =>
      simp only [edit] at h
      split at h
      · split at h
        · rename_i m hm
          obtain ⟨m', hm', rfl⟩ := map_eq_ok_iff.mp h
          exact sameLayout_withEntries hm (Dense.sameShape_of_writeAt hm')
        · cases h
      · cases h
  | add row column amount =>
      simp only [edit] at h
      split at h
      · rename_i m hm
        split at h
        · rename_i changed hchanged
          split at h
          · cases h
            exact sameLayout_withEntries hm (Dense.sameShape_of_addAt hchanged)
          · cases h
        · cases h
      · cases h

theorem SameLayout.rowMajor_eq (h : b.SameLayout b') : b'.rowMajor = b.rowMajor := by
  rw [rowMajor, rowMajor, h.columnMajor_eq, h.shape_eq]

/-- Whether an array is the storage of a matrix depends on its layout only. -/
theorem SameLayout.exists_toDense (h : b.SameLayout b') (hb : b.toDense = .ok m) :
    ∃ m', b'.toDense = .ok m' := by
  unfold toDense at hb
  split at hb
  · rename_i rows columns entries hlength harray
    split at hb
    · rename_i hstored
      have hshape : b'.array.shape = [rows, columns] := by rw [h.shape_eq, harray]
      have hstored' : b'.kind = .float64 ∧ b'.rowMajor = true :=
        ⟨h.kind_eq.trans hstored.1, h.rowMajor_eq.trans hstored.2⟩
      obtain ⟨kind, columnMajor, ⟨shape, entries', hlength'⟩, writable⟩ := b'
      cases hshape
      exact ⟨_, if_pos hstored'⟩
    · cases hb
  · cases hb

end Buffer

end LeastSquares

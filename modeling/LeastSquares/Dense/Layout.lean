import LeastSquares.Dense.Basic
import LeastSquares.Number.Reading

/-!
# Which values can be used as a matrix

The kernels read the entries of a matrix in place, so they take a `Dense` matrix
or a bare array whose storage already is that of one: 64-bit floating-point
entries, two axes, row after row.  Every other value is refused with a
description of what it is.

`MatrixValue.access` is the one gate in front of all kernels and solvers.
-/

namespace LeastSquares

/-- The formats in which an array can hold its entries. -/
inductive ElementKind where
  /-- 64-bit floating-point numbers. -/
  | float64
  /-- 32-bit floating-point numbers. -/
  | float32
  /-- 64-bit integers. -/
  | int64
  /-- Any other format: its name, how many bytes an entry takes, and which values it has
  entries for. -/
  | other (formatName : String) (entryBytes : Nat) (readEntry : Datum → Except Failure Float)

namespace ElementKind

instance (kind : ElementKind) : Decidable (kind = float64) :=
  match kind with
  | float64 => .isTrue rfl
  | float32 | int64 | other .. => .isFalse nofun

/-- The name of a format. -/
def name : ElementKind → String
  | float64 => "float64"
  | float32 => "float32"
  | int64 => "int64"
  | other formatName _ _ => formatName

/-- How many bytes an entry takes. -/
def bytes : ElementKind → Nat
  | float64 | int64 => 8
  | float32 => 4
  | other _ entryBytes _ => entryBytes

/-- A value as an entry of an array of this format. -/
def read : ElementKind → Datum → Except Failure Float
  | float64, d => d.entry
  | float32, d => d.entry.map Number.narrow
  | int64, d => d.integerEntry
  | other _ _ readEntry, d => readEntry d

end ElementKind

/-- A bare array: its entries, their format, whether they are stored column after column, and
whether they may be written to. -/
structure Buffer where
  /-- The format of the entries. -/
  kind : ElementKind
  /-- Whether the first index runs fastest in storage. -/
  columnMajor : Bool
  /-- The shape and the entries. -/
  array : NArray Float
  /-- Whether the entries may be written to. -/
  writable : Bool

namespace Buffer

/-- Whether the entries are stored row after row.  The order makes no difference
for an array without entries, nor with at most one axis longer than one. -/
def rowMajor (b : Buffer) : Bool :=
  !b.columnMajor || b.array.shape.any (· == 0) ||
    (b.array.shape.filter fun n => 1 < n).length ≤ 1

/-- The description of an array in a message. -/
def description (b : Buffer) : String :=
  "ndarray(ndim=" ++ Decimal.ofInt b.array.rank ++ ", dtype=" ++ b.kind.name ++
    ", c_contiguous=" ++ (Datum.bool b.rowMajor).display ++ ")"

/-- The refusal of an array as the storage of a matrix. -/
def refusal (b : Buffer) : Failure := .layout expectedStorage (.text b.description)

/-- The matrix whose storage an array is.  An array that may only be read is accepted, too. -/
def toDense (b : Buffer) : Except Failure (Dense Float) :=
  match b.array with
  | ⟨[m, n], entries, h⟩ =>
      if b.kind = .float64 ∧ b.rowMajor = true then
        .ok (Dense.ofArray m n entries h)
      else .error b.refusal
  | _ => .error b.refusal

/-- A new array of 64-bit entries stored row after row. -/
def plain (a : NArray Float) : Buffer := ⟨.float64, false, a, true⟩

/-- The array of zeros with axes of these lengths, which may be negative or too large. -/
def zeros? (kind : ElementKind) (columnMajor : Bool) (lengths : List Int) :
    Except Failure Buffer :=
  match NArray.sizeFailure? kind.bytes lengths with
  | some failure => .error failure
  | none => .ok ⟨kind, columnMajor, NArray.constant (lengths.map Int.toNat) 0, true⟩

/-- The array that a nesting describes, in a given format and order. -/
def read (kind : ElementKind) (columnMajor : Bool) (n : Nesting Datum) :
    Except Failure Buffer :=
  (NArray.read kind.read n).map fun a => ⟨kind, columnMajor, a, true⟩

end Buffer

/-- The refusal of an array of 64-bit entries with so many axes. -/
def rankRefusal (rank : Nat) : Failure :=
  .layout expectedStorage
    (.text ("ndarray(ndim=" ++ Decimal.ofInt rank ++ ", dtype=float64, c_contiguous=True)"))

namespace Dense

universe u v

/-- An array of at most two axes copied into a matrix. -/
def ofNArray {α : Type u} (a : NArray α) : Except Failure (Dense α) :=
  match ofNArray? a with
  | some m => .ok m
  | none => .error (rankRefusal a.rank)

/-- The matrix that a nesting describes, its scalars read by `f`. -/
def ofNesting {α : Type u} {β : Type v} (f : β → Except Failure α) (n : Nesting β) :
    Except Failure (Dense α) :=
  match NArray.read f n with
  | .ok a => ofNArray a
  | .error failure => .error failure

/-- The storage of a matrix. -/
def storage (m : Dense Float) : Buffer := Buffer.plain m.toNArray

/-- The storage of a matrix is accepted as the storage of that matrix. -/
theorem toDense_storage (m : Dense Float) : m.storage.toDense = .ok m := by
  have hread : m.storage.toDense =
      .ok (ofArray m.rows m.columns m.entries.flatten m.toNArray.length_entries) := rfl
  exact hread.trans (congrArg Except.ok (Option.some.inj m.ofNArray?_toNArray))

end Dense

/-- A value that is offered as a matrix. -/
inductive MatrixValue where
  /-- A dense matrix. -/
  | dense (m : Dense Float)
  /-- A bare array. -/
  | buffer (b : Buffer)
  /-- Anything else. -/
  | other (d : Datum)

namespace MatrixValue

/-- The matrix behind a value, without copying it into another layout. -/
def access : MatrixValue → Except Failure (Dense Float)
  | dense m => .ok m
  | buffer b => b.toDense
  | other d => .error (.layout expectedStorage (.text d.typeName))

/-- What a value is, in a message. -/
def description : MatrixValue → String
  | dense _ => "DenseMatrix"
  | buffer b => b.description
  | other d => d.typeName

/-- A matrix that may be missing. -/
def ofOption : Option (Dense Float) → MatrixValue
  | some m => dense m
  | none => other .null

end MatrixValue

end LeastSquares

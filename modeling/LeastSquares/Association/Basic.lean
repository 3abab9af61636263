import LeastSquares.Association.View

/-!
# Association matrices

An association matrix records weights for pairs of a row id and a column id.
The weights are kept twice, once by row and once by column, so that either
direction can be read off without a search.  Every change goes to both views.

## Interface

* `add` and `erase` change one entry; `Step` and `run` are sequences of such
  changes.
* `get?`, `contains`, `row`, `column`, `size`, `shape`, `toList`, `rowIds` and
  `columnIds` read.
* `tryAdd`, `tryErase`, `tryGet?` and `ofTriples` take arguments that have still
  to be recognised as ids and amounts.  A row that a failing `tryAdd` has made
  stays behind without entries.
-/

namespace LeastSquares

/-- A matrix of weights, by row and by column. -/
@[ext]
structure Association where
  /-- The weights by row id, then column id. -/
  rows : View
  /-- The weights by column id, then row id. -/
  columns : View

namespace Association

/-- The matrix without entries. -/
def empty : Association := ⟨∅, ∅⟩

instance : EmptyCollection Association := ⟨empty⟩

instance : Inhabited Association := ⟨empty⟩

/-! ## Changing -/

/-- The matrix with `amount` added to one entry, in both views. -/
def add (m : Association) (row column : Int) (amount : Float) : Association :=
  ⟨m.rows.add row column amount, m.columns.add column row amount⟩

/-- The matrix without one entry, in both views. -/
def erase (m : Association) (row column : Int) : Association :=
  ⟨m.rows.erase row column, m.columns.erase column row⟩

/-- A change of one entry. -/
inductive Step where
  /-- An amount is added. -/
  | add (row column : Int) (amount : Float)
  /-- The entry is removed. -/
  | erase (row column : Int)

/-- The matrix after one change. -/
def apply (m : Association) : Step → Association
  | .add row column amount => m.add row column amount
  | .erase row column => m.erase row column

/-- The matrix after a sequence of changes. -/
def run (m : Association) (steps : List Step) : Association := steps.foldl apply m

/-- The matrix of the given triples, added one after another. -/
def ofList (triples : List (Int × Int × Float)) : Association :=
  triples.foldl (fun m (row, column, amount) => m.add row column amount) ∅

/-! ## Reading -/

/-- The weight of a pair of ids, if it was ever stored. -/
def get? (m : Association) (row column : Int) : Option Float := m.rows.get? row column

/-- Whether a pair of ids has a weight. -/
def contains (m : Association) (row column : Int) : Bool := (m.get? row column).isSome

/-- The weights of a row. -/
def row (m : Association) (id : Int) : IdMap Float := m.rows.line id

/-- The weights of a column. -/
def column (m : Association) (id : Int) : IdMap Float := m.columns.line id

/-- The number of entries. -/
def size (m : Association) : Nat := m.rows.size

/-- The number of rows and the number of columns. -/
def shape (m : Association) : Nat × Nat := (m.rows.lines.size, m.columns.lines.size)

/-- The entries in row order. -/
def toList (m : Association) : List (Int × Int × Float) := m.rows.toList

/-- The row ids in ascending order. -/
def rowIds (m : Association) : Except Failure (List Int) := m.rows.sortedIds

/-- The column ids in ascending order. -/
def columnIds (m : Association) : Except Failure (List Int) := m.columns.sortedIds

/-- The matrix in one line. -/
def summary (m : Association) : String :=
  "SparseAssociationMatrix(rows=" ++ Decimal.ofInt m.shape.1 ++ ", columns=" ++
    Decimal.ofInt m.shape.2 ++ ", entries=" ++ Decimal.ofInt m.size ++ ")"

/-! ## Arguments that may be no ids and amounts -/

/-- `add` for arguments that may be unusable: the view by row is changed first, and the view by
column if that has succeeded. -/
def tryAdd (m : Association) (row column : Except Failure Int) (amount : Except Failure Float) :
    Association × Except Failure Unit :=
  match m.rows.tryAdd row column amount with
  | (rows, .error failure) => (⟨rows, m.columns⟩, .error failure)
  | (rows, .ok ()) =>
      let (columns, outcome) := m.columns.tryAdd column row amount
      (⟨rows, columns⟩, outcome)

/-- `erase` for ids that may be unusable.  An unusable column is noticed too late
for a row without entries, which is dropped. -/
def tryErase (m : Association) (row column : Except Failure Int) :
    Association × Except Failure Unit :=
  match row, column with
  | .error failure, _ => (m, .error failure)
  | .ok r, .ok c => (m.erase r c, .ok ())
  | .ok r, .error failure => (⟨m.rows.dropEmpty r, m.columns⟩, .error failure)

/-- `get?` for ids that may be unusable.  The column is looked at only in a row
that exists. -/
def tryGet? (m : Association) (row column : Except Failure Int) :
    Except Failure (Option Float) :=
  match row with
  | .error failure => .error failure
  | .ok r =>
      match m.rows.lines.get? r with
      | none => .ok none
      | some entries => column.map entries.get?

/-- The parts of a triple, each of which may be unusable. -/
abbrev Triple := Except Failure Int × Except Failure Int × Except Failure Float

/-- The matrix of triples that may be unusable, added one after another, or the first
failure. -/
def ofTriples (triples : List (Except Failure Triple)) : Except Failure Association :=
  triples.foldlM (fun m triple =>
    match triple with
    | .error failure => .error failure
    | .ok (row, column, amount) =>
        let (next, outcome) := m.tryAdd row column amount
        outcome.map fun _ => next) ∅

/-! ## Laws -/

theorem run_cons (m : Association) (step : Step) (steps : List Step) :
    m.run (step :: steps) = (m.apply step).run steps := rfl

theorem run_append (m : Association) (before after : List Step) :
    m.run (before ++ after) = (m.run before).run after :=
  List.foldl_append

/-- An addition fails in the view by row or not at all. -/
theorem snd_tryAdd (m : Association) (row column : Except Failure Int)
    (amount : Except Failure Float) :
    (m.tryAdd row column amount).2 = (m.rows.tryAdd row column amount).2 := by
  unfold tryAdd
  split
  · next hrows => rw [hrows]
  · next hrows =>
      have hok : (m.rows.tryAdd row column amount).2 = .ok () := congrArg Prod.snd hrows
      exact (View.tryAdd_ok_of_ok hok).trans hok.symm

end Association

end LeastSquares

import LeastSquares.Decimal.Rounded
import LeastSquares.Solver.Basic

/-!
# What solvers report

A solver made from settings announces itself, and a refused matrix leaves a warning
that says what would help.  Solutions are written rounded, for comparison by eye:
entries that are negligible in their column are zeros.
-/

namespace LeastSquares

/-! ## The journal -/

/-- How much a line of the journal matters. -/
inductive Severity where
  /-- Something to know. -/
  | info
  /-- Something to look at. -/
  | warning
  deriving DecidableEq, Repr

/-- A line of the journal. -/
structure JournalLine where
  /-- How much it matters. -/
  severity : Severity
  /-- What it says. -/
  text : String

/-- The line about a solver made from settings. -/
def LinearSolver.announcement (s : LinearSolver) : JournalLine :=
  ⟨.info, "Using " ++ s.backend.name ++ " for dense linear solves"⟩

/-- A threshold in the journal, with six significant digits at most. -/
def Threshold.journalText (threshold : Threshold) : String :=
  Decimal.general (threshold.value?.getD (1 / 0))

/-- The line about a failed factorization, if it leaves one. -/
def Failure.journalLine? : Failure → Option JournalLine
  | .singular size threshold rank =>
      some ⟨.warning, Decimal.ofInt size ++ " x " ++ Decimal.ofInt size ++
        " matrix is near-singular (threshold " ++ threshold.journalText ++
        "). Add more data or decrease the number of features, to <= about " ++
        Decimal.ofInt rank⟩
  | _ => none

/-! ## Rounded solutions -/

/-- How precisely a solution is kept. -/
inductive Precision where
  /-- At 53 bits. -/
  | double
  /-- Narrowed to 24 bits. -/
  | single
  deriving DecidableEq, Repr

namespace Precision

/-- A value as it is kept. -/
def keep : Precision → Float → Float
  | double, x => x
  | single, x => Number.narrow x

/-- How many digits are written after the point. -/
def places : Precision → Nat
  | double => 6
  | single => 4

end Precision

/-- Entries at most this fraction of the largest in their column are written as zeros. -/
def negligibleRatio : Float := 1e-9

/-- A column of finite entries, rounded to so many digits after the point. -/
def writtenColumn (places : Nat) (column : List Float) : List String :=
  let top := greatest 0 (column.map magnitude)
  column.map fun x =>
    if magnitude x ≤ negligibleRatio * top then "0" else Decimal.withDigits places x

/-- A solution in rounded form. -/
inductive Written where
  /-- Some entry is not finite. -/
  | nonfinite
  /-- A single column. -/
  | vector (texts : List String)
  /-- The rows of several columns. -/
  | rows (texts : List (List String))

/-- A stack in rounded form.  Its rows and columns are its first two axes.  There may be only one
entry for each of them, and zeros are all that can be written: an entry that still is an array
is no number. -/
def Stack.written (s : Stack Float) : Except Failure Written :=
  match s.shape with
  | rows :: columns :: inner =>
      if !s.entries.all Float.isFinite then .ok .nonfinite
      else if Nesting.volume inner ≠ 1 then .error .shapeMismatch
      else if s.entries.all (· == 0) then
        .ok (.rows (List.replicate rows (List.replicate columns "0")))
      else .error .notNumeric
  | _ => .error .tooFewAxes

/-- A solution as it is kept, in rounded form. -/
def Columns.written (precision : Precision) (solution : Columns Float) :
    Except Failure Written :=
  match solution.map precision.keep with
  | .vector v =>
      .ok (if v.all Float.isFinite then .vector (writtenColumn precision.places v)
        else .nonfinite)
  | .matrix m =>
      if m.entries.all fun row => row.all Float.isFinite then
        let columns := m.columnList.map (writtenColumn precision.places)
        .ok (.rows ((List.range m.rows).map fun i => columns.map fun c => c.getD i ""))
      else .ok .nonfinite
  | .stack s => s.written

end LeastSquares

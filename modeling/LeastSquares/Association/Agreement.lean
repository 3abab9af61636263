import LeastSquares.Association.Basic

/-!
# Do the two views agree?

The views of a matrix agree when every line of either view has an entry and every
entry of either view stands in the other with the same weight.
`fault?` looks for the first place where this fails: the rows before the columns,
each in order of insertion, an empty line before its entries, a missing entry
before a difference.
-/

namespace LeastSquares

/-- One of the two views of an association matrix. -/
inductive Side where
  /-- The view by row. -/
  | row
  /-- The view by column. -/
  | column
  deriving DecidableEq, Repr

namespace Side

/-- The name of a side. -/
def name : Side → String
  | row => "row"
  | column => "column"

/-- The other side. -/
def opposite : Side → Side
  | row => column
  | column => row

end Side

/-- A place where the two views of a matrix disagree. -/
inductive Fault where
  /-- A line without entries. -/
  | emptyLine (side : Side) (outer : Int)
  /-- An entry that the other view does not have. -/
  | missing (side : Side) (outer inner : Int)
  /-- An entry whose weight differs from that of the other view. -/
  | differing (side : Side) (outer inner : Int) (weight counterpart : Float)

namespace Fault

/-- The message about a fault. -/
def message : Fault → String
  | emptyLine side outer =>
      side.name ++ " " ++ Decimal.ofInt outer ++ " is present with no entries"
  | missing side outer inner =>
      "entry (" ++ side.name ++ "=" ++ Decimal.ofInt outer ++ ", " ++ side.opposite.name ++ "=" ++
        Decimal.ofInt inner ++ ") is missing from the " ++ side.opposite.name ++ " view"
  | differing side outer inner weight counterpart =>
      "entry (" ++ side.name ++ "=" ++ Decimal.ofInt outer ++ ", " ++ side.opposite.name ++ "=" ++
        Decimal.ofInt inner ++ ") has value " ++ Decimal.ofFloat weight ++
        " but mirror holds " ++ Decimal.ofFloat counterpart

/-- The report of a fault. -/
def report (fault : Fault) : Report :=
  ⟨.invariant, fault.message, some .invariantViolation, none⟩

end Fault

/-- Whether two weights count as the same: numerically equal, or both NaN. -/
def sameWeight (x y : Float) : Bool := x == y || (x.isNaN && y.isNaN)

theorem sameWeight_self (x : Float) : sameWeight x x = true := by
  rcases Number.beq_self_or_isNaN x with h | h
  · simp only [sameWeight, h, Bool.true_or]
  · simp only [sameWeight, h, Bool.and_self, Bool.or_true]

theorem sameWeight_comm (x y : Float) : sameWeight x y = sameWeight y x := by
  rw [sameWeight, sameWeight, Number.beq_comm, Bool.and_comm]

theorem sameWeight_iff {x y : Float} : sameWeight x y = true ↔ x == y ∨ x.isNaN ∧ y.isNaN := by
  rw [sameWeight, Bool.or_eq_true, Bool.and_eq_true]

namespace View

/-- The fault of one entry of the view `side` against the other view. -/
def entryFault? (other : View) (side : Side) (outer inner : Int) (weight : Float) :
    Option Fault :=
  match other.get? inner outer with
  | none => some (.missing side outer inner)
  | some counterpart =>
      if sameWeight counterpart weight then none
      else some (.differing side outer inner weight counterpart)

/-- The first fault of one line of the view `side` against the other view. -/
def lineFault? (other : View) (side : Side) (outer : Int) (entries : IdMap Float) :
    Option Fault :=
  if entries.isEmpty then some (.emptyLine side outer)
  else entries.entries.findSome? fun (inner, weight) =>
    other.entryFault? side outer inner weight

/-- The first fault of the view `side` against the other view. -/
def fault? (v other : View) (side : Side) : Option Fault :=
  v.lines.entries.findSome? fun (outer, entries) => other.lineFault? side outer entries

end View

namespace Association

/-- The first fault of a matrix, if there is one. -/
def fault? (m : Association) : Option Fault :=
  (m.rows.fault? m.columns .row).or (m.columns.fault? m.rows .column)

end Association

end LeastSquares

import LeastSquares.Decimal.Read
import LeastSquares.Dense.Nesting
import LeastSquares.Text.Numeral

/-!
# Numbers in loosely typed values

Amounts that are added, entries of arrays and ids are read from values of any
type.  Truth values count as zero and one everywhere.  An integer becomes the
nearest floating-point value, if there is a finite one.  A text counts as the number
that it spells where an entry is put into an array, and nowhere else.
-/

namespace LeastSquares

open Number

/-- An integer as a floating-point number. -/
def Number.ofInt (n : Int) : Except Failure Float :=
  match ofInt? n with
  | some x => .ok x
  | none => .error .numberRange

namespace Datum

/-- The value of a truth value as a number. -/
def ofBool (b : Bool) : Float := if b then 1.0 else 0.0

/-- A value as an amount to be added to a number. -/
def amount : Datum → Except Failure Float
  | bool b => .ok (ofBool b)
  | int n => Number.ofInt n
  | float x => .ok x
  | _ => .error .notNumeric

/-- A text as a floating-point number. -/
def ofText (s : String) : Except Failure Float :=
  match (Text.numeral? s).bind Decimal.readFloat? with
  | some x => .ok x
  | none => .error .textForNumber

/-- An integer as an entry of an array of 64-bit integers. -/
def ofWhole (n : Int) : Except Failure Float :=
  if fitsInt64 n then .ok (Float.ofInt n) else .error .numberRange

/-- A value as an entry of an array of floating-point numbers.  Nothing is a NaN. -/
def entry : Datum → Except Failure Float
  | null => .ok (0.0 / 0.0)
  | bool b => .ok (ofBool b)
  | int n => Number.ofInt n
  | float x => .ok x
  | text s => ofText s
  | list _ => .error .ragged
  | record _ => .error .notNumeric

/-- A value as an entry of an array of 64-bit integers, toward zero. -/
def integerEntry : Datum → Except Failure Float
  | bool b => .ok (ofBool b)
  | int n => ofWhole n
  | float x =>
      match wholePart? x with
      | some n => ofWhole n
      | none => .error (if x.isNaN then .nanForInteger else .numberRange)
  | text s =>
      match (Text.numeral? s).bind Decimal.readInt? with
      | some n => ofWhole n
      | none => .error .textForNumber
  | null | list _ | record _ => .error .notNumeric

/-- A value as an id. -/
def id : Datum → Except Failure Int
  | bool b => .ok (if b then 1 else 0)
  | int n => .ok n
  | float x =>
      match wholePart? x with
      | some n => if Float.ofInt n == x then .ok n else .error .compositeId
      | none => .error .compositeId
  | _ => .error .compositeId

mutual

/-- The nesting of a value: lists are nested and all other values are scalars. -/
def nesting : Datum → Nesting Datum
  | list items => .node (nestings items)
  | d => .leaf d

/-- The nestings of a list of values. -/
def nestings : List Datum → List (Nesting Datum)
  | [] => []
  | d :: rest => nesting d :: nestings rest

end

/-- Whether a value stands by itself in an array: it is neither a text nor a number that fits a
machine word. -/
def standsAlone : Datum → Bool
  | null | record _ => true
  | int n => !(fitsInt64 n || 0 ≤ n && n < 18446744073709551616)
  | _ => false

/-- Whether a value is a text. -/
def isText : Datum → Bool
  | text _ => true
  | _ => false

/-- What becomes of adding an array of values to one entry.  Values that stand by themselves
make all of them be added one by one.  Otherwise a text makes the array one of texts.  In the
end the sums do not fit into one entry. -/
def sumFailure (entries : List Datum) : Failure :=
  if entries.any standsAlone then
    match readEach amount entries with
    | .error failure => failure
    | .ok _ => .shapeMismatch
  else if entries.any isText then .textInSum
  else .shapeMismatch

/-- A value as an amount to be added to an entry of an array.  A list is an array of
amounts. -/
def addend (d : Datum) : Except Failure Float :=
  match d with
  | list _ =>
      match NArray.read .ok d.nesting with
      | .error failure => .error failure
      | .ok a => .error (sumFailure a.entries)
  | text _ => .error .textInSum
  | d => d.amount

/-- The parts of a value that is taken apart as a triple: the members of a list,
the characters of a text or the names in a record. -/
def parts : Datum → Except Failure (List Datum)
  | list items => .ok items
  | text s => .ok (s.toList.map fun c => text (String.singleton c))
  | record fields => .ok (fields.map fun field => text field.1)
  | _ => .error .noParts

/-- A value as a row id, a column id and an amount. -/
def triple (d : Datum) :
    Except Failure (Except Failure Int × Except Failure Int × Except Failure Float) :=
  match d.parts with
  | .error failure => .error failure
  | .ok [row, column, weight] => .ok (row.id, column.id, weight.amount)
  | .ok _ => .error .partCount

end Datum

end LeastSquares

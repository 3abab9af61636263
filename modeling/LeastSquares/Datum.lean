import LeastSquares.Decimal.Shortest
import LeastSquares.Number.Binary
import LeastSquares.Text.Quoted

/-!
# Loosely typed values

Settings, operands and error messages deal in values whose type is known only
when they are looked at.  A `Datum` is such a value: nothing, a truth value, an
integer of any size, a floating-point number, a text, a list or a record.

`display` is its written form in messages and `typeName` the name of its type
there.
-/

namespace LeastSquares

/-- A value whose type is known only when it is looked at. -/
inductive Datum where
  /-- Nothing. -/
  | null
  /-- A truth value. -/
  | bool (b : Bool)
  /-- An integer of any size. -/
  | int (n : Int)
  /-- A floating-point number. -/
  | float (x : Float)
  /-- A text. -/
  | text (s : String)
  /-- A list of values. -/
  | list (items : List Datum)
  /-- Named values, in order. -/
  | record (fields : List (String × Datum))

namespace Datum

instance : Inhabited Datum := ⟨null⟩

/-- The name of the type of a value. -/
def typeName : Datum → String
  | null => "NoneType"
  | bool _ => "bool"
  | int _ => "int"
  | float _ => "float"
  | text _ => "str"
  | list _ => "list"
  | record _ => "dict"

mutual

/-- The written form of a value. -/
def display : Datum → String
  | null => "None"
  | bool true => "True"
  | bool false => "False"
  | int n => Decimal.ofInt n
  | float x => Decimal.ofFloat x
  | text s => Text.quoted s
  | list items => "[" ++ ", ".intercalate (displayItems items) ++ "]"
  | record fields => "\x7b" ++ ", ".intercalate (displayFields fields) ++ "\x7d"

/-- The written forms of the members of a list. -/
def displayItems : List Datum → List String
  | [] => []
  | d :: rest => display d :: displayItems rest

/-- The written forms of the members of a record, each with its name. -/
def displayFields : List (String × Datum) → List String
  | [] => []
  | (name, d) :: rest => (Text.quoted name ++ ": " ++ display d) :: displayFields rest

end

end Datum

end LeastSquares

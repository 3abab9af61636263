import LeastSquares.Datum
import LeastSquares.Decimal.Read
import LeastSquares.Number.Binary
import LeastSquares.Text.Blank

/-!
# Reading a single setting

There are two settings, a switch and a ratio.  Their values arrive loosely typed,
often as text.  `Datum.flag` and `Datum.ratio` say which values count as a truth
value and as a number, and `Datum.cutoff` which numbers lie strictly between zero
and one.  A value that does not count is refused for a `Setting.Cause`.
-/

namespace LeastSquares

/-- A thing that can be set. -/
inductive Setting where
  /-- Whether the accelerated backend is used. -/
  | nativeMath
  /-- The ratio of pivots below which a matrix counts as singular. -/
  | singularityThreshold
  deriving DecidableEq, Repr

namespace Setting

/-- All settings, in the order in which they are read. -/
def all : List Setting := [nativeMath, singularityThreshold]

/-- The name of a setting. -/
def name : Setting → String
  | nativeMath => "native_math"
  | singularityThreshold => "singularity_threshold"

/-- The environment variable of a setting. -/
def environmentName : Setting → String
  | nativeMath => "ALS_LINALG_NATIVE_MATH"
  | singularityThreshold => "ALS_LINALG_SINGULARITY_THRESHOLD"

/-- Why a value is refused. -/
inductive Cause where
  /-- A value stands for no truth value although it is of a type that could. -/
  | boolParsing
  /-- A value is of a type that has no truth values. -/
  | boolType
  /-- A text stands for no number. -/
  | floatParsing
  /-- A value is of a type that has no numbers, or beyond their range. -/
  | floatType
  /-- A number is not above its lower bound. -/
  | greaterThan
  /-- A number is not below its upper bound. -/
  | lessThan
  /-- No setting has that name. -/
  | unknownName
  /-- Settings do not change once they are made. -/
  | frozen
  deriving DecidableEq, Repr

namespace Cause

/-- The tag of a cause, for machines. -/
def tag : Cause → String
  | boolParsing => "bool_parsing"
  | boolType => "bool_type"
  | floatParsing => "float_parsing"
  | floatType => "float_type"
  | greaterThan => "greater_than"
  | lessThan => "less_than"
  | unknownName => "extra_forbidden"
  | frozen => "frozen_instance"

/-- The message of a cause, for people. -/
def message : Cause → String
  | boolParsing => "Input should be a valid boolean, unable to interpret input"
  | boolType => "Input should be a valid boolean"
  | floatParsing => "Input should be a valid number, unable to parse string as a number"
  | floatType => "Input should be a valid number"
  | greaterThan => "Input should be greater than 0"
  | lessThan => "Input should be less than 1"
  | unknownName => "Extra inputs are not permitted"
  | frozen => "Instance is frozen"

end Cause

end Setting

open Setting (Cause)

/-! ## Truth values -/

/-- The words for true. -/
def trueWords : List String := ["1", "on", "t", "true", "y", "yes"]

/-- The words for false. -/
def falseWords : List String := ["0", "off", "f", "false", "n", "no"]

/-- The truth value that a word stands for, in any case of its ASCII letters. -/
def flagOfWord (s : String) : Except Cause Bool :=
  if s.toLower ∈ trueWords then .ok true
  else if s.toLower ∈ falseWords then .ok false
  else .error .boolParsing

/-- The truth value that an integer stands for. -/
def flagOfInt (n : Int) : Except Cause Bool :=
  if n = 1 then .ok true else if n = 0 then .ok false else .error .boolParsing

namespace Datum

/-- A value as a truth value.  A number has to be whole and to fit 64 bits before it
is looked at. -/
def flag : Datum → Except Cause Bool
  | bool b => .ok b
  | text s => flagOfWord s
  | int n => if Number.fitsInt64 n then flagOfInt n else .error .boolType
  | float x =>
      match Number.wholePart? x with
      | some n =>
          if Float.ofInt n == x && -9223372036854775808 < x && x < 9223372036854775808 then
            flagOfInt n
          else .error .boolType
      | none => .error .boolType
  | _ => .error .boolType

end Datum

/-! ## Numbers -/

/-- A text without its underscores, if each of them stands between two other
characters. -/
def withoutUnderscores? (cs : List Char) : Option (List Char) :=
  if cs.head? = some '_' ∨ cs.getLast? = some '_' ∨ ('_', '_') ∈ cs.zip cs.tail ∨ '_' ∉ cs then none
  else some (cs.filter fun c => decide (c ≠ '_'))

/-- The number that a text stands for, with spaces around it or single underscores
inside, but not both. -/
def ratioOfText (s : String) : Except Cause Float :=
  match Decimal.readFloat? (Text.trim Text.isSpace s.toList) with
  | some x => .ok x
  | none =>
      match (withoutUnderscores? s.toList).bind Decimal.readFloat? with
      | some x => .ok x
      | none => .error .floatParsing

/-- A number strictly between zero and one. -/
abbrev Cutoff := { x : Float // 0 < x ∧ x < 1 }

/-- A number as a cutoff.  A NaN is on no side of zero, so it counts as too large. -/
def cutoffOf (x : Float) : Except Cause Cutoff :=
  if h : 0 < x ∧ x < 1 then .ok ⟨x, h⟩
  else if x ≤ 0 then .error .greaterThan
  else .error .lessThan

namespace Datum

/-- A value as a number. -/
def ratio : Datum → Except Cause Float
  | bool b => .ok (if b then 1 else 0)
  | int n =>
      match Number.ofInt? n with
      | some x => .ok x
      | none => .error .floatType
  | float x => .ok x
  | text s => ratioOfText s
  | _ => .error .floatType

/-- A value as a cutoff. -/
def cutoff (d : Datum) : Except Cause Cutoff := d.ratio.bind cutoffOf

end Datum

end LeastSquares

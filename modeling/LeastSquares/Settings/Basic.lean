import LeastSquares.Failure
import LeastSquares.Settings.Setting

/-!
# Settings

`Settings` are the switch and the cutoff that select and tune a solver.  They are
made from named values by `ofFields`, which refuses with one `Refusal` for each
field that is wrong: the known ones in the order in which they are declared, then
the unknown ones in the order in which they came.

`ofEnvironment` makes them from the variables of a process and reports the first
refusal together with the text that caused it.
-/

namespace LeastSquares

open Setting (Cause)

/-- The cutoff where none is set. -/
def Cutoff.default : Cutoff := ⟨1.0e-5, by decide +kernel⟩

/-- Which solver is used and when it refuses a matrix. -/
structure Settings where
  /-- Whether the accelerated backend is used. -/
  nativeMath : Bool := false
  /-- The ratio of the smallest to the largest pivot below which a matrix counts as
  singular. -/
  threshold : Cutoff := Cutoff.default

/-- A field that is wrong. -/
structure Refusal where
  /-- The name of the field. -/
  field : String
  /-- What is wrong with it. -/
  cause : Cause
  deriving DecidableEq, Repr

namespace Settings

/-- The values of fields, by name. -/
abbrev Fields := List (String × Datum)

/-- The value of a setting in a list of fields, read by `f`, or `fallback` where it is not
given. -/
def readField {α : Type} (s : Setting) (f : Datum → Except Cause α) (fallback : α)
    (fields : Fields) : Except Refusal α :=
  match fields.lookup s.name with
  | none => .ok fallback
  | some d => (f d).mapError fun cause => ⟨s.name, cause⟩

/-- The refusals of the fields that no setting has the name of. -/
def unknownFields (fields : Fields) : List Refusal :=
  (fields.filter fun entry => !(Setting.all.map Setting.name).contains entry.1).map
    fun entry => ⟨entry.1, .unknownName⟩

/-- The refusal in a result, if it is one. -/
def refusals {α : Type} : Except Refusal α → List Refusal
  | .ok _ => []
  | .error refusal => [refusal]

/-- Settings from named values, or the refusals, the first one apart. -/
def ofFields (fields : Fields) : Except (Refusal × List Refusal) Settings :=
  match readField .nativeMath Datum.flag false fields,
    readField .singularityThreshold Datum.cutoff Cutoff.default fields, unknownFields fields with
  | .error refusal, threshold, unknown => .error (refusal, refusals threshold ++ unknown)
  | .ok _, .error refusal, unknown => .error (refusal, unknown)
  | .ok _, .ok _, refusal :: unknown => .error (refusal, unknown)
  | .ok nativeMath, .ok threshold, [] => .ok ⟨nativeMath, threshold⟩

/-- Settings in one line. -/
def summary (s : Settings) : String :=
  "MatrixConfig(native_math=" ++ (Datum.bool s.nativeMath).display ++
    ", singularity_threshold=" ++ Decimal.ofFloat s.threshold.val ++ ")"

/-- The refusal of a new value for a field: settings do not change. -/
def assign (_ : Settings) (field : String) (_ : Datum) : Refusal := ⟨field, .frozen⟩

/-- An attempt to give a field a new value: the settings after it, and its refusal. -/
def tryAssign (s : Settings) (field : String) (d : Datum) : Settings × Refusal :=
  (s, s.assign field d)

/-! ## Environments -/

/-- The fields that are set by environment variables, without the blanks around their
texts. -/
def environmentFields (environment : List (String × String)) : List (String × String) :=
  Setting.all.filterMap fun s =>
    (environment.lookup s.environmentName).map fun value => (s.name, Text.strip value)

/-- The report of the first refusal of settings from the environment. -/
def environmentReport (fields : List (String × String)) (refusal : Refusal) : Report where
  kind := .setting
  message := "Invalid als_linalg configuration for " ++ refusal.field ++ "=" ++
    Text.quoted ((fields.lookup refusal.field).getD "") ++ ". Detail: " ++ refusal.cause.message
  code := some .invalidConfig
  apparentRank := none

/-- Settings from environment variables; those that are not set keep their defaults. -/
def ofEnvironment (environment : List (String × String)) : Except Report Settings :=
  let fields := environmentFields environment
  match ofFields (fields.map fun entry => (entry.1, .text entry.2)) with
  | .ok s => .ok s
  | .error (refusal, _) => .error (environmentReport fields refusal)

end Settings

end LeastSquares

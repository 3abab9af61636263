import LeastSquares.Datum

/-!
# What can go wrong

A `Failure` is a cause.  Some causes are raised on purpose and carry a message;
the others arise where a number cannot be formed or a place does not exist.

A `Report` is what a caller sees of the failures that the library raises under
its own name: its kind, its message, a code for machines, and for a singular
matrix the rank it appears to have.
-/

namespace LeastSquares

/-! ## Reports -/

/-- The kinds of error that are raised under the library's own name. -/
inductive ReportKind where
  /-- Any error of the library. -/
  | general
  /-- A singular matrix was to be factorized. -/
  | singular
  /-- A dense matrix does not expose the expected storage. -/
  | layout
  /-- The two views of an association matrix disagree. -/
  | invariant
  /-- An optional dependency is missing. -/
  | dependency
  /-- A setting is invalid. -/
  | setting
  deriving DecidableEq, Repr

/-- The broader kinds of error that a report can be handled as. -/
inductive ErrorFamily where
  /-- Failed arithmetic. -/
  | arithmetic
  /-- A value of the wrong type. -/
  | type
  /-- A broken promise of the program itself. -/
  | assertion
  /-- A missing part of the installation. -/
  | installation
  /-- A value out of its range. -/
  | value
  /-- Every error of the library. -/
  | library
  deriving DecidableEq, Repr

/-- The families a report of this kind belongs to. -/
def ReportKind.families : ReportKind → List ErrorFamily
  | general => [.library]
  | singular => [.arithmetic, .library]
  | layout => [.type, .library]
  | invariant => [.assertion, .library]
  | dependency => [.installation, .library]
  | setting => [.value, .library]

/-- A classification for machines. -/
inductive ReportCode where
  /-- The matrix is singular. -/
  | singularMatrix
  /-- The storage of a matrix has another layout. -/
  | matrixLayout
  /-- The two views disagree. -/
  | invariantViolation
  /-- An optional dependency is missing. -/
  | optionalDependencyMissing
  /-- A setting is invalid. -/
  | invalidConfig
  deriving DecidableEq, Repr

/-- All codes. -/
def ReportCode.all : List ReportCode :=
  [.singularMatrix, .matrixLayout, .invariantViolation, .optionalDependencyMissing,
    .invalidConfig]

/-- The text of a code. -/
def ReportCode.text : ReportCode → String
  | singularMatrix => "singular_matrix"
  | matrixLayout => "matrix_layout"
  | invariantViolation => "invariant_violation"
  | optionalDependencyMissing => "optional_dependency_missing"
  | invalidConfig => "invalid_config"

/-- The code with a given text. -/
def ReportCode.ofText? (s : String) : Option ReportCode :=
  all.find? fun code => code.text == s

/-- What a caller sees of an error that the library raises. -/
structure Report where
  /-- The kind of error. -/
  kind : ReportKind
  /-- The message for people. -/
  message : String
  /-- The code for machines, if there is one. -/
  code : Option ReportCode
  /-- The rank that a singular matrix appears to have. -/
  apparentRank : Option Int

/-! ## Causes -/

/-- The bound below which a matrix counts as singular, as it was given: the
message of a rejection shows an integer without a point. -/
inductive Threshold where
  /-- An integer. -/
  | whole (n : Int)
  /-- A floating-point number. -/
  | real (x : Float)

namespace Threshold

/-- The text of a threshold in the message of a rejection. -/
def text : Threshold → String
  | whole n => Decimal.ofInt n
  | real x => Decimal.ofFloat x

/-- The floating-point value of a threshold, unless it is beyond the finite ones. -/
def value? : Threshold → Option Float
  | whole n => Number.ofInt? n
  | real x => some x

end Threshold

/-- A cause of failure. -/
inductive Failure where
  /-- A value does not expose its entries in the expected way. -/
  | layout (expected : String) (got : Datum)
  /-- A matrix that counts as singular was to be factorized. -/
  | singular (size : Nat) (threshold : Threshold) (rank : Nat)
  /-- A matrix to be solved is not square. -/
  | notSquare (rows columns : Nat)
  /-- The accelerated backend is not installed. -/
  | dependencyMissing
  /-- A vector has another number of axes than one. -/
  | vectorRank (rank : Nat)
  /-- A vector does not fit the columns of a matrix. -/
  | vectorLength (length rows columns : Nat)
  /-- An operand is neither a store of vectors nor a vector. -/
  | operandType (typeName : String)
  /-- No vector is stored under an id. -/
  | missingId (id : Int)
  /-- A nesting of lists is not rectangular. -/
  | ragged
  /-- A text stands where a number is needed. -/
  | textForNumber
  /-- A NaN stands where an integer is needed. -/
  | nanForInteger
  /-- Two shapes do not fit together. -/
  | shapeMismatch
  /-- A size is negative. -/
  | negativeSize
  /-- An array would be too large to be addressed. -/
  | sizeRange
  /-- A triple has another number of parts than three. -/
  | partCount
  /-- A value that is no number stands where a number is needed. -/
  | notNumeric
  /-- A text is to be added to a number. -/
  | textInSum
  /-- A vector that is a plain list stands where an array is needed. -/
  | plainVector
  /-- A value that has no parts stands where a triple is needed. -/
  | noParts
  /-- A list or record stands where an id is needed. -/
  | compositeId
  /-- A place does not exist in the matrix. -/
  | outOfBounds
  /-- An array that may only be read is to be written to. -/
  | readOnly
  /-- An array has fewer axes than are asked for. -/
  | tooFewAxes
  /-- A number is beyond the range of its format. -/
  | numberRange
  /-- An id or index does not fit 64 bits. -/
  | idRange
  /-- A factorization has a zero pivot. -/
  | zeroPivot
  /-- No code has a given text. -/
  | unknownCode
  /-- A report is given a part that its kind does not have, or lacks one that it has. -/
  | reportParts

/-- The storage that a dense matrix has to expose. -/
def expectedStorage : String := "a C-contiguous 2D float64 ndarray or DenseMatrix"

/-- The two axes of a matrix in a message. -/
def shapeText (rows columns : Nat) : String :=
  "(" ++ Decimal.ofInt rows ++ ", " ++ Decimal.ofInt columns ++ ")"

namespace Failure

/-- The message of the failures that have one. -/
def message? : Failure → Option String
  | layout expected got =>
      some ("Dense matrix does not expose the expected storage. Expected " ++ expected ++
        ". Got: " ++ got.display ++ ".")
  | singular size threshold rank =>
      some (Decimal.ofInt size ++ " x " ++ Decimal.ofInt size ++
        " matrix is near-singular (threshold " ++ threshold.text ++ "). Apparent rank: " ++
        Decimal.ofInt rank)
  | notSquare rows columns =>
      some ("Matrix must be square; got shape " ++ shapeText rows columns)
  | dependencyMissing =>
      some ("The native linear system solver requires scipy, which is not installed.\n\n" ++
        "Install the optional dependency group with:\n" ++
        "  pip install 'als-linalg[native]'\n" ++
        "or, if you are using uv:\n" ++
        "  uv pip install '.[native]'")
  | vectorRank rank => some ("vector must be 1D; got ndim=" ++ Decimal.ofInt rank)
  | vectorLength length rows columns =>
      some ("vector length " ++ Decimal.ofInt length ++ " does not match matrix shape " ++
        shapeText rows columns)
  | operandType typeName =>
      some ("operand must be a mapping of vectors or a 1D array; got <class '" ++ typeName ++
        "'>")
  | missingId id => some (Decimal.ofInt id)
  | _ => none

/-- The report of the failures that are raised under the library's own name. -/
def report? (failure : Failure) : Option Report :=
  failure.message?.bind fun message =>
    match failure with
    | layout _ _ => some ⟨.layout, message, some .matrixLayout, none⟩
    | singular _ _ rank => some ⟨.singular, message, some .singularMatrix, some rank⟩
    | dependencyMissing => some ⟨.dependency, message, some .optionalDependencyMissing, none⟩
    | _ => none

end Failure

/-- A report put together from its parts.  A singular matrix comes with the rank that it
appears to have and with no choice of a code; all other kinds have no rank. -/
def Report.ofParts (kind : ReportKind) (message : String) (code : Option (Option ReportCode))
    (rank : Option Int) : Except Failure Report :=
  match kind, code, rank with
  | .singular, none, some r => .ok ⟨.singular, message, some .singularMatrix, some r⟩
  | .singular, _, _ => .error .reportParts
  | _, _, some _ => .error .reportParts
  | kind, code, none => .ok ⟨kind, message, code.join, none⟩

/-! ## Results that may be failures -/

universe u v w

section Results

variable {ε : Type u} {α : Type v} {β : Type w} {x : Except ε α} {f : α → β} {y : β}

theorem map_eq_ok_iff : x.map f = .ok y ↔ ∃ a, x = .ok a ∧ f a = y := by
  cases x <;> simp [Except.map]

theorem map_eq_error_iff {failure : ε} : x.map f = .error failure ↔ x = .error failure := by
  cases x <;> simp [Except.map]

end Results

/-- Reads the members of a list from left to right, up to the first failure. -/
def readEach {α : Type u} {β : Type v} (f : β → Except Failure α) :
    (l : List β) → Except Failure { r : List α // r.length = l.length }
  | [] => .ok ⟨[], rfl⟩
  | x :: rest =>
      match f x with
      | .error failure => .error failure
      | .ok y =>
          match readEach f rest with
          | .error failure => .error failure
          | .ok ⟨ys, h⟩ => .ok ⟨y :: ys, by simp [h]⟩

end LeastSquares

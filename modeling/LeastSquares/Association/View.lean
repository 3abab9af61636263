import LeastSquares.Failure
import LeastSquares.IdMap

/-!
# One view of an association matrix

A `View` holds the weights of an association matrix keyed first by one kind of
id and then by the other.  The weights under one outer id form a *line*.

`add` and `erase` are the two ways in which a matrix changes a view.  `add`
creates the line and the entry it needs, `erase` drops the line that it empties.
`tryAdd` takes arguments that have still to be recognised as ids and an amount.
`clear`, `put` and `drop` reach past these rules; they exist so that the
consistency of the two views can be put to the test.
-/

namespace LeastSquares

/-- Weights keyed by an outer and an inner id. -/
@[ext]
structure View where
  /-- The weights under each outer id. -/
  lines : IdMap (IdMap Float)

namespace View

/-- The view without entries. -/
def empty : View := ⟨∅⟩

instance : EmptyCollection View := ⟨empty⟩

instance : Inhabited View := ⟨empty⟩

/-! ## Reading -/

/-- The weights under `outer`; none for an unknown id. -/
def line (v : View) (outer : Int) : IdMap Float := (v.lines.get? outer).getD ∅

/-- The weight at a pair of ids. -/
def get? (v : View) (outer inner : Int) : Option Float :=
  (v.lines.get? outer).bind fun entries => entries.get? inner

/-- The number of entries. -/
def size (v : View) : Nat := v.lines.values.foldr (fun line n => line.size + n) 0

/-- The entries, by order of insertion at both levels. -/
def toList (v : View) : List (Int × Int × Float) :=
  v.lines.entries.flatMap fun (outer, entries) =>
    entries.entries.map fun (inner, weight) => (outer, inner, weight)

/-- The outer ids in ascending order.  They are collected as 64-bit integers. -/
def sortedIds (v : View) : Except Failure (List Int) :=
  if v.lines.keys.all Number.fitsInt64 then .ok (v.lines.keys.mergeSort (· ≤ ·))
  else .error .idRange

/-! ## Writing -/

/-- The view with `amount` added to the weight at a pair of ids, which counts as
zero when it is absent.  The sum is narrowed to 32 bits. -/
def add (v : View) (outer inner : Int) (amount : Float) : View :=
  let entries := v.line outer
  let sum := (entries.get? inner).getD 0.0 + amount
  ⟨v.lines.insert outer (entries.insert inner (Number.narrow sum))⟩

/-- The view with a line for `outer`, a new one being empty. -/
def touch (v : View) (outer : Int) : View :=
  ⟨v.lines.insert outer (v.line outer)⟩

/-- `add` for arguments that may be unusable.  The line is looked up, and made, before the inner
id and the amount are looked at. -/
def tryAdd (v : View) (outer inner : Except Failure Int) (amount : Except Failure Float) :
    View × Except Failure Unit :=
  match outer with
  | .error failure => (v, .error failure)
  | .ok o =>
      match inner, amount with
      | .ok i, .ok a => (v.add o i a, .ok ())
      | .error failure, _ => (v.touch o, .error failure)
      | .ok _, .error failure => (v.touch o, .error failure)

/-- The view without the entry at a pair of ids, and without its line when nothing
else is in it. -/
def erase (v : View) (outer inner : Int) : View :=
  match v.lines.get? outer with
  | none => v
  | some entries =>
      let rest := entries.erase inner
      if rest.isEmpty then ⟨v.lines.erase outer⟩ else ⟨v.lines.insert outer rest⟩

/-- The view without the line of `outer` if that line is empty. -/
def dropEmpty (v : View) (outer : Int) : View :=
  match v.lines.get? outer with
  | some entries => if entries.isEmpty then ⟨v.lines.erase outer⟩ else v
  | none => v

/-! ## Damage -/

/-- The view with an empty line for `outer`. -/
def clear (v : View) (outer : Int) : View := ⟨v.lines.insert outer ∅⟩

/-- The view with `weight` as it is at a pair of ids. -/
def put (v : View) (outer inner : Int) (weight : Float) : View :=
  ⟨v.lines.insert outer ((v.line outer).insert inner weight)⟩

/-- The view without the entry at a pair of ids, its line kept.  The id that is
not there is the failure. -/
def drop (v : View) (outer inner : Int) : Except Failure View :=
  match v.lines.get? outer with
  | none => .error (.missingId outer)
  | some entries =>
      if entries.contains inner then .ok ⟨v.lines.insert outer (entries.erase inner)⟩
      else .error (.missingId inner)

/-! ## Laws -/

@[simp] theorem get?_empty (outer inner : Int) : (∅ : View).get? outer inner = none := rfl

theorem line_get? (v : View) (outer inner : Int) :
    (v.line outer).get? inner = v.get? outer inner := by
  unfold line get?
  cases v.lines.get? outer <;> rfl

theorem line_add (v : View) (outer inner id : Int) (amount : Float) :
    (v.add outer inner amount).line id =
      if id = outer then
        (v.line outer).insert inner
          (Number.narrow (((v.line outer).get? inner).getD 0.0 + amount))
      else v.line id := by
  simp only [add, line, IdMap.get?_insert]
  split <;> rfl

theorem get?_add (v : View) (outer inner r c : Int) (amount : Float) :
    (v.add outer inner amount).get? r c =
      if r = outer ∧ c = inner then
        some (Number.narrow ((v.get? outer inner).getD 0.0 + amount))
      else v.get? r c := by
  rw [← line_get?, ← line_get?, ← line_get?, line_add]
  by_cases hr : r = outer
  · subst hr
    by_cases hc : c = inner
    · simp [IdMap.get?_insert, hc]
    · simp [IdMap.get?_insert, hc]
  · simp [hr]

/-- An addition can fail for its arguments only, which are those of the other view as well. -/
theorem tryAdd_ok_of_ok {v w : View} {outer inner : Except Failure Int}
    {amount : Except Failure Float} (h : (v.tryAdd outer inner amount).2 = .ok ()) :
    (w.tryAdd inner outer amount).2 = .ok () := by
  cases outer with
  | error failure => cases h
  | ok o =>
      cases inner with
      | error failure => cases h
      | ok i =>
          cases amount with
          | error failure => cases h
          | ok a => rfl

end View

end LeastSquares

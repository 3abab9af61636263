import LeastSquares.Dense.Layout
import LeastSquares.IdMap

/-!
# Stores of factor vectors

A `Store` maps ids to factor vectors.  A vector comes as a `Nesting`, so that what
is no vector, because it is a scalar, has several axes or is ragged, is refused by
whoever reads it.  Its scalars are read by a function that the caller gives.

`block` stacks vectors as the rows of one array, and `indexed` lists the vectors of
a store that is keyed by consecutive indices from zero.
-/

namespace LeastSquares

universe u v

/-- Factor vectors by id, in order of insertion. -/
abbrev Store (β : Type v) := IdMap (Nesting β)

variable {α : Type u} {β : Type v}

/-- Vectors stacked as the members of one array. -/
def block (read : β → Except Failure α) (vectors : List (Nesting β)) :
    Except Failure (NArray α) :=
  NArray.read read (.node vectors)

/-- A vector as an array of this format holds it: rectangular, and every scalar
converted to the format. -/
def ElementKind.hold (kind : ElementKind) (v : Nesting Datum) :
    Except Failure (Nesting Datum) :=
  match NArray.read kind.read v with
  | .ok _ => v.traverse fun d => (kind.read d).map .float
  | .error failure => .error failure

namespace Store

/-- The vector that is stored under an id. -/
def vectorAt (store : Store β) (id : Int) : Except Failure (Nesting β) :=
  match store.get? id with
  | some v => .ok v
  | none => .error (.missingId id)

/-- The indices that a store of `n` vectors has to be keyed by. -/
def indices (n : Nat) : List Int := (List.range n).map fun (i : Nat) => (i : Int)

/-- The vectors by index, when the ids are the indices from zero on. -/
def indexed (store : Store β) : Except Failure (List (Nesting β)) :=
  (readEach store.vectorAt (indices store.size)).map Subtype.val

end Store

end LeastSquares

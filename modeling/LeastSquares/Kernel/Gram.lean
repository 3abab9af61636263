import LeastSquares.Kernel.Product
import LeastSquares.Kernel.Store

/-!
# Normal equations of a store

`Store.gram` is the matrix of the normal equations of the vectors of a store: the
sum of `v vᵀ` over all of them.  The vectors are stacked and summed chunk by chunk,
so that no more than a fixed number of them is held at once.  `flatten_chunks` says
that every vector is in one chunk and in no other.

Lengths are compared within a chunk only.  A chunk of vectors of another length
than the first is refused, with one exception: the sum of the squares of a chunk of
single numbers is added to every entry.
-/

namespace LeastSquares

universe u v

/-- How many vectors are stacked at once. -/
def chunkSize : Nat := 4096

/-- A list cut into chunks of `size` members; the last one may be shorter. -/
def chunks {β : Type v} (size : Nat) (l : List β) : List (List β) :=
  NArray.splitRows size ((l.length + (size - 1)) / size) l

/-- Cutting into chunks neither drops nor repeats a member. -/
theorem flatten_chunks {β : Type v} {size : Nat} (hsize : 0 < size) (l : List β) :
    (chunks size l).flatten = l := by
  refine NArray.flatten_splitRows ?_
  have hdiv := Nat.div_add_mod (l.length + (size - 1)) size
  have hmod := Nat.mod_lt (l.length + (size - 1)) hsize
  rw [Nat.mul_comm] at hdiv
  omega

variable {α : Type u} {β : Type v} [Zero α] [Add α] [Mul α]

/-- The sum that a further block of vectors brings to a matrix of normal equations. -/
def Dense.plusBlock (sum : Dense α) (a : NArray α) : Except Failure (Dense α) :=
  match a with
  | ⟨[_], entries, _⟩ => .ok (sum.plusEverywhere (dot entries entries))
  | ⟨[n, k], entries, h⟩ =>
      if k = sum.columns then
        .ok (sum.plus (Dense.ofArray n k entries h).gram)
      else if k = 1 then .ok (sum.plusEverywhere (dot entries entries))
      else .error .shapeMismatch
  | _ => .error .shapeMismatch

namespace Store

/-- The sum over the chunks that follow the first. -/
def gramChunks (read : β → Except Failure α) (sum : Dense α) :
    List (List (Nesting β)) → Except Failure (Dense α)
  | [] => .ok sum
  | chunk :: rest =>
      match block read chunk with
      | .error failure => .error failure
      | .ok a =>
          match sum.plusBlock a with
          | .error failure => .error failure
          | .ok next => gramChunks read next rest

/-- The matrix of zeros that the sum starts from: the length of the vectors of the
first block decides its size. -/
def gramStart (a : NArray α) : Except Failure (Dense α) :=
  match a.shape with
  | _ :: k :: _ => .ok (Dense.zeros k k)
  | _ => .error .tooFewAxes

/-- The sum of `v vᵀ` over the vectors of a list of chunks, if there is one. -/
def gramOfChunks (read : β → Except Failure α) :
    List (List (Nesting β)) → Except Failure (Option (Dense α))
  | [] => .ok none
  | chunk :: rest =>
      match block read chunk with
      | .error failure => .error failure
      | .ok a =>
          match gramStart a with
          | .error failure => .error failure
          | .ok start => (gramChunks read start (chunk :: rest)).map some

/-- The sum of `v vᵀ` over the vectors of a store, in chunks of a given size.  Without
vectors there is no length and no matrix. -/
def gramBy (size : Nat) (read : β → Except Failure α) (store : Store β) :
    Except Failure (Option (Dense α)) :=
  gramOfChunks read (chunks size store.values)

/-- The sum of `v vᵀ` over the vectors of a store that may be missing.  Then there is no
matrix either. -/
def gramIfAny (size : Nat) (read : β → Except Failure α) :
    Option (Store β) → Except Failure (Option (Dense α))
  | none => .ok none
  | some store => gramBy size read store

/-- The sum of `v vᵀ` over the vectors of a store. -/
def gram (read : β → Except Failure α) (store : Store β) : Except Failure (Option (Dense α)) :=
  gramBy chunkSize read store

end Store

end LeastSquares

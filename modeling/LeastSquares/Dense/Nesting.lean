import LeastSquares.Failure

/-!
# Nested lists and the arrays they describe

A `Nesting` is a scalar or a list of nestings, of any depth.  It describes an
array when it is rectangular: when siblings have the same depth and the same
lengths all the way down.  `shape?` finds that common shape, one length for each
axis, or nothing.

An `NArray` holds the entries of an array of any shape in row-major order.
`NArray.read` turns a rectangular nesting into one; that the number of entries is
the product of the lengths is `Nesting.length_leaves`.
-/

namespace LeastSquares

universe u v

/-- A scalar, or a list of nestings. -/
inductive Nesting (α : Type u) where
  /-- A scalar. -/
  | leaf (x : α)
  /-- A list. -/
  | node (children : List (Nesting α))

namespace Nesting

variable {α : Type u}

/-- The shape of a list whose members have the given shapes: they all have to be
equal.  The empty list has one axis. -/
def stackShapes : List (List Nat) → Option (List Nat)
  | [] => some [0]
  | shape :: rest =>
      if rest.all (· == shape) then some ((rest.length + 1) :: shape) else none

mutual

/-- The length along each axis, outermost first, of a rectangular nesting. -/
def shape? : Nesting α → Option (List Nat)
  | leaf _ => some []
  | node children => (shapes? children).bind stackShapes

/-- The shapes of a list of rectangular nestings. -/
def shapes? : List (Nesting α) → Option (List (List Nat))
  | [] => some []
  | n :: rest => (shape? n).bind fun s => (shapes? rest).map (s :: ·)

end

mutual

/-- The scalars, from left to right. -/
def leaves : Nesting α → List α
  | leaf x => [x]
  | node children => leavesAll children

/-- The scalars of a list of nestings, from left to right. -/
def leavesAll : List (Nesting α) → List α
  | [] => []
  | n :: rest => leaves n ++ leavesAll rest

end

mutual

/-- The nesting with every scalar replaced by its image, up to the first failure. -/
def traverse {β : Type v} (f : α → Except Failure β) : Nesting α → Except Failure (Nesting β)
  | leaf x => (f x).map leaf
  | node children => (traverseAll f children).map node

/-- The nestings with every scalar replaced by its image, up to the first failure. -/
def traverseAll {β : Type v} (f : α → Except Failure β) :
    List (Nesting α) → Except Failure (List (Nesting β))
  | [] => .ok []
  | n :: rest =>
      match traverse f n with
      | .error failure => .error failure
      | .ok m =>
          match traverseAll f rest with
          | .error failure => .error failure
          | .ok ms => .ok (m :: ms)

end

/-- The nesting of a row of scalars. -/
def vector (xs : List α) : Nesting α := node (xs.map leaf)

/-- The nesting of a list of rows. -/
def table (rows : List (List α)) : Nesting α := node (rows.map vector)

theorem shapes?_map_leaf (xs : List α) :
    shapes? (xs.map leaf) = some (xs.map fun _ => []) := by
  induction xs with
  | nil => rfl
  | cons x xs ih =>
      rw [List.map_cons, List.map_cons, shapes?, ih]
      rfl

/-- A row of scalars has one axis. -/
theorem shape?_vector (xs : List α) : shape? (vector xs) = some [xs.length] := by
  rw [vector, shape?, shapes?_map_leaf]
  cases xs with
  | nil => rfl
  | cons x xs =>
      have hall : (xs.map fun _ => ([] : List Nat)).all (· == []) = true := by simp
      rw [List.map_cons, Option.bind_some, stackShapes, if_pos hall, List.length_map,
        List.length_cons]

/-- The scalars of a row are the row. -/
theorem leaves_vector (xs : List α) : leaves (vector xs) = xs := by
  rw [vector, leaves]
  induction xs with
  | nil => rfl
  | cons x xs ih => rw [List.map_cons, leavesAll, leaves, ih]; rfl

/-- The number of entries of an array of a given shape. -/
def volume (shape : List Nat) : Nat := shape.foldr (· * ·) 1

@[simp] theorem volume_nil : volume [] = 1 := rfl

@[simp] theorem volume_cons (n : Nat) (shape : List Nat) :
    volume (n :: shape) = n * volume shape := rfl

theorem volume_single (n : Nat) : volume [n] = volume [1, n] := by
  rw [volume_cons 1, Nat.one_mul]

theorem volume_pair (m n : Nat) : volume [m, n] = m * n := by
  rw [volume_cons, volume_cons, volume_nil, Nat.mul_one]

mutual

/-- A rectangular nesting has as many scalars as its shape says. -/
theorem length_leaves : ∀ (n : Nesting α) (shape : List Nat), shape? n = some shape →
    (leaves n).length = volume shape
  | leaf x, shape, h => by
      simp only [shape?, Option.some.injEq] at h
      subst h
      rfl
  | node children, shape, h => by
      simp only [shape?, Option.bind_eq_some_iff] at h
      obtain ⟨shapes, hshapes, hstack⟩ := h
      cases shapes with
      | nil =>
          simp only [stackShapes, Option.some.injEq] at hstack
          subst hstack
          rw [leaves, length_leavesAll children [] [] hshapes (by simp)]
          rfl
      | cons first rest =>
          simp only [stackShapes] at hstack
          split at hstack
          · rename_i heq
            simp only [Option.some.injEq] at hstack
            subst hstack
            have hall : ∀ s ∈ first :: rest, s = first := by
              intro s hs
              rcases List.mem_cons.mp hs with rfl | hs
              · rfl
              · exact eq_of_beq (List.all_eq_true.mp heq s hs)
            rw [leaves, length_leavesAll children (first :: rest) first hshapes hall,
              List.length_cons, volume_cons]
          · simp at hstack

/-- Rectangular nestings of one shape have as many scalars together as their number and the
shape say. -/
theorem length_leavesAll : ∀ (ns : List (Nesting α)) (shapes : List (List Nat))
    (shape : List Nat), shapes? ns = some shapes → (∀ s ∈ shapes, s = shape) →
    (leavesAll ns).length = shapes.length * volume shape
  | [], shapes, shape, h, _ => by
      simp only [shapes?, Option.some.injEq] at h
      subst h
      rw [List.length_nil, Nat.zero_mul]
      rfl
  | n :: rest, shapes, shape, h, hall => by
      simp only [shapes?, Option.bind_eq_some_iff, Option.map_eq_some_iff] at h
      obtain ⟨s, hs, ss, hss, rfl⟩ := h
      have hs' : s = shape := hall s List.mem_cons_self
      have hss' : ∀ t ∈ ss, t = shape := fun t ht => hall t (List.mem_cons_of_mem _ ht)
      rw [leavesAll, List.length_append, length_leaves n s hs,
        length_leavesAll rest ss shape hss hss', hs', List.length_cons, Nat.add_mul, Nat.one_mul,
        Nat.add_comm]

end

end Nesting

/-! ## Arrays -/

/-- An array of any shape, its entries in row-major order. -/
structure NArray (α : Type u) where
  /-- The length along each axis, outermost first. -/
  shape : List Nat
  /-- The entries, the last index running fastest. -/
  entries : List α
  /-- There is one entry for each choice of indices. -/
  length_entries : entries.length = Nesting.volume shape

namespace NArray

variable {α : Type u} {β : Type v}

/-- The number of axes. -/
def rank (a : NArray α) : Nat := a.shape.length

/-- The array of a given shape with one entry everywhere. -/
def constant (shape : List Nat) (x : α) : NArray α where
  shape := shape
  entries := List.replicate (Nesting.volume shape) x
  length_entries := List.length_replicate

/-- The largest number of axes of an array. -/
def maxRank : Nat := 64

/-- Why there is no array with axes of these lengths: one of them is negative, there are too
many, or the entries would not fit 63 bits of bytes.  Axes without entries do not count for
the bytes. -/
def sizeFailure? (entryBytes : Nat) (lengths : List Int) : Option Failure :=
  if lengths.any (· < 0) then some .negativeSize
  else if maxRank < lengths.length ∨
      9223372036854775807 <
        entryBytes * Nesting.volume ((lengths.filter (0 < ·)).map Int.toNat) then
    some .sizeRange
  else none

/-- The array that a nesting describes, its scalars read by `f`.  The shape is
looked at before any scalar. -/
def read (f : β → Except Failure α) (n : Nesting β) : Except Failure (NArray α) :=
  match h : n.shape? with
  | none => .error .ragged
  | some shape =>
      if maxRank < shape.length then .error .ragged
      else
        match readEach f n.leaves with
        | .error failure => .error failure
        | .ok ⟨entries, hlength⟩ =>
            .ok ⟨shape, entries, hlength.trans (Nesting.length_leaves n shape h)⟩

/-- `count` rows of `width` entries each, cut off one after another. -/
def splitRows (width : Nat) : Nat → List α → List (List α)
  | 0, _ => []
  | count + 1, l => l.take width :: splitRows width count (l.drop width)

theorem length_splitRows (width count : Nat) (l : List α) :
    (splitRows width count l).length = count := by
  induction count generalizing l with
  | zero => rfl
  | succ count ih => simp [splitRows, ih]

/-- Rows that reach to the end of a list hold all of it. -/
theorem flatten_splitRows {width count : Nat} {l : List α} (h : l.length ≤ count * width) :
    (splitRows width count l).flatten = l := by
  induction count generalizing l with
  | zero =>
      rw [Nat.zero_mul, Nat.le_zero] at h
      rw [splitRows, List.flatten_nil, List.eq_nil_of_length_eq_zero h]
  | succ count ih =>
      rw [Nat.add_mul, Nat.one_mul] at h
      have hrest : (l.drop width).length ≤ count * width := by
        rw [List.length_drop]; omega
      rw [splitRows, List.flatten_cons, ih hrest, List.take_append_drop]

/-- Rows of one length that are joined are cut off again as they were. -/
theorem splitRows_flatten {width : Nat} {rows : List (List α)}
    (h : ∀ row ∈ rows, row.length = width) :
    splitRows width rows.length rows.flatten = rows := by
  induction rows with
  | nil => rfl
  | cons row rows ih =>
      have hrow : row.length = width := h row List.mem_cons_self
      have hrest := ih fun r hr => h r (List.mem_cons_of_mem _ hr)
      rw [List.length_cons, splitRows, List.flatten_cons, List.take_left' hrow,
        List.drop_left' hrow, hrest]

theorem length_flatten_eq_mul {width : Nat} {rows : List (List α)}
    (h : ∀ row ∈ rows, row.length = width) : rows.flatten.length = rows.length * width := by
  induction rows with
  | nil => rw [List.flatten_nil, List.length_nil, List.length_nil, Nat.zero_mul]
  | cons row rows ih =>
      rw [List.flatten_cons, List.length_append, h row List.mem_cons_self,
        ih fun r hr => h r (List.mem_cons_of_mem _ hr), List.length_cons, Nat.add_mul,
        Nat.one_mul, Nat.add_comm]

theorem length_of_mem_splitRows {width count : Nat} {l row : List α}
    (hl : count * width ≤ l.length) (h : row ∈ splitRows width count l) :
    row.length = width := by
  induction count generalizing l with
  | zero => simp [splitRows] at h
  | succ count ih =>
      rw [Nat.add_mul, Nat.one_mul] at hl
      rw [splitRows, List.mem_cons] at h
      rcases h with rfl | h
      · rw [List.length_take]; omega
      · exact ih (by rw [List.length_drop]; omega) h

end NArray

end LeastSquares

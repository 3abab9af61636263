import LeastSquares.Dense.Place

/-!
# Arrays in memory

An array is an object: whoever has a reference to it sees what is written into it through any
other reference.  A `Memory` holds the arrays that have been made, and a `Reference` stands for
one of them.

An array comes into being under a reference that nothing had before (`ne_of_get?`), and is
changed through a reference, which leaves all other arrays alone (`get?_edit_of_ne`).  Along the
way arrays stay where they are and keep their layout (`Keeps`).

A matrix is the array that it keeps.  `wrap` keeps the very array that it is given and `copy` a
new one, `access` hands out the array that is kept and `toArray` a new one.  Who sees whose
writes is a consequence of that.
-/

namespace LeastSquares

universe u

/-- A shape with at least two axes: missing ones are added in front, with length one. -/
def NArray.padShape : List Nat → List Nat
  | [] => [1, 1]
  | [n] => [1, n]
  | shape => shape

theorem NArray.volume_padShape (shape : List Nat) :
    Nesting.volume shape = Nesting.volume (padShape shape) := by
  match shape with
  | [] => rfl
  | [n] => exact Nesting.volume_single n
  | _ :: _ :: _ => rfl

/-- The array with at least two axes. -/
def NArray.padded {α : Type u} (a : NArray α) : NArray α where
  shape := padShape a.shape
  entries := a.entries
  length_entries := a.length_entries.trans (volume_padShape a.shape)

theorem Buffer.refusal_plain (a : NArray Float) : (plain a).refusal = rankRefusal a.rank := by
  have hrest : ", dtype=" ++ ("float64" ++ (", c_contiguous=" ++ ("True" ++ ")"))) =
      ", dtype=float64, c_contiguous=True)" := by decide
  have hdescription : (plain a).description =
      "ndarray(ndim=" ++ Decimal.ofInt a.rank ++ ", dtype=float64, c_contiguous=True)" := by
    rw [← hrest]
    simp only [← String.append_assoc]
    rfl
  rw [refusal, hdescription, rankRefusal]

/-- An array is copied into a matrix by adding axes to it and looking at its layout then. -/
theorem Buffer.toDense_plain_padded (a : NArray Float) :
    (plain a.padded).toDense = Dense.ofNArray a := by
  obtain ⟨shape, entries, h⟩ := a
  match shape with
  | [] => rfl
  | [n] => rfl
  | [m, n] => rfl
  | _ :: _ :: _ :: _ => exact congrArg Except.error (refusal_plain _)

/-- What stands for an array in memory. -/
structure Reference where
  /-- The number of the array. -/
  index : Nat
  deriving DecidableEq

/-- The arrays that have been made, in order. -/
structure Memory where
  /-- The arrays by their numbers. -/
  arrays : List Buffer

namespace Memory

/-- A memory without arrays. -/
def empty : Memory := ⟨[]⟩

/-- The array that a reference stands for. -/
def get? (mem : Memory) (r : Reference) : Option Buffer := mem.arrays[r.index]?

/-- A new array: the reference to it, and the memory with it. -/
def allocate (mem : Memory) (b : Buffer) : Reference × Memory :=
  (⟨mem.arrays.length⟩, ⟨mem.arrays ++ [b]⟩)

/-- The memory with other contents of one array. -/
def put (mem : Memory) (r : Reference) (b : Buffer) : Memory := ⟨mem.arrays.set r.index b⟩

/-- The entry of an array that two indices address. -/
def readAt (mem : Memory) (r : Reference) (row column : Int) : Except Failure Float :=
  match mem.get? r with
  | some b => b.readAt row column
  | none => .error .noParts

/-- The memory after a change of one array. -/
def edit (mem : Memory) (r : Reference) (e : Buffer.Edit) : Except Failure Memory :=
  match mem.get? r with
  | some b => (b.edit e).map (mem.put r)
  | none => .error .noParts

/-! ## Matrices -/

/-- The matrix whose storage an array in memory is. -/
def dense? (mem : Memory) (r : Reference) : Option (Dense Float) :=
  (mem.get? r).bind fun b => b.toDense.toOption

/-- The array that a matrix around an array keeps: the array itself, if it has the layout. -/
def wrap (mem : Memory) (r : Reference) : Except Failure Reference :=
  match mem.get? r with
  | some b => b.toDense.map fun _ => r
  | none => .error .noParts

/-- The array that a matrix keeps that is made from the entries of an array: a new one, if it has
the layout then. -/
def copy (mem : Memory) (r : Reference) : Except Failure (Reference × Memory) :=
  match mem.get? r with
  | some b =>
      let made := mem.allocate (.plain b.array.padded)
      (made.2.wrap made.1).map fun data => (data, made.2)
  | none => .error .noParts

/-- A value that is offered as a matrix, where arrays are offered by reference. -/
inductive Offer where
  /-- A matrix, by the array that it keeps. -/
  | matrix (data : Reference)
  /-- A bare array. -/
  | array (r : Reference)
  /-- Anything else. -/
  | other (d : Datum)

/-- The array that is handed out as the storage of a value, which is no copy. -/
def access (mem : Memory) : Offer → Except Failure Reference
  | .matrix data => .ok data
  | .array r => mem.wrap r
  | .other d => .error (.layout expectedStorage (.text d.typeName))

/-- A new array with the entries of the one that a matrix keeps. -/
def toArray (mem : Memory) (data : Reference) : Except Failure (Reference × Memory) :=
  match mem.get? data with
  | some b => .ok (mem.allocate (.plain b.array))
  | none => .error .noParts

/-! ## Which arrays are there -/

section Laws

variable {mem mem' mem'' : Memory} {r r' : Reference} {b b' : Buffer} {e : Buffer.Edit}

@[simp] theorem get?_allocate_self (mem : Memory) (b : Buffer) :
    (mem.allocate b).2.get? (mem.allocate b).1 = some b := by
  simp [get?, allocate]

theorem lt_of_get? (h : mem.get? r = some b) : r.index < mem.arrays.length :=
  (List.getElem?_eq_some_iff.mp h).1

theorem get?_allocate (h : mem.get? r = some b) (b' : Buffer) :
    (mem.allocate b').2.get? r = some b :=
  (List.getElem?_append_left (lt_of_get? h)).trans h

/-- A new array is none of those that there are. -/
theorem ne_of_get? (h : mem.get? r = some b) (b' : Buffer) : r ≠ (mem.allocate b').1 := by
  rintro rfl
  exact Nat.lt_irrefl _ (lt_of_get? h)

theorem get?_put_self (h : mem.get? r = some b) (b' : Buffer) :
    (mem.put r b').get? r = some b' :=
  List.getElem?_set_self (lt_of_get? h)

theorem get?_put_of_ne (mem : Memory) (b : Buffer) (hne : r' ≠ r) :
    (mem.put r b).get? r' = mem.get? r' :=
  List.getElem?_set_ne fun h => hne (congrArg Reference.mk h.symm)

theorem put_self (h : mem.get? r = some b) : mem.put r b = mem := by
  obtain ⟨hlt, hb⟩ := List.getElem?_eq_some_iff.mp h
  rw [put, ← hb, List.set_getElem_self]

theorem readAt_eq (h : mem.get? r = some b) (row column : Int) :
    mem.readAt r row column = b.readAt row column := by
  rw [readAt, h]

theorem edit_eq (h : mem.get? r = some b) : mem.edit r e = (b.edit e).map (mem.put r) := by
  rw [edit, h]

theorem wrap_eq (h : mem.get? r = some b) : mem.wrap r = b.toDense.map fun _ => r := by
  rw [wrap, h]

/-- A change of one array leaves the other ones as they are. -/
theorem get?_edit_of_ne (h : mem.edit r e = .ok mem') (hne : r' ≠ r) :
    mem'.get? r' = mem.get? r' := by
  unfold edit at h
  split at h
  · obtain ⟨b', -, rfl⟩ := map_eq_ok_iff.mp h
    exact get?_put_of_ne mem b' hne
  · cases h

/-! ## What stays as it is -/

/-- All arrays of a memory are in another one, each with the layout that it had. -/
def Keeps (mem mem' : Memory) : Prop :=
  ∀ r b, mem.get? r = some b → ∃ b', mem'.get? r = some b' ∧ b.SameLayout b'

theorem keeps_allocate (mem : Memory) (b : Buffer) : mem.Keeps (mem.allocate b).2 :=
  fun _ b' h => ⟨b', get?_allocate h b, .refl b'⟩

theorem keeps_edit (h : mem.edit r e = .ok mem') : mem.Keeps mem' := by
  intro r' b hb
  by_cases hsame : r' = r
  · subst hsame
    rw [edit_eq hb] at h
    obtain ⟨b', hb', rfl⟩ := map_eq_ok_iff.mp h
    exact ⟨b', get?_put_self hb b', Buffer.sameLayout_of_edit hb'⟩
  · exact ⟨b, (get?_edit_of_ne h hsame).trans hb, .refl b⟩

theorem isSome_get?_of_dense? (h : (mem.dense? r).isSome = true) :
    (mem.get? r).isSome = true :=
  Option.isSome_of_isSome_bind h

theorem Keeps.isSome_get? (h : mem.Keeps mem') (hr : (mem.get? r).isSome = true) :
    (mem'.get? r).isSome = true := by
  obtain ⟨b, hb⟩ := Option.isSome_iff_exists.mp hr
  obtain ⟨b', hb', -⟩ := h r b hb
  rw [hb']
  rfl

/-- What has the layout of a matrix goes on having it. -/
theorem Keeps.isSome_dense? (h : mem.Keeps mem') (hr : (mem.dense? r).isSome = true) :
    (mem'.dense? r).isSome = true := by
  obtain ⟨b, hb⟩ := Option.isSome_iff_exists.mp (isSome_get?_of_dense? hr)
  obtain ⟨b', hb', hlayout⟩ := h r b hb
  rw [dense?, hb, Option.bind_some] at hr
  cases hm : b.toDense with
  | error failure =>
      rw [hm] at hr
      exact absurd hr Bool.false_ne_true
  | ok m =>
      obtain ⟨m', hm'⟩ := hlayout.exists_toDense hm
      rw [dense?, hb', Option.bind_some, hm']
      rfl

end Laws

end Memory

end LeastSquares

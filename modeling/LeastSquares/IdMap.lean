/-!
# Insertion-ordered maps keyed by integer ids

An `IdMap` is a finite map from integer ids that remembers the order in which
its ids came in.  Writing to an id that is present keeps its place; an id that
was erased and comes back goes last.

## Interface

`get?` is the view of the map as a partial function, `keys` the view as a
sequence.  Every operation has one law for each view: `get?_insert`,
`keys_insert_of_mem`, `keys_insert_of_notMem`, `get?_erase`, `keys_erase`.
Two maps with the same entries in the same order are equal (`ext`).
-/

namespace LeastSquares

universe u v w

/-- A finite map from integer ids that remembers the order of insertion. -/
structure IdMap (α : Type u) where
  /-- The entries, in order of insertion. -/
  entries : List (Int × α)
  /-- No id occurs twice. -/
  distinct : (entries.map Prod.fst).Nodup

namespace IdMap

variable {α : Type u} {β : Type v} {ε : Type w}

@[ext]
theorem ext {m n : IdMap α} (h : m.entries = n.entries) : m = n := by
  cases m; cases n; cases h; rfl

/-- The map without entries. -/
def empty : IdMap α := ⟨[], List.nodup_nil⟩

instance : EmptyCollection (IdMap α) := ⟨empty⟩

instance : Inhabited (IdMap α) := ⟨empty⟩

/-- The ids, in order of insertion. -/
def keys (m : IdMap α) : List Int := m.entries.map Prod.fst

/-- The values, in order of insertion. -/
def values (m : IdMap α) : List α := m.entries.map Prod.snd

/-- The number of entries. -/
def size (m : IdMap α) : Nat := m.entries.length

/-- Whether there is no entry. -/
def isEmpty (m : IdMap α) : Bool := m.entries.isEmpty

/-- The value of an id. -/
def get? (m : IdMap α) (id : Int) : Option α := m.entries.lookup id

/-- Whether an id has a value. -/
def contains (m : IdMap α) (id : Int) : Bool := (m.get? id).isSome

/-- The entries by ascending id. -/
def sorted (m : IdMap α) : List (Int × α) :=
  m.entries.mergeSort fun a b => a.1 ≤ b.1

theorem map_fst_sorted_nodup (m : IdMap α) : (m.sorted.map Prod.fst).Nodup :=
  ((List.mergeSort_perm m.entries _).map Prod.fst).nodup_iff.mpr m.distinct

/-- The same entries, inserted by ascending id. -/
def ascending (m : IdMap α) : IdMap α := ⟨m.sorted, m.map_fst_sorted_nodup⟩

/-! ## Writing -/

/-- The entries with `value` at `id`: in place when the id is there, else last. -/
def insertEntry (id : Int) (value : α) : List (Int × α) → List (Int × α)
  | [] => [(id, value)]
  | (k, v) :: rest => if k = id then (id, value) :: rest else (k, v) :: insertEntry id value rest

theorem map_fst_insertEntry (id : Int) (value : α) (l : List (Int × α)) :
    (insertEntry id value l).map Prod.fst =
      if id ∈ l.map Prod.fst then l.map Prod.fst else l.map Prod.fst ++ [id] := by
  induction l with
  | nil => simp [insertEntry]
  | cons entry rest ih =>
      obtain ⟨k, v⟩ := entry
      by_cases h : k = id
      · simp [insertEntry, h]
      · have h' : ¬ id = k := fun e => h e.symm
        by_cases hr : id ∈ rest.map Prod.fst <;>
          simp_all [insertEntry]

/-- The map with `value` at `id`, which keeps its place when it has one. -/
def insert (m : IdMap α) (id : Int) (value : α) : IdMap α where
  entries := insertEntry id value m.entries
  distinct := by
    rw [map_fst_insertEntry]
    split
    · exact m.distinct
    · rename_i h
      refine List.nodup_append.mpr ⟨m.distinct, by simp, ?_⟩
      intro a ha b hb hab
      rw [List.mem_singleton.mp hb] at hab
      exact h (hab ▸ ha)

/-- The map without the entry of `id`. -/
def erase (m : IdMap α) (id : Int) : IdMap α where
  entries := m.entries.filter fun entry => decide (entry.1 ≠ id)
  distinct := m.distinct.sublist (List.filter_sublist.map Prod.fst)

/-- The entries inserted one after another into the empty map. -/
def ofList (l : List (Int × α)) : IdMap α :=
  l.foldl (fun m entry => m.insert entry.1 entry.2) ∅

/-- The map with the consecutive ids `start`, `start + 1`, … up to `count` of them,
whose values are `f 0`, `f 1`, …. -/
def consecutive (start : Int) (count : Nat) (f : Nat → α) : IdMap α where
  entries := (List.range count).map fun (i : Nat) => (start + i, f i)
  distinct := by
    rw [List.map_map]
    refine List.Pairwise.map _ ?_ List.nodup_range
    intro a b hne h
    have h' : start + (a : Int) = start + (b : Int) := h
    omega

/-- The map with every value replaced by its image. -/
def map (f : α → β) (m : IdMap α) : IdMap β where
  entries := m.entries.map fun entry => (entry.1, f entry.2)
  distinct := by
    rw [List.map_map]
    exact m.distinct

/-! ## The two views -/

theorem keys_nodup (m : IdMap α) : m.keys.Nodup := m.distinct

@[simp] theorem get?_empty (id : Int) : (∅ : IdMap α).get? id = none := rfl

@[simp] theorem keys_empty : (∅ : IdMap α).keys = [] := rfl

theorem lookup_cons_eq_ite (k j : Int) (v : α) (l : List (Int × α)) :
    ((j, v) :: l).lookup k = if k = j then some v else l.lookup k := by
  rw [List.lookup_cons]
  by_cases h : k = j
  · rw [beq_iff_eq.mpr h, if_pos h]
  · rw [beq_eq_false_iff_ne.mpr h, if_neg h]

theorem lookup_insertEntry (id k : Int) (value : α) (l : List (Int × α)) :
    (insertEntry id value l).lookup k = if k = id then some value else l.lookup k := by
  induction l with
  | nil => rw [insertEntry, lookup_cons_eq_ite]
  | cons entry rest ih =>
      obtain ⟨j, v⟩ := entry
      by_cases hj : j = id
      · rw [insertEntry, if_pos hj, lookup_cons_eq_ite, lookup_cons_eq_ite, hj]
        split <;> rfl
      · rw [insertEntry, if_neg hj, lookup_cons_eq_ite, lookup_cons_eq_ite, ih]
        grind

theorem get?_insert (m : IdMap α) (id k : Int) (value : α) :
    (m.insert id value).get? k = if k = id then some value else m.get? k :=
  lookup_insertEntry id k value m.entries

theorem keys_insert (m : IdMap α) (id : Int) (value : α) :
    (m.insert id value).keys = if id ∈ m.keys then m.keys else m.keys ++ [id] :=
  map_fst_insertEntry id value m.entries

theorem keys_insert_of_mem {m : IdMap α} {id : Int} (h : id ∈ m.keys) (value : α) :
    (m.insert id value).keys = m.keys := by
  rw [keys_insert, if_pos h]

theorem keys_insert_of_notMem {m : IdMap α} {id : Int} (h : id ∉ m.keys) (value : α) :
    (m.insert id value).keys = m.keys ++ [id] := by
  rw [keys_insert, if_neg h]

theorem lookup_filter_ne (id k : Int) (l : List (Int × α)) :
    (l.filter fun entry => decide (entry.1 ≠ id)).lookup k =
      if k = id then none else l.lookup k := by
  induction l with
  | nil => simp
  | cons entry rest ih =>
      obtain ⟨j, v⟩ := entry
      rw [List.filter_cons, lookup_cons_eq_ite]
      by_cases hj : j = id
      · rw [if_neg (by simpa using hj), ih]
        grind
      · rw [if_pos (by simpa using hj), lookup_cons_eq_ite, ih]
        grind

theorem get?_erase (m : IdMap α) (id k : Int) :
    (m.erase id).get? k = if k = id then none else m.get? k :=
  lookup_filter_ne id k m.entries

theorem keys_erase (m : IdMap α) (id : Int) :
    (m.erase id).keys = m.keys.filter fun k => decide (k ≠ id) := by
  simp only [keys, erase, List.filter_map]
  rfl

/-- In a list of pairs with keys of any type, a key without a value is none of the keys. -/
theorem lookup_eq_none_iff_notMem {κ : Type v} [BEq κ] [LawfulBEq κ] {key : κ}
    {l : List (κ × α)} : l.lookup key = none ↔ key ∉ l.map Prod.fst := by
  rw [List.lookup_eq_none_iff]
  constructor
  · intro h hmem
    obtain ⟨entry, hentry, hkey⟩ := List.mem_map.mp hmem
    simpa [hkey] using h entry hentry
  · intro h entry hentry
    simpa using fun hkey : key = entry.1 => h (hkey ▸ List.mem_map_of_mem hentry)

/-- In a list of pairs with distinct keys of any type, the value of a key is the one that it
is paired with. -/
theorem lookup_eq_some_iff_mem {κ : Type v} [BEq κ] [LawfulBEq κ] {key : κ} {value : α}
    {l : List (κ × α)} (hdistinct : (l.map Prod.fst).Nodup) :
    l.lookup key = some value ↔ (key, value) ∈ l := by
  rw [List.lookup_eq_some_iff]
  constructor
  · rintro ⟨before, after, rfl, _⟩
    exact List.mem_append_right _ List.mem_cons_self
  · intro h
    obtain ⟨before, after, rfl⟩ := List.append_of_mem h
    refine ⟨before, after, rfl, ?_⟩
    intro entry hentry
    rw [List.map_append, List.nodup_append] at hdistinct
    have hne := hdistinct.2.2 entry.1 (List.mem_map_of_mem hentry) key List.mem_cons_self
    simpa using Ne.symm hne

theorem get?_eq_none_iff {m : IdMap α} {id : Int} : m.get? id = none ↔ id ∉ m.keys :=
  lookup_eq_none_iff_notMem

theorem isEmpty_iff {m : IdMap α} : m.isEmpty = true ↔ m = ∅ := by
  constructor
  · intro h
    exact ext (List.isEmpty_iff.mp h)
  · rintro rfl
    rfl

/-! ## Traversal -/

/-- The images of a list of entries under their ids, in order, up to the first failure. -/
def traverseEntries (f : Int → α → Except ε β) :
    (l : List (Int × α)) → Except ε { r : List (Int × β) // r.map Prod.fst = l.map Prod.fst }
  | [] => .ok ⟨[], rfl⟩
  | (id, x) :: rest =>
      match f id x with
      | .error failure => .error failure
      | .ok y =>
          match traverseEntries f rest with
          | .error failure => .error failure
          | .ok ⟨r, h⟩ => .ok ⟨(id, y) :: r, by simp [h]⟩

/-- The map with every value replaced by its image, in order of insertion, up to the first
failure. -/
def traverse (f : Int → α → Except ε β) (m : IdMap α) : Except ε (IdMap β) :=
  match traverseEntries f m.entries with
  | .error failure => .error failure
  | .ok ⟨r, h⟩ => .ok ⟨r, h ▸ m.distinct⟩

theorem keys_traverse {f : Int → α → Except ε β} {m : IdMap α} {n : IdMap β}
    (h : m.traverse f = .ok n) : n.keys = m.keys := by
  unfold traverse at h
  split at h
  · simp at h
  · rename_i r hr _
    simp only [Except.ok.injEq] at h
    subst h
    exact hr

end IdMap

end LeastSquares

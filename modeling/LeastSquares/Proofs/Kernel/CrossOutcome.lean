import LeastSquares.Proofs.Kernel.CrossProducts

/-!
# What a product of two stores comes to

The product of two stores looks at ids before it looks at vectors, and at the first store
before the second.  Here it is said for all stores of vectors what comes of this, also where the
ids or the lengths do not fit.

The ids are looked up as the indices from zero on, as many as there are vectors.  This finds every
wrong set of ids, although no id is compared with a bound: the ids are distinct, so that an
id that is negative or too large leaves one of the indices missing (`isIndexed_iff`).  The index
that is missed first is the smallest natural number that is no id.

`Refused` says why one store cannot be stacked by index, and `Stackable` when it can.  One of
the two holds of every store, and `Crosses` puts together what follows for two of them.  The
scalars may be of any type, floating-point numbers among them.

The main result is `cross_iff_crosses`.
-/

namespace LeastSquares

/-! ## Transposed matrices -/

namespace Dense

variable {α : Type*} [Zero α]

theorem get?_transpose {m : Dense α} {i j : ℕ} (hi : i < m.columns) (hj : j < m.rows) :
    m.transpose.get? i j = m.get? j i := by
  obtain ⟨x, hx⟩ := Option.isSome_iff_exists.mp (m.get?_isSome hj hi)
  rw [transpose, get?_ofFn, if_pos ⟨hi, hj⟩, entry, hx, Option.getD_some]

theorem transpose_zeros (rows columns : ℕ) :
    (zeros rows columns : Dense α).transpose = zeros columns rows := by
  refine ext_get? rfl rfl fun i hi j hj => ?_
  rw [get?_transpose hi hj, zeros, zeros, get?_ofFn, get?_ofFn, if_pos ⟨hj, hi⟩, if_pos ⟨hi, hj⟩]

end Dense

namespace Store

variable {α β : Type*}

/-! ## Ids -/

section Ids

variable {store store' : Store β}

/-- The ids are the indices from zero on, in any order. -/
def IsIndexed (store : Store β) : Prop := ∀ id, id ∈ store.keys ↔ 0 ≤ id ∧ id < store.size

/-- The smallest natural number that is no id. -/
def FirstGap (store : Store β) (i : ℕ) : Prop :=
  (i : ℤ) ∉ store.keys ∧ ∀ j < i, (j : ℤ) ∈ store.keys

theorem length_keys (store : Store β) : store.keys.length = store.size := List.length_map _

theorem mem_indices_iff {n : ℕ} {id : ℤ} : id ∈ indices n ↔ 0 ≤ id ∧ id < n := by
  rw [indices, List.mem_map]
  constructor
  · rintro ⟨i, hi, rfl⟩
    have hi' := List.mem_range.mp hi
    omega
  · rintro ⟨hnonneg, hlt⟩
    exact ⟨id.toNat, List.mem_range.mpr (by omega), Int.toNat_of_nonneg hnonneg⟩

theorem nodup_indices (n : ℕ) : (indices n).Nodup :=
  List.nodup_range.map Nat.cast_injective

/-- Where none of the indices is missing, there is no room for another id. -/
theorem isIndexed_iff : store.IsIndexed ↔ ∀ i < store.size, (i : ℤ) ∈ store.keys := by
  constructor
  · exact fun h i hi => (h i).mpr (by omega)
  · intro h
    have hsubset : indices store.size ⊆ store.keys := by
      intro id hid
      obtain ⟨i, hi, rfl⟩ := List.mem_map.mp hid
      exact h i (List.mem_range.mp hi)
    have hperm : (indices store.size).Perm store.keys :=
      (List.subperm_of_subset (nodup_indices _) hsubset).perm_of_length_le
        (by simp [indices, length_keys])
    exact fun id => hperm.mem_iff.symm.trans mem_indices_iff

theorem exists_firstGap (h : ¬ store.IsIndexed) : ∃ i, store.FirstGap i := by
  classical
  have hgap : ∃ i : ℕ, (i : ℤ) ∉ store.keys := by
    by_contra hall
    push Not at hall
    exact h (isIndexed_iff.mpr fun i _ => hall i)
  exact ⟨Nat.find hgap, Nat.find_spec hgap, fun j hj => not_not.mp (Nat.find_min hgap hj)⟩

theorem FirstGap.lt_size {i : ℕ} (h : ¬ store.IsIndexed) (hgap : store.FirstGap i) :
    i < store.size := by
  by_contra hle
  exact h (isIndexed_iff.mpr fun j hj => hgap.2 j (by omega))

theorem indices_eq_append {i n : ℕ} (h : i < n) :
    ∃ later, indices n = indices i ++ (i : ℤ) :: later := by
  obtain ⟨m, rfl⟩ := Nat.exists_eq_add_of_lt h
  refine ⟨((List.range m).map (i + 1 + ·)).map fun (j : ℕ) => (j : ℤ), ?_⟩
  rw [indices, indices, Nat.add_right_comm, List.range_add, List.range_succ]
  simp

/-- The ids count and not the order of insertion. -/
theorem size_eq_of_get?_eq (h : ∀ id, store'.get? id = store.get? id) :
    store'.size = store.size := by
  have hkeys : store'.keys.Perm store.keys := by
    refine (List.perm_ext_iff_of_nodup store'.keys_nodup store.keys_nodup).mpr fun id => ?_
    rw [IdMap.mem_keys_iff, IdMap.mem_keys_iff, h]
  rw [← length_keys, ← length_keys, hkeys.length_eq]

theorem isEmpty_eq_beq (store : Store β) : store.isEmpty = (store.size == 0) := by
  rw [IdMap.isEmpty, IdMap.size]
  cases store.entries <;> rfl

theorem indexed_eq_of_get?_eq (h : ∀ id, store'.get? id = store.get? id) :
    store'.indexed = store.indexed := by
  have hvectorAt : store'.vectorAt = store.vectorAt := funext fun id => by
    rw [vectorAt, vectorAt, h]
  rw [indexed, indexed, hvectorAt, size_eq_of_get?_eq h]

theorem exists_mem_keys (h : store ≠ ∅) : ∃ id, id ∈ store.keys := by
  have hempty : store.isEmpty = false := by
    rw [← Bool.not_eq_true]
    exact mt IdMap.isEmpty_iff.mp h
  obtain ⟨id, v, hv⟩ := IdMap.isEmpty_eq_false_iff.mp hempty
  exact ⟨id, IdMap.mem_keys_iff.mpr ⟨v, hv⟩⟩

end Ids

/-! ## One store -/

variable {read : β → Except Failure α} {store x y : Store β} {rows xs ys : ℤ → List α}
  {failure : Failure}

/-- The nesting under each id is read as the row of that id. -/
def HoldsAt (read : β → Except Failure α) (store : Store β) (rows : ℤ → List α) : Prop :=
  ∀ id v, store.get? id = some v → v.IsRow read (rows id)

theorem holdsAt_of_entries (h : ∀ entry ∈ store.entries, entry.2.IsRow read (rows entry.1)) :
    store.HoldsAt read rows :=
  fun id v hv => h (id, v) (IdMap.mem_entries_iff.mpr hv)

/-- The rows of all ids have the same length. -/
def OneLength (store : Store β) (rows : ℤ → List α) : Prop :=
  ∀ id ∈ store.keys, ∀ id' ∈ store.keys, (rows id).length = (rows id').length

/-- What stands against stacking a store by index: an index that is missing, the first one of
which is reported, or else vectors of different lengths. -/
inductive Refused (store : Store β) (rows : ℤ → List α) : Failure → Prop
  | gap {i : ℕ} : ¬ store.IsIndexed → store.FirstGap i → Refused store rows (.missingId i)
  | uneven : store.IsIndexed → ¬ store.OneLength rows → Refused store rows .ragged

/-- A store with the indices as its ids and vectors of one length. -/
structure Stackable (store : Store β) (rows : ℤ → List α) : Prop where
  indexed : store.IsIndexed
  oneLength : store.OneLength rows

theorem exists_refused_or_stackable (store : Store β) (rows : ℤ → List α) :
    (∃ failure, store.Refused rows failure) ∨ store.Stackable rows := by
  by_cases hindexed : store.IsIndexed
  · by_cases hlength : store.OneLength rows
    · exact Or.inr ⟨hindexed, hlength⟩
    · exact Or.inl ⟨_, .uneven hindexed hlength⟩
  · obtain ⟨i, hgap⟩ := exists_firstGap hindexed
    exact Or.inl ⟨_, .gap hindexed hgap⟩

theorem indexed_eq_missing {i : ℕ} (h : ¬ store.IsIndexed) (hgap : store.FirstGap i) :
    store.indexed = .error (.missingId i) := by
  obtain ⟨later, hindices⟩ := indices_eq_append (FirstGap.lt_size h hgap)
  have hbefore : ∀ id ∈ indices i, ∃ v, store.vectorAt id = .ok v := by
    intro id hid
    obtain ⟨j, hj, rfl⟩ := List.mem_map.mp hid
    obtain ⟨v, hv⟩ := IdMap.mem_keys_iff.mp (hgap.2 j (List.mem_range.mp hj))
    exact ⟨v, by rw [vectorAt, hv]⟩
  have hmissing : store.vectorAt i = .error (.missingId i) := by
    rw [vectorAt, IdMap.get?_eq_none_iff.mpr hgap.1]
  rw [indexed, hindices, readEach_eq_error hbefore hmissing]
  rfl

theorem IsIndexed.exists_rows (h : store.IsIndexed) (hstore : store.HoldsAt read rows) :
    ∃ vs, store.indexed = .ok vs ∧
      List.Forall₂ (Nesting.IsRow read) vs ((indices store.size).map rows) := by
  have hlookup : ∀ id ∈ indices store.size, ∃ v, store.get? id = some v := fun id hid =>
    IdMap.mem_keys_iff.mp ((h id).mpr (mem_indices_iff.mp hid))
  obtain ⟨vs, hvs⟩ := exists_forall₂ hlookup
  have hvectors : List.Forall₂ (fun id v => store.vectorAt id = .ok v) (indices store.size) vs :=
    hvs.imp fun id v hv => by rw [vectorAt, hv]
  refine ⟨vs, ?_, List.forall₂_map_right_iff.mpr (hvs.flip.imp fun v id hv => hstore id v hv)⟩
  rw [indexed, readEach_of_forall₂ hvectors]
  rfl

theorem IsIndexed.oneLength_iff (h : store.IsIndexed) :
    store.OneLength rows ↔ SameLength ((indices store.size).map rows) := by
  have hkeys : ∀ id, id ∈ store.keys ↔ id ∈ indices store.size := fun id =>
    (h id).trans mem_indices_iff.symm
  simp only [OneLength, SameLength, List.forall_mem_map, hkeys]

theorem Refused.indexedBlock_eq (h : store.Refused rows failure)
    (hstore : store.HoldsAt read rows) : store.indexedBlock read = .error failure := by
  cases h with
  | gap hindexed hgap => rw [indexedBlock, indexed_eq_missing hindexed hgap]
  | uneven hindexed huneven =>
      obtain ⟨vs, hvs, hrows⟩ := hindexed.exists_rows hstore
      rw [indexedBlock, hvs]
      exact block_eq_ragged hrows (mt hindexed.oneLength_iff.mpr huneven)

theorem indexedBlock_eq_of_get?_eq {store' : Store β} (h : ∀ id, store'.get? id = store.get? id) :
    store'.indexedBlock read = store.indexedBlock read := by
  rw [indexedBlock, indexedBlock, indexed_eq_of_get?_eq h]

theorem length_map_indices (rows : ℤ → List α) (n : ℕ) :
    ((indices n).map rows).length = n := by
  simp [indices]

theorem map_indices_ne_nil (h : store ≠ ∅) : (indices store.size).map rows ≠ [] := by
  intro hnil
  have hsize : store.size = 0 := by
    rw [← length_map_indices rows store.size, hnil, List.length_nil]
  have hempty : store.isEmpty = true := by rw [isEmpty_eq_beq, hsize]; rfl
  exact h (IdMap.isEmpty_iff.mp hempty)

section Products

variable [Zero α] [Add α] [Mul α]

theorem Stackable.exists_indexes (h : store.Stackable rows) (hstore : store.HoldsAt read rows) :
    ∃ k, (∀ id ∈ store.keys, (rows id).length = k) ∧
      store.Indexes read k ((indices store.size).map rows) := by
  obtain ⟨k, hk⟩ := exists_length_of_sameLength (h.indexed.oneLength_iff.mp h.oneLength)
  have hlength : ∀ id ∈ store.keys, (rows id).length = k := fun id hid =>
    hk _ (List.mem_map_of_mem (mem_indices_iff.mpr ((h.indexed id).mp hid)))
  refine ⟨k, hlength, by simp [indices], fun i hi => ?_⟩
  have hid : (i : ℤ) ∈ store.keys := isIndexed_iff.mp h.indexed i (by simpa [indices] using hi)
  obtain ⟨v, hv⟩ := IdMap.mem_keys_iff.mp hid
  refine ⟨v, hv, ?_⟩
  have hrow : ((indices store.size).map rows)[i] = rows i := by simp [indices]
  rw [hrow, ← hlength i hid]
  exact hstore i v hv

/-! ## Two stores -/

/-- What a product of two stores comes to.  Empty stores come first, then what stands against
the first one, then what stands against the second one, and then the lengths of both. -/
inductive Crosses (x y : Store β) (xs ys : ℤ → List α) : Except Failure (Dense α) → Prop
  | empty : x = ∅ ∨ y = ∅ → Crosses x y xs ys (.ok (Dense.zeros x.size y.size))
  | left {failure : Failure} : x ≠ ∅ → y ≠ ∅ → x.Refused xs failure →
      Crosses x y xs ys (.error failure)
  | right {failure : Failure} : x ≠ ∅ → y ≠ ∅ → x.Stackable xs → y.Refused ys failure →
      Crosses x y xs ys (.error failure)
  | mismatch {id id' : ℤ} : x ≠ ∅ → y ≠ ∅ → x.Stackable xs → y.Stackable ys →
      id ∈ x.keys → id' ∈ y.keys → (xs id).length ≠ (ys id').length →
      Crosses x y xs ys (.error .shapeMismatch)
  | product {p : Dense α} : x ≠ ∅ → y ≠ ∅ → x.Stackable xs → y.Stackable ys →
      (∀ id ∈ x.keys, ∀ id' ∈ y.keys, (xs id).length = (ys id').length) →
      p.rows = x.size → p.columns = y.size →
      (∀ i < x.size, ∀ j < y.size,
        p.get? i j = some (List.zipWith (· * ·) (xs i) (ys j)).sum) → Crosses x y xs ys (.ok p)

theorem cross_of_empty (h : x = ∅ ∨ y = ∅) :
    x.cross read y = .ok (Dense.zeros x.size y.size) := by
  refine if_pos ?_
  rw [Bool.or_eq_true, IdMap.isEmpty_iff, IdMap.isEmpty_iff]
  exact h

theorem cross_of_ne (hx : x ≠ ∅) (hy : y ≠ ∅) :
    x.cross read y = (x.indexedBlock read).bind fun a =>
      (y.indexedBlock read).bind fun b => a.timesReversed b := by
  have hne : ¬ (x.isEmpty || y.isEmpty) = true := by
    rw [Bool.or_eq_true, IdMap.isEmpty_iff, IdMap.isEmpty_iff]
    exact not_or.mpr ⟨hx, hy⟩
  rw [cross, if_neg hne]
  cases x.indexedBlock read with
  | error failure => rfl
  | ok a => cases y.indexedBlock read <;> rfl

theorem cross_eq_of_get?_eq {x' y' : Store β} (hx : ∀ id, x'.get? id = x.get? id)
    (hy : ∀ id, y'.get? id = y.get? id) : x'.cross read y' = x.cross read y := by
  have hempty : (x'.isEmpty || y'.isEmpty) = (x.isEmpty || y.isEmpty) := by
    simp only [isEmpty_eq_beq, size_eq_of_get?_eq hx, size_eq_of_get?_eq hy]
  rw [cross, cross, hempty, size_eq_of_get?_eq hx, size_eq_of_get?_eq hy,
    indexedBlock_eq_of_get?_eq hx, indexedBlock_eq_of_get?_eq hy]

variable {r : Except Failure (Dense α)} {p : Dense α}

/-- The dot products of the rows of two stores by index. -/
theorem get?_ofDots_indices {n m i j : ℕ} (hi : i < n) (hj : j < m) :
    (Dense.ofDots ((indices n).map xs) ((indices m).map ys)).get? i j =
      some (List.zipWith (· * ·) (xs i) (ys j)).sum := by
  rw [Dense.get?_ofDots]
  simp [indices, hi, hj, dot]

/-- What the product comes to is what it is. -/
theorem Crosses.cross_eq (h : Crosses x y xs ys r) (hx : x.HoldsAt read xs)
    (hy : y.HoldsAt read ys) : x.cross read y = r := by
  cases h with
  | empty hempty => exact cross_of_empty hempty
  | left hneX hneY hrefused =>
      rw [cross_of_ne hneX hneY, hrefused.indexedBlock_eq hx]
      rfl
  | right hneX hneY hstackable hrefused =>
      obtain ⟨k, -, hindexes⟩ := hstackable.exists_indexes hx
      obtain ⟨_, hblock⟩ := hindexes.exists_indexedBlock (map_indices_ne_nil hneX)
      rw [cross_of_ne hneX hneY, hblock, hrefused.indexedBlock_eq hy]
      rfl
  | mismatch hneX hneY hstackableX hstackableY hid hid' hlength =>
      obtain ⟨k, hk, hindexesX⟩ := hstackableX.exists_indexes hx
      obtain ⟨l, hl, hindexesY⟩ := hstackableY.exists_indexes hy
      obtain ⟨_, hblockX⟩ := hindexesX.exists_indexedBlock (map_indices_ne_nil hneX)
      obtain ⟨_, hblockY⟩ := hindexesY.exists_indexedBlock (map_indices_ne_nil hneY)
      rw [hk _ hid, hl _ hid'] at hlength
      rw [cross_of_ne hneX hneY, hblockX, hblockY]
      exact if_pos hlength
  | product hneX hneY hstackableX hstackableY hlength hrows hcolumns hentries =>
      obtain ⟨k, hk, hindexesX⟩ := hstackableX.exists_indexes hx
      obtain ⟨l, hl, hindexesY⟩ := hstackableY.exists_indexes hy
      obtain rfl : k = l := by
        obtain ⟨id, hid⟩ := exists_mem_keys hneX
        obtain ⟨id', hid'⟩ := exists_mem_keys hneY
        rw [← hk id hid, ← hl id' hid', hlength id hid id' hid']
      rw [hindexesX.cross_eq hindexesY (map_indices_ne_nil hneX) (map_indices_ne_nil hneY)]
      have hcountX := length_map_indices xs x.size
      have hcountY := length_map_indices ys y.size
      refine congrArg Except.ok (Dense.ext_get? (hcountX.trans hrows.symm)
        (hcountY.trans hcolumns.symm) fun i hi j hj => ?_)
      have hi' : i < x.size := hcountX ▸ hi
      have hj' : j < y.size := hcountY ▸ hj
      rw [get?_ofDots_indices hi' hj', hentries i hi' j hj']

theorem exists_crosses (x y : Store β) (xs ys : ℤ → List α) : ∃ r, Crosses x y xs ys r := by
  by_cases hneX : x = ∅
  · exact ⟨_, .empty (Or.inl hneX)⟩
  by_cases hneY : y = ∅
  · exact ⟨_, .empty (Or.inr hneY)⟩
  rcases exists_refused_or_stackable x xs with ⟨failure, hrefused⟩ | hstackableX
  · exact ⟨_, .left hneX hneY hrefused⟩
  rcases exists_refused_or_stackable y ys with ⟨failure, hrefused⟩ | hstackableY
  · exact ⟨_, .right hneX hneY hstackableX hrefused⟩
  by_cases hlength : ∀ id ∈ x.keys, ∀ id' ∈ y.keys, (xs id).length = (ys id').length
  · refine ⟨.ok (.ofDots ((indices x.size).map xs) ((indices y.size).map ys)),
      .product hneX hneY hstackableX hstackableY hlength ?_ ?_ fun i hi j hj =>
        get?_ofDots_indices hi hj⟩
    · exact length_map_indices xs x.size
    · exact length_map_indices ys y.size
  · push Not at hlength
    obtain ⟨id, hid, id', hid', hne⟩ := hlength
    exact ⟨_, .mismatch hneX hneY hstackableX hstackableY hid hid' hne⟩

/-- Exchanging the stores transposes the matrix. -/
theorem Crosses.transpose (hcomm : ∀ a b : α, a * b = b * a) (h : Crosses x y xs ys (.ok p)) :
    Crosses y x ys xs (.ok p.transpose) := by
  cases h with
  | empty hempty =>
      rw [Dense.transpose_zeros]
      exact .empty hempty.symm
  | product hneX hneY hstackableX hstackableY hlength hrows hcolumns hentries =>
      refine .product hneY hneX hstackableY hstackableX
        (fun id hid id' hid' => (hlength id' hid' id hid).symm) hcolumns hrows ?_
      intro j hj i hi
      rw [Dense.get?_transpose (hcolumns ▸ hj) (hrows ▸ hi), hentries i hi j hj,
        List.zipWith_comm_of_comm hcomm]

/-- **What a product of two stores comes to.**  Of all stores of vectors of any lengths under any
ids, the product is what `Crosses` says.  It is the same for stores that hold the same under each
id, whatever the order of insertion.  And if it has a result, then the product of the stores
exchanged has the transposed one, where a product of scalars does not depend on their order. -/
theorem cross_iff_crosses (read : β → Except Failure α) (x y : Store β) (xs ys : ℤ → List α)
    (hx : x.HoldsAt read xs) (hy : y.HoldsAt read ys) :
    (∀ r, x.cross read y = r ↔ Crosses x y xs ys r) ∧
    (∀ x' y' : Store β, (∀ id, x'.get? id = x.get? id) → (∀ id, y'.get? id = y.get? id) →
      x'.cross read y' = x.cross read y) ∧
    ((∀ a b : α, a * b = b * a) → ∀ p, x.cross read y = .ok p →
      y.cross read x = .ok p.transpose) := by
  have hiff : ∀ r, x.cross read y = r ↔ Crosses x y xs ys r := by
    intro r
    constructor
    · rintro rfl
      obtain ⟨r, hr⟩ := exists_crosses x y xs ys
      rwa [hr.cross_eq hx hy]
    · exact fun h => h.cross_eq hx hy
  refine ⟨hiff, fun x' y' hx' hy' => cross_eq_of_get?_eq hx' hy', fun hcomm p hp => ?_⟩
  exact (((hiff _).mp hp).transpose hcomm).cross_eq hy hx

/-- Stores of integer vectors: a product and its transpose, and a store in which the index 1 is
missing, which is found before the lengths of its vectors are. -/
theorem cross_iff_crosses_integers :
    let x : Store ℤ := ⟨[(1, .vector [3, 0]), (0, .vector [1, 2])], by decide⟩
    let y : Store ℤ :=
      ⟨[(0, .vector [5, -1]), (2, .vector [0, 4]), (1, .vector [2, 2])], by decide⟩
    let z : Store ℤ := ⟨[(0, .vector [7]), (-3, .vector [1, 1])], by decide⟩
    let p : Dense ℤ := ⟨2, 3, [[3, 6, 8], [15, 6, 0]], by decide, by decide⟩
    x.cross .ok y = .ok p ∧ y.cross .ok x = .ok p.transpose ∧
      x.cross .ok z = .error (.missingId 1) ∧ z.cross .ok x = .error (.missingId 1) := by
  intro x y z p
  let xs : ℤ → List ℤ := fun id => if id = 0 then [1, 2] else [3, 0]
  let ys : ℤ → List ℤ := fun id => if id = 0 then [5, -1] else if id = 1 then [2, 2] else [0, 4]
  let zs : ℤ → List ℤ := fun id => if id = 0 then [7] else [1, 1]
  have hx : x.HoldsAt .ok xs := holdsAt_of_entries <| List.forall_mem_cons.mpr
    ⟨Nesting.isVector_vector [3, 0], List.forall_mem_singleton.mpr (Nesting.isVector_vector [1, 2])⟩
  have hy : y.HoldsAt .ok ys := holdsAt_of_entries <| List.forall_mem_cons.mpr
    ⟨Nesting.isVector_vector [5, -1], List.forall_mem_cons.mpr ⟨Nesting.isVector_vector [0, 4],
      List.forall_mem_singleton.mpr (Nesting.isVector_vector [2, 2])⟩⟩
  have hz : z.HoldsAt .ok zs := holdsAt_of_entries <| List.forall_mem_cons.mpr
    ⟨Nesting.isVector_vector [7], List.forall_mem_singleton.mpr (Nesting.isVector_vector [1, 1])⟩
  have hneX : x ≠ ∅ := fun h => absurd (congrArg IdMap.size h) (by decide)
  have hneY : y ≠ ∅ := fun h => absurd (congrArg IdMap.size h) (by decide)
  have hneZ : z ≠ ∅ := fun h => absurd (congrArg IdMap.size h) (by decide)
  have hstackX : x.Stackable xs := ⟨isIndexed_iff.mpr (by decide), by unfold OneLength; decide⟩
  have hstackY : y.Stackable ys := ⟨isIndexed_iff.mpr (by decide), by unfold OneLength; decide⟩
  have hgap : z.FirstGap 1 := by unfold FirstGap; decide
  have hrefused : z.Refused zs (.missingId 1) := .gap (mt isIndexed_iff.mp (by decide)) hgap
  obtain ⟨hxy, -, htranspose⟩ := cross_iff_crosses .ok x y xs ys hx hy
  have hproduct : x.cross .ok y = .ok p :=
    (hxy _).mpr (.product hneX hneY hstackX hstackY (by decide) rfl rfl (by decide))
  exact ⟨hproduct, htranspose mul_comm p hproduct,
    ((cross_iff_crosses .ok x z xs zs hx hz).1 _).mpr (.right hneX hneZ hstackX hrefused),
    ((cross_iff_crosses .ok z x zs xs hz hx).1 _).mpr (.left hneZ hneX hrefused)⟩

end Products

end Store

end LeastSquares

import LeastSquares.Kernel.Operand
import LeastSquares.Proofs.Store.Reading
import LeastSquares.Proofs.Store.Traversal

/-!
# Projecting a store, and its vectors one by one

A matrix is applied to a store vector by vector.  So the result for a store is known
from the results for its vectors by themselves: the same ids, each result narrowed, and
where one of the vectors is refused, the refusal of the first of them.

What makes this more than the definition of a traversal is that a single vector takes
another path than a stored one: an array has its entries in a fixed format already and
is used as it is, while the vectors of a store are all read as nestings.  `Alone` says
which operand a stored vector is by itself, and by `Alone.applyTo_eq` the two paths
agree, in failure as well.
-/

namespace LeastSquares

/-! ## Single vectors -/

/-- A stored vector and the operand that it is by itself: a list, or an array of some
format.  Of an array that is no vector only the number of its axes counts, and there are arrays
without entries whose shape no nesting has. -/
inductive Alone : Nesting Datum → Operand → Prop
  | list (children : List (Nesting Datum)) : Alone (.node children) (.nesting (.node children))
  | array (kind : ElementKind) {v held : Nesting Datum} {a : NArray Float}
      (hheld : kind.hold v = .ok held) (hread : NArray.read kind.read v = .ok a) :
      Alone held (.array a)
  | noVector {v : Nesting Datum} {a a' : NArray Float} (hread : NArray.read Datum.entry v = .ok a')
      (hrank : a'.rank = a.rank) (hne : a.rank ≠ 1) : Alone v (.array a)

/-- What a vector of a store becomes. -/
def Dense.narrowed (m : Dense Float) (v : Nesting Datum) : Except Failure (List Float) :=
  (m.project Datum.entry v).map fun x => x.map Number.narrow

namespace Dense

variable {m : Dense Float} {v : Nesting Datum}

theorem length_of_project {x : List Float} (h : m.project Datum.entry v = .ok x) :
    x.length = m.rows := by
  unfold project at h
  cases hread : NArray.read Datum.entry v with
  | error failure => simp [hread] at h
  | ok a =>
      simp only [hread] at h
      obtain ⟨w, -, rfl⟩ := map_eq_ok_iff.mp h
      exact length_apply m w

theorem applyArray_of_rank_ne_one {a : NArray Float} (h : a.rank ≠ 1) :
    m.applyArray a = .error (.vectorRank a.rank) := by
  obtain ⟨shape, entries, hlength⟩ := a
  match shape with
  | [] => rfl
  | [n] => exact absurd rfl h
  | _ :: _ :: _ => rfl

end Dense

section Single

variable {M : MatrixValue} {m : Dense Float} {v : Nesting Datum} {o : Operand}

/-- A stored vector by itself is projected as what a store would read it as. -/
theorem Alone.applyTo_eq (halone : Alone v o) (hM : M.access = .ok m) :
    M.applyTo o = (m.project Datum.entry v).map .vector := by
  cases halone with
  | list children => simp only [MatrixValue.applyTo, hM, Dense.applyTo]
  | array kind hheld hread =>
      -- Its scalars have the format already, so reading them again changes nothing.
      have hread' := ElementKind.read_hold hheld hread
      simp only [MatrixValue.applyTo, hM, Dense.applyTo, Dense.project, hread']
  | noVector hread hrank hne =>
      simp only [MatrixValue.applyTo, hM, Dense.applyTo, Dense.project, hread,
        Dense.applyArray_of_rank_ne_one hne, Dense.applyArray_of_rank_ne_one (hrank ▸ hne), hrank]

theorem Alone.narrowed_eq_error_iff (halone : Alone v o) (hM : M.access = .ok m)
    {failure : Failure} : m.narrowed v = .error failure ↔ M.applyTo o = .error failure := by
  rw [halone.applyTo_eq hM, Dense.narrowed, map_eq_error_iff, map_eq_error_iff]

theorem Alone.narrowed_eq_ok_iff (halone : Alone v o) (hM : M.access = .ok m)
    {y : List Float} :
    m.narrowed v = .ok y ↔ ∃ x, M.applyTo o = .ok (.vector x) ∧ x.map Number.narrow = y := by
  rw [halone.applyTo_eq hM, Dense.narrowed, map_eq_ok_iff]
  simp [map_eq_ok_iff]

theorem Alone.exists_narrowed_iff (halone : Alone v o) (hM : M.access = .ok m) :
    (∃ y, m.narrowed v = .ok y) ↔ ∃ result, M.applyTo o = .ok result := by
  rw [halone.applyTo_eq hM, Dense.narrowed]
  simp [map_eq_ok_iff]

theorem Alone.length_eq (halone : Alone v o) (hM : M.access = .ok m) {x : List Float}
    (h : M.applyTo o = .ok (.vector x)) : x.length = m.rows := by
  rw [halone.applyTo_eq hM] at h
  obtain ⟨x', hx', hx⟩ := map_eq_ok_iff.mp h
  cases hx
  exact Dense.length_of_project hx'

end Single

/-! ## Stores -/

section Stores

variable {M : MatrixValue} {m : Dense Float} {S : Store Datum} {images : IdMap (List Float)}

theorem MatrixValue.applyTo_store_eq (hM : M.access = .ok m) (S : Store Datum) :
    M.applyTo (.store S) = (S.traverse fun _ v => m.narrowed v).map .store := by
  simp only [applyTo, hM, Dense.applyTo]
  rfl

theorem MatrixValue.applyTo_store_eq_ok_iff (hM : M.access = .ok m) :
    M.applyTo (.store S) = .ok (.store images) ↔
      S.traverse (fun _ v => m.narrowed v) = .ok images := by
  rw [applyTo_store_eq hM, map_eq_ok_iff]
  simp

theorem MatrixValue.applyTo_store_eq_error_iff (hM : M.access = .ok m) {failure : Failure} :
    M.applyTo (.store S) = .error failure ↔
      S.traverse (fun _ v => m.narrowed v) = .error failure := by
  rw [applyTo_store_eq hM, map_eq_error_iff]

/-- A result for a store is a store. -/
theorem MatrixValue.exists_images (hM : M.access = .ok m) {result : Projected}
    (h : M.applyTo (.store S) = .ok result) : ∃ images, result = .store images := by
  rw [applyTo_store_eq hM] at h
  obtain ⟨images, -, himages⟩ := map_eq_ok_iff.mp h
  exact ⟨images, himages.symm⟩

/-! ### In terms of the vectors by themselves -/

variable {alone : Int → Operand}

theorem MatrixValue.exists_applyTo_store_iff (hM : M.access = .ok m)
    (halone : ∀ id v, S.get? id = some v → Alone v (alone id)) :
    (∃ result, M.applyTo (.store S) = .ok result) ↔
      ∀ id ∈ S.keys, ∃ result, M.applyTo (alone id) = .ok result := by
  have hstore : (∃ result, M.applyTo (.store S) = .ok result) ↔
      ∃ images, S.traverse (fun _ v => m.narrowed v) = .ok images := by
    rw [applyTo_store_eq hM]
    simp [map_eq_ok_iff]
  rw [hstore, IdMap.exists_traverse_iff]
  constructor
  · intro hall id hid
    obtain ⟨v, hv⟩ := IdMap.mem_keys_iff.mp hid
    exact ((halone id v hv).exists_narrowed_iff hM).mp (hall id v hv)
  · intro hall id v hv
    exact ((halone id v hv).exists_narrowed_iff hM).mpr (hall id (IdMap.mem_keys_iff.mpr ⟨v, hv⟩))

theorem MatrixValue.image_of_applyTo_store (hM : M.access = .ok m)
    (halone : ∀ id v, S.get? id = some v → Alone v (alone id))
    (h : M.applyTo (.store S) = .ok (.store images)) {id : Int} (hid : id ∈ S.keys) :
    ∃ x, M.applyTo (alone id) = .ok (.vector x) ∧
      images.get? id = some (x.map Number.narrow) ∧ x.length = m.rows := by
  obtain ⟨v, hv⟩ := IdMap.mem_keys_iff.mp hid
  obtain ⟨y, hy, hget⟩ := IdMap.exists_image_of_traverse ((applyTo_store_eq_ok_iff hM).mp h) hv
  obtain ⟨x, hx, rfl⟩ := ((halone id v hv).narrowed_eq_ok_iff hM).mp hy
  exact ⟨x, hx, hget, (halone id v hv).length_eq hM hx⟩

/-- A store is refused with the refusal of its first vector that is refused by itself. -/
theorem MatrixValue.applyTo_store_eq_first_error_iff (hM : M.access = .ok m)
    (halone : ∀ id v, S.get? id = some v → Alone v (alone id)) {failure : Failure} :
    M.applyTo (.store S) = .error failure ↔
      ∃ before id after, S.keys = before ++ id :: after ∧
        (∀ k ∈ before, ∃ result, M.applyTo (alone k) = .ok result) ∧
        M.applyTo (alone id) = .error failure := by
  rw [applyTo_store_eq_error_iff hM, IdMap.traverse_eq_error_iff]
  have hmem : ∀ {e : Int × Nesting Datum}, e ∈ S.entries → Alone e.2 (alone e.1) :=
    fun he => halone _ _ (IdMap.mem_entries_iff.mp he)
  -- The ids are the entries without the vectors, so both are cut at the same place.
  constructor
  · rintro ⟨before, id, v, after, hentries, hbefore, hfails⟩
    have hv : (id, v) ∈ S.entries := by simp [hentries]
    refine ⟨before.map Prod.fst, id, after.map Prod.fst, by simp [IdMap.keys, hentries], ?_,
      ((hmem hv).narrowed_eq_error_iff hM).mp hfails⟩
    intro k hk
    obtain ⟨e, he, rfl⟩ := List.mem_map.mp hk
    exact ((hmem (by simp [hentries, he])).exists_narrowed_iff hM).mp (hbefore e he)
  · rintro ⟨before, id, after, hkeys, hbefore, hfails⟩
    obtain ⟨l, rest, hentries, rfl, hrest⟩ := List.map_eq_append_iff.mp hkeys
    obtain ⟨⟨id', v⟩, l', rfl, hid, rfl⟩ := List.map_eq_cons_iff.mp hrest
    obtain rfl : id' = id := hid
    have hv : (id', v) ∈ S.entries := by simp [hentries]
    refine ⟨l, id', v, l', hentries, fun e he => ?_,
      ((hmem hv).narrowed_eq_error_iff hM).mpr hfails⟩
    exact ((hmem (by simp [hentries, he])).exists_narrowed_iff hM).mpr
      (hbefore e.1 (List.mem_map_of_mem he))

/-! ### In terms of parts of the store -/

variable {parts : List (Store Datum)}

theorem MatrixValue.merge_of_applyTo_store (hM : M.access = .ok m) (hcover : S.IsCover parts)
    (h : M.applyTo (.store S) = .ok (.store images)) :
    ∃ outputs, List.Forall₂ (fun part output => M.applyTo (.store part) = .ok (.store output))
        parts outputs ∧
      ∀ id, (IdMap.merge outputs).get? id = images.get? id := by
  have htraverse := (applyTo_store_eq_ok_iff hM).mp h
  obtain ⟨outputs, houtputs⟩ := IdMap.exists_outputs_of_traverse hcover htraverse
  exact ⟨outputs, houtputs.imp fun _ _ => (applyTo_store_eq_ok_iff hM).mpr,
    IdMap.get?_merge_of_traverse hcover htraverse houtputs⟩

theorem MatrixValue.exists_part_of_applyTo_store_error (hM : M.access = .ok m)
    (hcover : S.IsCover parts) {failure : Failure} (h : M.applyTo (.store S) = .error failure) :
    ∃ part ∈ parts, ∃ failure', M.applyTo (.store part) = .error failure' := by
  obtain ⟨part, hpart, failure', hfails⟩ :=
    IdMap.exists_part_of_error hcover ((applyTo_store_eq_error_iff hM).mp h)
  exact ⟨part, hpart, failure', (applyTo_store_eq_error_iff hM).mpr hfails⟩

/-- A matrix is applied to a store as to its vectors one by one, whether these are lists or
arrays: with a result exactly if each of them has one, which is then kept narrowed under its
id, and else with the refusal of the first one.  A store that is cut into parts gives the same
result when those of the parts are merged, and no part of it can be refused alone. -/
theorem MatrixValue.applyTo_store (hM : M.access = .ok m)
    (halone : ∀ id v, S.get? id = some v → Alone v (alone id)) :
    ((∃ result, M.applyTo (.store S) = .ok result) ↔
      ∀ id ∈ S.keys, ∃ result, M.applyTo (alone id) = .ok result) ∧
    (∀ result, M.applyTo (.store S) = .ok result →
      ∃ images, result = .store images ∧ images.keys = S.keys ∧
        ∀ id ∈ S.keys, ∃ x, M.applyTo (alone id) = .ok (.vector x) ∧
          images.get? id = some (x.map Number.narrow) ∧ x.length = m.rows) ∧
    (∀ failure, M.applyTo (.store S) = .error failure ↔
      ∃ before id after, S.keys = before ++ id :: after ∧
        (∀ k ∈ before, ∃ result, M.applyTo (alone k) = .ok result) ∧
        M.applyTo (alone id) = .error failure) ∧
    (∀ parts, S.IsCover parts →
      (∀ images, M.applyTo (.store S) = .ok (.store images) →
        ∃ outputs,
          List.Forall₂ (fun part output => M.applyTo (.store part) = .ok (.store output))
            parts outputs ∧
          ∀ id, (IdMap.merge outputs).get? id = images.get? id) ∧
      ∀ failure, M.applyTo (.store S) = .error failure →
        ∃ part ∈ parts, ∃ failure', M.applyTo (.store part) = .error failure') := by
  refine ⟨exists_applyTo_store_iff hM halone, ?_,
    fun failure => applyTo_store_eq_first_error_iff hM halone, ?_⟩
  · intro result h
    obtain ⟨images, rfl⟩ := exists_images hM h
    exact ⟨images, rfl, IdMap.keys_traverse ((applyTo_store_eq_ok_iff hM).mp h),
      fun id hid => image_of_applyTo_store hM halone h hid⟩
  · intro parts hcover
    exact ⟨fun images h => merge_of_applyTo_store hM hcover h,
      fun failure h => exists_part_of_applyTo_store_error hM hcover h⟩

/-- An array of 32-bit entries, an array without axes, a list that is too long for the matrix
and an array of four columns and no rows: the store is refused for the second one, and the first
one by itself is not. -/
theorem MatrixValue.applyTo_store_second_refused :
    let M : MatrixValue := .dense (Dense.ofFn 2 1 fun i _ => if i = 0 then 2 else 4)
    let S : Store Datum := ⟨[(5, .vector [.float (Number.narrow 0.1)]),
      (-3, .leaf (.float (Float.ofInt 3))), (9, .vector [.int 1, .int 2]),
      (7, .node [.node []])], by decide⟩
    let first : Store Datum := ⟨[(5, .vector [.float (Number.narrow 0.1)])], by decide⟩
    M.applyTo (.store S) = .error (.vectorRank 0) ∧
      ∃ result, M.applyTo (.store first) = .ok result := by
  intro M S first
  let alone : Int → Operand := fun id =>
    if id = 5 then .array ⟨[1], [Number.narrow 0.1], rfl⟩
    else if id = -3 then .array ⟨[], [Float.ofInt 3], rfl⟩
    else if id = 9 then .nesting (.vector [.int 1, .int 2])
    else .array ⟨[0, 4], [], rfl⟩
  have hfirst : Alone (.vector [.float (Number.narrow 0.1)]) (alone 5) :=
    .array .float32 (v := .vector [.float 0.1]) rfl rfl
  have halone : ∀ id v, S.get? id = some v → Alone v (alone id) := by
    intro id v hv
    have hmem := IdMap.mem_entries_iff.mpr hv
    simp only [S, List.mem_cons, Prod.mk.injEq, List.not_mem_nil, or_false] at hmem
    rcases hmem with ⟨rfl, rfl⟩ | ⟨rfl, rfl⟩ | ⟨rfl, rfl⟩ | ⟨rfl, rfl⟩
    · exact hfirst
    · exact .array .int64 (v := .leaf (.int 3)) rfl rfl
    · exact .list _
    · exact .noVector rfl rfl (by decide)
  have halone' : ∀ id v, first.get? id = some v → Alone v (alone id) := by
    intro id v hv
    have hmem := IdMap.mem_entries_iff.mpr hv
    simp only [first, List.mem_singleton, Prod.mk.injEq] at hmem
    obtain ⟨rfl, rfl⟩ := hmem
    exact hfirst
  have hok : ∃ result, M.applyTo (alone 5) = .ok result := ⟨_, rfl⟩
  constructor
  · refine ((applyTo_store (M := M) rfl halone).2.2.1 _).mpr ⟨[5], -3, [9, 7], rfl, ?_, rfl⟩
    simpa using hok
  · refine (applyTo_store (M := M) rfl halone').1.mpr ?_
    simpa [first, IdMap.keys] using hok

end Stores

end LeastSquares

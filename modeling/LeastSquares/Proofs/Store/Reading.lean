import LeastSquares.Kernel.Store
import LeastSquares.Proofs.Store.Traversal

/-!
# What a nesting is read as

A nesting is read as an array if it is rectangular and each of its scalars can be read.
`NArray.read_eq_ok_iff` says this with the scalars of the nesting on one side and the
entries of the array on the other, from left to right, and what stacked vectors are read
as follows from it (`block_of_forall₂`).  Vectors of different lengths are not stacked,
whatever their scalars are (`block_eq_ragged`).

An array of any format that is held in a store as a nesting is read as the same array as
by itself (`ElementKind.read_hold`): the conversion to the format was done when it was
put there, and is not done again.
-/

namespace LeastSquares

variable {α β γ : Type*}

/-! ## Members of a list -/

section Members

variable {f : β → Except Failure α} {l : List β}

theorem forall₂_of_readEach {r : { r : List α // r.length = l.length }}
    (h : readEach f l = .ok r) : List.Forall₂ (fun x y => f x = .ok y) l r.val := by
  induction l with
  | nil =>
      cases h
      exact .nil
  | cons x rest ih =>
      rw [readEach] at h
      cases hx : f x with
      | error failure => simp [hx] at h
      | ok y =>
          cases hrest : readEach f rest with
          | error failure => simp [hx, hrest] at h
          | ok ys =>
              simp only [hx, hrest, Except.ok.injEq] at h
              subst h
              exact .cons hx (ih hrest)

theorem readEach_of_forall₂ {r : List α} (h : List.Forall₂ (fun x y => f x = .ok y) l r) :
    readEach f l = .ok ⟨r, h.length_eq.symm⟩ := by
  induction h with
  | nil => rfl
  | cons hx _ ih => rw [readEach, hx, ih]

theorem readEach_eq_error {before after : List β} {x : β} {failure : Failure}
    (hbefore : ∀ y ∈ before, ∃ z, f y = .ok z) (h : f x = .error failure) :
    readEach f (before ++ x :: after) = .error failure := by
  induction before with
  | nil => rw [List.nil_append, readEach, h]
  | cons y before ih =>
      obtain ⟨⟨z, hz⟩, hrest⟩ := List.forall_mem_cons.mp hbefore
      rw [List.cons_append, readEach, hz, ih hrest]

end Members

/-! ## Nestings -/

namespace Nesting

variable {g : β → Except Failure γ}

theorem shapes?_eq_some_iff {ns : List (Nesting α)} {shapes : List (List ℕ)} :
    shapes? ns = some shapes ↔ List.Forall₂ (fun n s => n.shape? = some s) ns shapes := by
  induction ns generalizing shapes with
  | nil => simp [shapes?, eq_comm]
  | cons n ns ih =>
      rw [shapes?, Option.bind_eq_some_iff]
      constructor
      · rintro ⟨s, hs, hmap⟩
        obtain ⟨rest, hrest, rfl⟩ := Option.map_eq_some_iff.mp hmap
        exact .cons hs (ih.mp hrest)
      · rintro (_ | ⟨hs, hrest⟩)
        exact ⟨_, hs, Option.map_eq_some_iff.mpr ⟨_, ih.mpr hrest, rfl⟩⟩

mutual

/-- A nesting of images has the shape of the nesting, and the images as its scalars. -/
theorem traverse_spec : ∀ (n : Nesting β) (n' : Nesting γ), n.traverse g = .ok n' →
    n'.shape? = n.shape? ∧ List.Forall₂ (fun x y => g x = .ok y) n.leaves n'.leaves
  | leaf x, n', h => by
      obtain ⟨y, hy, rfl⟩ := map_eq_ok_iff.mp h
      exact ⟨rfl, .cons hy .nil⟩
  | node children, n', h => by
      obtain ⟨images, himages, rfl⟩ := map_eq_ok_iff.mp h
      obtain ⟨hshapes, hleaves⟩ := traverseAll_spec children images himages
      exact ⟨by rw [shape?, shape?, hshapes], hleaves⟩

theorem traverseAll_spec : ∀ (ns : List (Nesting β)) (ns' : List (Nesting γ)),
    traverseAll g ns = .ok ns' →
      shapes? ns' = shapes? ns ∧
        List.Forall₂ (fun x y => g x = .ok y) (leavesAll ns) (leavesAll ns')
  | [], ns', h => by
      rw [traverseAll] at h
      cases h
      exact ⟨rfl, .nil⟩
  | n :: rest, ns', h => by
      rw [traverseAll] at h
      cases hn : traverse g n with
      | error failure => simp [hn] at h
      | ok n' =>
          cases hrest : traverseAll g rest with
          | error failure => simp [hn, hrest] at h
          | ok rest' =>
              simp only [hn, hrest, Except.ok.injEq] at h
              subst h
              obtain ⟨hshape, hleaves⟩ := traverse_spec n n' hn
              obtain ⟨hshapes, hleavesAll⟩ := traverseAll_spec rest rest' hrest
              exact ⟨by rw [shapes?, shapes?, hshape, hshapes],
                List.rel_append hleaves hleavesAll⟩

end

end Nesting

/-! ## Arrays -/

namespace NArray

variable {f : β → Except Failure α} {n : Nesting β} {a : NArray α}

/-- A nesting is read as an array exactly if it has the shape of the array, which may not have
too many axes, and its scalars are read as the entries. -/
theorem read_eq_ok_iff :
    read f n = .ok a ↔ n.shape? = some a.shape ∧ a.shape.length ≤ maxRank ∧
      List.Forall₂ (fun x y => f x = .ok y) n.leaves a.entries := by
  obtain ⟨shape, entries, hlength⟩ := a
  unfold read
  split
  · rename_i hnone
    simp [hnone]
  · rename_i shape' hshape
    by_cases hrank : maxRank < shape'.length
    · rw [if_pos hrank]
      refine iff_of_false (fun h => by cases h) ?_
      rintro ⟨hsame, hle, -⟩
      obtain rfl : shape' = shape := Option.some_inj.mp (hshape.symm.trans hsame)
      exact absurd hrank (Nat.not_lt.mpr hle)
    · rw [if_neg hrank]
      constructor
      · intro h
        cases hentries : readEach f n.leaves with
        | error failure => simp [hentries] at h
        | ok r =>
            simp only [hentries, Except.ok.injEq, mk.injEq] at h
            obtain ⟨rfl, rfl⟩ := h
            exact ⟨hshape, Nat.le_of_not_lt hrank, forall₂_of_readEach hentries⟩
      · rintro ⟨hsame, -, hentries⟩
        obtain rfl : shape' = shape := Option.some_inj.mp (hshape.symm.trans hsame)
        rw [readEach_of_forall₂ hentries]

end NArray

/-- An array that was put into a store as a nesting is read as what it is by itself. -/
theorem ElementKind.read_hold {kind : ElementKind} {n held : Nesting Datum} {a : NArray Float}
    (hheld : kind.hold n = .ok held) (hread : NArray.read kind.read n = .ok a) :
    NArray.read Datum.entry held = .ok a := by
  rw [hold, hread] at hheld
  obtain ⟨hshape, hleaves⟩ := Nesting.traverse_spec n held hheld
  obtain ⟨hshape', hrank, hentries⟩ := NArray.read_eq_ok_iff.mp hread
  refine NArray.read_eq_ok_iff.mpr ⟨hshape.trans hshape', hrank, ?_⟩
  -- Each scalar that is held is the float that was read, and a float is read as itself.
  refine forall₂_of_common (fun scalar leaf entry hleaf hentry => ?_) hleaves hentries
  rw [hentry] at hleaf
  cases hleaf
  rfl

/-! ## Vectors -/

/-- A nesting that is read as a row of `k` scalars. -/
structure Nesting.IsVector (read : β → Except Failure α) (k : ℕ) (v : Nesting β)
    (xs : List α) : Prop where
  shape : v.shape? = some [k]
  entries : List.Forall₂ (fun y x => read y = .ok x) v.leaves xs

/-- A nesting that is read as these scalars in a row. -/
def Nesting.IsRow (read : β → Except Failure α) (v : Nesting β) (xs : List α) : Prop :=
  v.IsVector read xs.length xs

namespace Nesting

variable {read : β → Except Failure α} {k : ℕ} {vs : List (Nesting β)} {rows : List (List α)}

theorem IsVector.length_eq {v : Nesting β} {xs : List α} (h : v.IsVector read k xs) :
    xs.length = k := by
  rw [← h.entries.length_eq, length_leaves v [k] h.shape, volume_cons, volume_nil, Nat.mul_one]

theorem IsVector.isRow {v : Nesting β} {xs : List α} (h : v.IsVector read k xs) :
    v.IsRow read xs := by
  rw [IsRow, h.length_eq]
  exact h

theorem isVector_vector (xs : List α) : (vector xs).IsVector .ok xs.length xs where
  shape := shape?_vector xs
  entries := by
    rw [leaves_vector]
    exact List.forall₂_same.mpr fun _ _ => rfl

theorem IsVector.exists_read {v : Nesting β} {xs : List α} (h : v.IsVector read k xs) :
    ∃ a, NArray.read read v = .ok a ∧ a.shape = [k] ∧ a.entries = xs := by
  have hlength : xs.length = volume [k] := by
    rw [h.length_eq, volume_cons, volume_nil, Nat.mul_one]
  have hrank : [k].length ≤ NArray.maxRank := by
    simp [NArray.maxRank]
  exact ⟨⟨[k], xs, hlength⟩, NArray.read_eq_ok_iff.mpr ⟨h.shape, hrank, h.entries⟩, rfl, rfl⟩

theorem length_of_forall₂ (h : List.Forall₂ (IsVector read k) vs rows) :
    ∀ row ∈ rows, row.length = k := by
  intro row hrow
  obtain ⟨v, -, hv⟩ := exists_of_forall₂ h.flip hrow
  exact hv.length_eq

theorem shapes?_of_isRow (h : List.Forall₂ (IsRow read) vs rows) :
    shapes? vs = some (rows.map fun row => [row.length]) := by
  rw [shapes?_eq_some_iff, List.forall₂_map_right_iff]
  exact h.imp fun _ _ hv => hv.shape

theorem shapes?_of_forall₂ (h : List.Forall₂ (IsVector read k) vs rows) :
    shapes? vs = some (List.replicate rows.length [k]) := by
  rw [shapes?_of_isRow (h.imp fun _ _ hv => hv.isRow), List.map_eq_replicate_iff.mpr]
  exact fun row hrow => congrArg (fun n => [n]) (length_of_forall₂ h row hrow)

theorem leavesAll_of_forall₂ (h : List.Forall₂ (IsVector read k) vs rows) :
    List.Forall₂ (fun y x => read y = .ok x) (leavesAll vs) rows.flatten := by
  induction h with
  | nil => exact .nil
  | cons hv _ ih => exact List.rel_append hv.entries ih

theorem stackShapes_replicate {n : ℕ} (hn : n ≠ 0) (shape : List ℕ) :
    stackShapes (List.replicate n shape) = some (n :: shape) := by
  obtain ⟨n, rfl⟩ := Nat.exists_eq_succ_of_ne_zero hn
  rw [List.replicate_succ, stackShapes, if_pos (by simp), List.length_replicate]

end Nesting

/-- Vectors of one length are stacked as the rows of an array with two axes. -/
theorem block_of_forall₂ {read : β → Except Failure α} {k : ℕ} {vs : List (Nesting β)}
    {rows : List (List α)} (h : List.Forall₂ (Nesting.IsVector read k) vs rows)
    (hne : vs ≠ []) :
    ∃ hlength, block read vs = .ok ⟨[rows.length, k], rows.flatten, hlength⟩ := by
  have hlength : rows.flatten.length = Nesting.volume [rows.length, k] := by
    rw [NArray.length_flatten_eq_mul (Nesting.length_of_forall₂ h), Nesting.volume_pair]
  have hcount : rows.length ≠ 0 := by
    rw [← h.length_eq]
    exact mt List.length_eq_zero_iff.mp hne
  have hshape : (Nesting.node vs).shape? = some [rows.length, k] := by
    rw [Nesting.shape?, Nesting.shapes?_of_forall₂ h, Option.bind_some]
    exact Nesting.stackShapes_replicate hcount [k]
  have hrank : [rows.length, k].length ≤ NArray.maxRank := by
    simp [NArray.maxRank]
  exact ⟨hlength,
    NArray.read_eq_ok_iff.mpr ⟨hshape, hrank, Nesting.leavesAll_of_forall₂ h⟩⟩

/-! ## Vectors of several lengths -/

/-- Rows of one length, whichever that is. -/
def SameLength (rows : List (List α)) : Prop :=
  ∀ row ∈ rows, ∀ row' ∈ rows, row.length = row'.length

theorem exists_length_of_sameLength {rows : List (List α)} (h : SameLength rows) :
    ∃ k, ∀ row ∈ rows, row.length = k := by
  cases rows with
  | nil => exact ⟨0, fun row hrow => absurd hrow List.not_mem_nil⟩
  | cons first rest => exact ⟨first.length, fun row hrow => h row hrow first List.mem_cons_self⟩

namespace Nesting

variable {read : β → Except Failure α} {k : ℕ} {vs : List (Nesting β)} {rows : List (List α)}

theorem forall₂_isVector (h : List.Forall₂ (IsRow read) vs rows)
    (hlength : ∀ row ∈ rows, row.length = k) : List.Forall₂ (IsVector read k) vs rows := by
  induction h with
  | nil => exact .nil
  | cons hv _ ih =>
      obtain ⟨hrow, hrest⟩ := List.forall_mem_cons.mp hlength
      exact .cons (hrow ▸ hv) (ih hrest)

theorem stackShapes_eq_none {shapes : List (List ℕ)} {s t : List ℕ} (hs : s ∈ shapes)
    (ht : t ∈ shapes) (hne : s ≠ t) : stackShapes shapes = none := by
  cases shapes with
  | nil => cases hs
  | cons first rest =>
      refine if_neg fun hall => hne ?_
      have heq : ∀ u ∈ first :: rest, u = first :=
        List.forall_mem_cons.mpr ⟨rfl, fun u hu => eq_of_beq (List.all_eq_true.mp hall u hu)⟩
      exact (heq s hs).trans (heq t ht).symm

end Nesting

/-- Vectors of different lengths are not stacked. -/
theorem block_eq_ragged {read : β → Except Failure α} {vs : List (Nesting β)}
    {rows : List (List α)} (h : List.Forall₂ (Nesting.IsRow read) vs rows)
    (hrows : ¬ SameLength rows) : block read vs = .error .ragged := by
  unfold SameLength at hrows
  push Not at hrows
  obtain ⟨row, hrow, row', hrow', hne⟩ := hrows
  have hshape : (Nesting.node vs).shape? = none := by
    rw [Nesting.shape?, Nesting.shapes?_of_isRow h, Option.bind_some]
    exact Nesting.stackShapes_eq_none (List.mem_map_of_mem hrow) (List.mem_map_of_mem hrow')
      (by simpa using hne)
  rw [block, NArray.read]
  split
  · rfl
  · rename_i shape hsome
    cases hshape.symm.trans hsome

end LeastSquares

import LeastSquares.Proofs.Linear.Recovery

/-!
# The three kernels agree

A product of two stores, a matrix applied to a vector and a sum of normal equations are
computed on three paths.  The first one asks two stores for their indices from zero on and
stacks what it finds under them, the second one reads a single vector, and the third one
goes through a store chunk by chunk in order of insertion.  Over exact scalars they agree
where they can be compared.

What the first path needs of a store is `Store.Indexes`: under the indices from zero on
there are vectors of one length, put there in any order.  Such a store is stacked by index
(`Indexes.exists_indexedBlock`), and a product of two of them has the dot products of
their vectors as its entries (`Indexes.cross_eq`).  These are the entries of
`Dense.apply` in both directions, because a dot product does not depend on the order of
its factors, and those of `Dense.gram` if both stores hold the columns of one matrix.

The main result is `kernels_agree`.
-/

namespace LeastSquares

variable {α β : Type*}

/-! ## Stores by index -/

/-- A store that is keyed by the indices from zero on, with vectors of length `k` that are read as
the given ones.  The order of insertion may be another. -/
structure Store.Indexes [Zero α] [Add α] [Mul α] (read : β → Except Failure α) (k : ℕ)
    (store : Store β) (vectors : List (List α)) : Prop where
  size_eq : store.size = vectors.length
  exists_vector : ∀ i (hi : i < vectors.length),
    ∃ v, store.get? (i : ℤ) = some v ∧ v.IsVector read k vectors[i]

namespace Store.Indexes

section Stacking

variable [Zero α] [Add α] [Mul α] {read : β → Except Failure α} {k : ℕ} {store : Store β}
  {vectors : List (List α)}

theorem length_eq (h : store.Indexes read k vectors) : ∀ v ∈ vectors, v.length = k := by
  intro v hv
  obtain ⟨i, hi, rfl⟩ := List.getElem_of_mem hv
  obtain ⟨_, -, hvector⟩ := h.exists_vector i hi
  exact hvector.length_eq

theorem exists_nestings (h : store.Indexes read k vectors) :
    ∃ vs, List.Forall₂ (fun i v => store.vectorAt i = .ok v) (indices store.size) vs ∧
      List.Forall₂ (Nesting.IsVector read k) vs vectors := by
  have hlookup : ∀ i ∈ indices store.size, ∃ v, store.vectorAt i = .ok v := by
    intro i hi
    obtain ⟨n, hn, rfl⟩ := List.mem_map.mp hi
    obtain ⟨v, hv, -⟩ := h.exists_vector n (h.size_eq ▸ List.mem_range.mp hn)
    exact ⟨v, by rw [vectorAt, hv]⟩
  obtain ⟨vs, hvs⟩ := exists_forall₂ hlookup
  have hlength : vs.length = vectors.length := by
    rw [← hvs.length_eq, indices, List.length_map, List.length_range, h.size_eq]
  refine ⟨vs, hvs, List.forall₂_iff_get.mpr ⟨hlength, fun i hi hi' => ?_⟩⟩
  obtain ⟨v, hv, hvector⟩ := h.exists_vector i hi'
  have hindex : store.vectorAt (i : ℤ) = .ok vs[i] := by
    have hi'' : i < (indices store.size).length := hvs.length_eq ▸ hi
    have hfound := hvs.get hi'' hi
    simpa [indices] using hfound
  rw [vectorAt, hv] at hindex
  obtain rfl := Except.ok.inj hindex
  exact hvector

theorem exists_indexedBlock (h : store.Indexes read k vectors) (hne : vectors ≠ []) :
    ∃ hlength, store.indexedBlock read =
      .ok ⟨[vectors.length, k], vectors.flatten, hlength⟩ := by
  obtain ⟨vs, hvs, hvectors⟩ := h.exists_nestings
  have hindexed : store.indexed = .ok vs := by
    rw [indexed, readEach_of_forall₂ hvs]
    rfl
  have hvs' : vs ≠ [] := by
    rintro rfl
    exact hne (List.forall₂_nil_left_iff.mp hvectors)
  obtain ⟨hlength, hblock⟩ := block_of_forall₂ hvectors hvs'
  exact ⟨hlength, by rw [indexedBlock, hindexed]; exact hblock⟩

theorem isEmpty_eq_false (h : store.Indexes read k vectors) (hne : vectors ≠ []) :
    store.isEmpty = false := by
  have hsize : 0 < store.entries.length := by
    rw [← IdMap.size, h.size_eq]
    exact List.length_pos_of_ne_nil hne
  rw [IdMap.isEmpty, List.isEmpty_eq_false_iff]
  exact List.ne_nil_of_length_pos hsize

/-- The product of two stores consists of the dot products of their vectors. -/
theorem cross_eq {x y : Store β} {xs ys : List (List α)} (hx : x.Indexes read k xs)
    (hy : y.Indexes read k ys) (hxs : xs ≠ []) (hys : ys ≠ []) :
    x.cross read y = .ok (Dense.ofDots xs ys) := by
  obtain ⟨hlengthX, hblockX⟩ := hx.exists_indexedBlock hxs
  obtain ⟨hlengthY, hblockY⟩ := hy.exists_indexedBlock hys
  have hentriesX : (Dense.ofArray xs.length k xs.flatten hlengthX).entries = xs :=
    NArray.splitRows_flatten hx.length_eq
  have hentriesY : (Dense.ofArray ys.length k ys.flatten hlengthY).entries = ys :=
    NArray.splitRows_flatten hy.length_eq
  rw [cross, hx.isEmpty_eq_false hxs, hy.isEmpty_eq_false hys, hblockX, hblockY]
  simp only [Bool.or_self, Bool.false_eq_true, if_false]
  have hfits : ¬ (⟨[xs.length, k], xs.flatten, hlengthX⟩ : NArray α).lastLength ≠
      (⟨[ys.length, k], ys.flatten, hlengthY⟩ : NArray α).secondLength := not_not.mpr rfl
  rw [NArray.timesReversed, if_neg hfits]
  simp only [Dense.timesTranspose, hentriesX, hentriesY]

end Stacking

end Store.Indexes

/-! ## Single vectors -/

theorem dot_comm [CommRing α] (v w : List α) : dot v w = dot w v := by
  rw [dot, dot, List.zipWith_comm]
  simp only [mul_comm]

namespace Dense

variable [CommRing α] {read : β → Except Failure α}

theorem project_of_isVector {m : Dense α} {v : Nesting β} {x : List α}
    (hv : v.IsVector read m.columns x) : m.project read v = .ok (m.apply x) := by
  obtain ⟨a, hread, hshape, rfl⟩ := hv.exists_read
  rw [project, hread]
  simp only [applyArray, operand, hshape, if_true]
  rfl

/-- A list of vectors of one length as the rows of a matrix. -/
def ofRows (k : ℕ) (rows : List (List α)) (h : ∀ row ∈ rows, row.length = k) : Dense α :=
  ⟨rows.length, k, rows, rfl, h⟩

theorem getElem?_entries_ofDots {xs ys : List (List α)} {i : ℕ} (hi : i < xs.length) :
    (ofDots xs ys).entries[i]? = some (ys.map fun y => dot xs[i] y) := by
  rw [ofDots, List.getElem?_map, List.getElem?_eq_getElem hi, Option.map_some]

theorem column_ofDots {xs ys : List (List α)} {j : ℕ} (hj : j < ys.length) :
    (ofDots xs ys).column j = xs.map fun x => dot x ys[j] := by
  rw [column_eq_map hj, ofDots, List.map_map]
  refine List.map_congr_left fun x _ => ?_
  rw [Function.comp_apply, List.getD_eq_getElem _ _ (by simpa using hj), List.getElem_map]

end Dense

/-! ## The three kernels -/

section Agreement

variable [CommRing α] {read : β → Except Failure α} {k : ℕ}

/-- Each row of a product of two stores is the image of a vector of the first one under the
vectors of the second one, and each column the other way round. -/
theorem Store.Indexes.cross_apply {x y : Store β} {xs ys : List (List α)}
    (hx : x.Indexes read k xs) (hy : y.Indexes read k ys) (hxs : xs ≠ []) (hys : ys ≠ []) :
    ∃ X Y p : Dense α, X.entries = xs ∧ Y.entries = ys ∧ x.cross read y = .ok p ∧
      p.rows = xs.length ∧ p.columns = ys.length ∧
      (∀ i < xs.length, ∃ v row, x.get? (i : ℤ) = some v ∧ p.entries[i]? = some row ∧
        Y.project read v = .ok row) ∧
      ∀ j < ys.length, ∃ v, y.get? (j : ℤ) = some v ∧ X.project read v = .ok (p.column j) := by
  refine ⟨.ofRows k xs hx.length_eq, .ofRows k ys hy.length_eq, .ofDots xs ys, rfl, rfl,
    hx.cross_eq hy hxs hys, rfl, rfl, fun i hi => ?_, fun j hj => ?_⟩
  · obtain ⟨v, hv, hvector⟩ := hx.exists_vector i hi
    refine ⟨v, _, hv, Dense.getElem?_entries_ofDots hi, ?_⟩
    -- The rows of the matrix are the first factors here, and the second ones in the product.
    rw [Dense.project_of_isVector hvector]
    exact congrArg Except.ok (List.map_congr_left fun y _ => dot_comm y xs[i])
  · obtain ⟨v, hv, hvector⟩ := hy.exists_vector j hj
    refine ⟨v, hv, ?_⟩
    rw [Dense.project_of_isVector hvector, Dense.column_ofDots hj]
    rfl

/-- The normal equations of the rows of a matrix are the product of its columns with
themselves. -/
theorem Store.Holds.gramIfAny_eq_cross {A : Dense α} {S T : Store β} {rows : List (List α)}
    (hS : S.Holds read A.columns rows) (hrows : rows.Perm A.entries)
    (hT : T.Indexes read A.rows A.columnList) (hcount : 1 ≤ A.rows) (hwidth : 1 ≤ A.columns) :
    ∃ g, (∀ size > 0, gramIfAny size read (some S) = .ok (some g)) ∧ T.cross read T = .ok g := by
  have hcolumns : A.columnList ≠ [] :=
    List.ne_nil_of_length_pos (by rw [Dense.length_columnList]; omega)
  have hne : S ≠ ∅ := by
    rintro rfl
    have hlength := hS.length_eq.trans (hrows.length_eq.trans A.length_entries)
    have hempty : (∅ : Store β).values.length = 0 := rfl
    omega
  exact ⟨A.gram, gramIfAny_eq_of_isGram hS hne (Dense.isGram_gram A) hrows,
    hT.cross_eq hT hcolumns hcolumns⟩

/-- The normal equations map a vector to the sum of the vectors of the store, each as often as its
product with the vector says. -/
theorem Store.Holds.exists_project_gramIfAny {S : Store β} {vectors : List (List α)}
    (hS : S.Holds read k vectors) (hne : S ≠ ∅) {w : Nesting β} {x : List α}
    (hw : w.IsVector read k x) :
    ∃ g y, (∀ size > 0, gramIfAny size read (some S) = .ok (some g)) ∧
      g.project read w = .ok y ∧ y.length = k ∧
      ∀ i < k, y.getD i 0 = (vectors.map fun v => dot v x * v.getD i 0).sum := by
  obtain ⟨g, hg, hgram⟩ := exists_gramIfAny hS hne
  have hlength := Nesting.length_of_forall₂ hS
  refine ⟨g, _, hg, hgram.project_eq hlength hw, length_rightHandSide hlength, fun i hi => ?_⟩
  have htuple := congrFun (tuple_rightHandSide (x := x) hlength) ⟨i, hi⟩
  rw [Pi.list_sum_apply, List.map_map] at htuple
  refine htuple.trans (congrArg List.sum (List.map_congr_left fun v _ => ?_))
  rw [Function.comp_apply, Pi.smul_apply, smul_eq_mul, dot_comm x v]
  rfl

end Agreement

/-- **The three kernels agree.**  Over exact scalars, the rows and the columns of a product of two
stores are the images of the vectors of either store under those of the other one.  The normal
equations of the rows of a matrix, in any order and in chunks of any size, are the product of its
columns with themselves.  And normal equations map a vector to the sum of the vectors of the store,
each as often as its product with the vector says. -/
theorem kernels_agree {α β : Type*} [CommRing α] (read : β → Except Failure α) :
    (∀ (k : ℕ) (x y : Store β) (xs ys : List (List α)), x.Indexes read k xs →
      y.Indexes read k ys → xs ≠ [] → ys ≠ [] →
      ∃ X Y p : Dense α, X.entries = xs ∧ Y.entries = ys ∧ x.cross read y = .ok p ∧
        p.rows = xs.length ∧ p.columns = ys.length ∧
        (∀ i < xs.length, ∃ v row, x.get? (i : ℤ) = some v ∧ p.entries[i]? = some row ∧
          Y.project read v = .ok row) ∧
        ∀ j < ys.length, ∃ v, y.get? (j : ℤ) = some v ∧ X.project read v = .ok (p.column j)) ∧
    (∀ (A : Dense α) (S T : Store β) (rows : List (List α)), S.Holds read A.columns rows →
      rows.Perm A.entries → T.Indexes read A.rows A.columnList → 1 ≤ A.rows → 1 ≤ A.columns →
      ∃ g, (∀ size > 0, Store.gramIfAny size read (some S) = .ok (some g)) ∧
        T.cross read T = .ok g) ∧
    ∀ (k : ℕ) (S : Store β) (vectors : List (List α)) (w : Nesting β) (x : List α),
      S.Holds read k vectors → S ≠ ∅ → w.IsVector read k x →
      ∃ g y, (∀ size > 0, Store.gramIfAny size read (some S) = .ok (some g)) ∧
        g.project read w = .ok y ∧ y.length = k ∧
        ∀ i < k, y.getD i 0 = (vectors.map fun v => dot v x * v.getD i 0).sum :=
  ⟨fun _ _ _ _ _ hx hy hxs hys => hx.cross_apply hy hxs hys,
    fun _ _ _ _ hS hrows hT hcount hwidth => hS.gramIfAny_eq_cross hrows hT hcount hwidth,
    fun _ _ _ _ _ hS hne hw => hS.exists_project_gramIfAny hne hw⟩

/-- The three rows of a matrix of integers, put into a store last row first, and its two columns:
the product of the columns, and the images of vectors under it. -/
theorem kernels_agree_three_by_two :
    let rows : Store ℤ :=
      ⟨[(4, .vector [-2, 7]), (9, .vector [5, 0]), (-6, .vector [1, 3])], by decide⟩
    let columns : Store ℤ := ⟨[(1, .vector [3, 0, 7]), (0, .vector [1, 5, -2])], by decide⟩
    ∃ g Y : Dense ℤ, Y.entries = [[1, 5, -2], [3, 0, 7]] ∧
      Store.gramIfAny 2 .ok (some rows) = .ok (some g) ∧
      columns.cross .ok columns = .ok g ∧
      (∃ v row, columns.get? 1 = some v ∧ g.entries[1]? = some row ∧ Y.project .ok v = .ok row) ∧
      ∃ y, g.project .ok (.vector [2, -1]) = .ok y ∧ y.getD 1 0 = -80 := by
  intro rows columns
  obtain ⟨hcross, hgram, hsum⟩ := kernels_agree (α := ℤ) (β := ℤ) .ok
  have hrows : rows.Holds .ok 2 [[-2, 7], [5, 0], [1, 3]] :=
    .cons (Nesting.isVector_vector [-2, 7]) (.cons (Nesting.isVector_vector [5, 0])
      (.cons (Nesting.isVector_vector [1, 3]) .nil))
  have hcolumns : columns.Indexes .ok 3 [[1, 5, -2], [3, 0, 7]] := by
    refine ⟨rfl, fun i hi => ?_⟩
    match i, hi with
    | 0, _ => exact ⟨_, rfl, Nesting.isVector_vector [1, 5, -2]⟩
    | 1, _ => exact ⟨_, rfl, Nesting.isVector_vector [3, 0, 7]⟩
  have hne : rows ≠ ∅ := fun h => absurd (congrArg IdMap.size h) (by decide)
  let A : Dense ℤ := .ofRows 2 [[1, 3], [5, 0], [-2, 7]] (by decide)
  obtain ⟨g, hg, hproduct⟩ := hgram A rows columns _ hrows (by decide) hcolumns (by decide)
    (by decide)
  obtain ⟨X, Y, p, -, hY, hp, -, -, hrow, -⟩ :=
    hcross 3 columns columns _ _ hcolumns hcolumns (by decide) (by decide)
  obtain rfl : g = p := Except.ok.inj (hproduct.symm.trans hp)
  obtain ⟨g', y, hg', hy, -, hentry⟩ :=
    hsum 2 rows _ (.vector [2, -1]) _ hrows hne (Nesting.isVector_vector [2, -1])
  obtain rfl : g' = g :=
    Option.some.inj (Except.ok.inj ((hg' 2 (by decide)).symm.trans (hg 2 (by decide))))
  exact ⟨g', Y, hY, hg 2 (by decide), hproduct, hrow 1 (by decide), y, hy, hentry 1 (by decide)⟩

end LeastSquares

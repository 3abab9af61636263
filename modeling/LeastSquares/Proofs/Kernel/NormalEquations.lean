import LeastSquares.Kernel.Operand
import LeastSquares.Proofs.Linear.ToMatrix
import LeastSquares.Proofs.Store.Reading
import Mathlib.Algebra.Order.BigOperators.Group.List
import Mathlib.Tactic.Ring

/-!
# Normal equations are a sum over all vectors

The matrix of the normal equations is summed up chunk by chunk.  Over exact scalars
the chunks leave no trace: entry `(i, j)` is the sum of `vᵢ vⱼ` over the vectors of the
store, each one taken once.

`IsGram g k vectors` is what the sum is after any number of chunks, with the vectors of
these chunks: it holds of the zeros at the start, one chunk carries it on
(`IsGram.plusBlock`), and a run along all chunks carries it to the end
(`exists_gramChunks`).  The rest is read off the sum.  It determines the matrix, whatever
the order of the vectors, it is symmetric in `i` and `j`, it splits where the store does,
and its quadratic form is a sum of squares.

Nothing is known about scalars or lengths where it is decided that there is no matrix:
that is so exactly if there is no store or no vector in it (`gramIfAny_eq_none_iff`).
-/

namespace LeastSquares

open Matrix

/-! ## Chunks -/

section Chunks

variable {β : Type*} {size : ℕ} {l : List β}

theorem ne_nil_of_mem_splitRows {width count : ℕ} (hwidth : 0 < width)
    (h : count * width < l.length + width) : ∀ row ∈ NArray.splitRows width count l, row ≠ [] := by
  induction count generalizing l with
  | zero => simp [NArray.splitRows]
  | succ count ih =>
      rw [Nat.add_mul, Nat.one_mul] at h
      intro row hrow
      rw [NArray.splitRows, List.mem_cons] at hrow
      rcases hrow with rfl | hrow
      · have hlength : 0 < (l.take width).length := by rw [List.length_take]; omega
        exact List.ne_nil_of_length_pos hlength
      · exact ih (by rw [List.length_drop]; omega) row hrow

theorem ne_nil_of_mem_chunks (hsize : 0 < size) : ∀ chunk ∈ chunks size l, chunk ≠ [] := by
  refine ne_nil_of_mem_splitRows hsize ?_
  have hle := Nat.div_mul_le_self (l.length + (size - 1)) size
  omega

theorem chunks_eq_nil_iff (hsize : 0 < size) : chunks size l = [] ↔ l = [] := by
  constructor
  · intro h
    rw [← flatten_chunks hsize l, h, List.flatten_nil]
  · rintro rfl
    refine List.eq_nil_iff_forall_not_mem.mpr fun chunk hchunk => ?_
    have hflatten := flatten_chunks hsize ([] : List β)
    exact ne_nil_of_mem_chunks hsize chunk hchunk
      (List.flatten_eq_nil_iff.mp hflatten chunk hchunk)

end Chunks

/-! ## Sums of products -/

section Sums

variable {α : Type*} [CommRing α]

theorem dot_map {β : Type*} (f g : β → α) (l : List β) :
    dot (l.map f) (l.map g) = (l.map fun x => f x * g x).sum := by
  rw [dot, List.zipWith_map, List.zipWith_self]

/-- The sum of the products of the entries at two positions, over a list of vectors. -/
def sumProducts (vectors : List (List α)) (i j : ℕ) : α :=
  (vectors.map fun v => v.getD i 0 * v.getD j 0).sum

@[simp] theorem sumProducts_nil (i j : ℕ) : sumProducts ([] : List (List α)) i j = 0 := rfl

@[simp] theorem sumProducts_cons (v : List α) (vectors : List (List α)) (i j : ℕ) :
    sumProducts (v :: vectors) i j = v.getD i 0 * v.getD j 0 + sumProducts vectors i j := by
  simp [sumProducts]

theorem sumProducts_append (vectors vectors' : List (List α)) (i j : ℕ) :
    sumProducts (vectors ++ vectors') i j = sumProducts vectors i j + sumProducts vectors' i j := by
  simp [sumProducts]

theorem sumProducts_perm {vectors vectors' : List (List α)} (h : vectors.Perm vectors')
    (i j : ℕ) : sumProducts vectors i j = sumProducts vectors' i j :=
  (h.map _).sum_eq

theorem sumProducts_comm (vectors : List (List α)) (i j : ℕ) :
    sumProducts vectors i j = sumProducts vectors j i := by
  simp only [sumProducts, mul_comm]

/-- A row of the sums of products times a vector: every vector of the list is taken as often as
its product with the vector says. -/
theorem sum_sumProducts_mul {k : ℕ} (vectors : List (List α)) (i : ℕ) (w : Fin k → α) :
    ∑ j : Fin k, sumProducts vectors i j * w j =
      (vectors.map fun v => v.getD i 0 * (tuple k v ⬝ᵥ w)).sum := by
  induction vectors with
  | nil => simp
  | cons v vectors ih =>
      have hfirst : ∑ j : Fin k, v.getD i 0 * v.getD j 0 * w j =
          v.getD i 0 * (tuple k v ⬝ᵥ w) := by
        rw [dotProduct, Finset.mul_sum]
        exact Finset.sum_congr rfl fun j _ => mul_assoc _ _ _
      simp only [sumProducts_cons, add_mul, Finset.sum_add_distrib, List.map_cons, List.sum_cons]
      rw [hfirst, ih]

/-- The quadratic form of the sums of products is a sum of squares. -/
theorem sum_mul_sum_eq_sum_sq {k : ℕ} (vectors : List (List α)) (w : Fin k → α) :
    ∑ i : Fin k, w i * (vectors.map fun v => v.getD i 0 * (tuple k v ⬝ᵥ w)).sum =
      (vectors.map fun v => (tuple k v ⬝ᵥ w) ^ 2).sum := by
  induction vectors with
  | nil => simp
  | cons v vectors ih =>
      have hsquare : ∑ i : Fin k, w i * (v.getD i 0 * (tuple k v ⬝ᵥ w)) =
          (tuple k v ⬝ᵥ w) ^ 2 := by
        calc ∑ i : Fin k, w i * (v.getD i 0 * (tuple k v ⬝ᵥ w))
            = ∑ i : Fin k, tuple k v i * w i * (tuple k v ⬝ᵥ w) := by
              refine Finset.sum_congr rfl fun i _ => ?_
              rw [tuple]
              ring
          _ = (tuple k v ⬝ᵥ w) ^ 2 := by rw [← Finset.sum_mul, ← dotProduct, sq]
      simp only [List.map_cons, List.sum_cons, mul_add, Finset.sum_add_distrib]
      rw [hsquare, ih]

end Sums

/-! ## Matrices of sums of products -/

namespace Dense

variable {α : Type*} [CommRing α] {g g' : Dense α} {k : ℕ} {vectors vectors' : List (List α)}

/-- A matrix of `k` rows and columns holds the sums of the products of the entries of the
vectors. -/
structure IsGram (g : Dense α) (k : ℕ) (vectors : List (List α)) : Prop where
  rows : g.rows = k
  columns : g.columns = k
  entry : ∀ i < k, ∀ j < k, g.entry i j = sumProducts vectors i j

/-- The sums determine the matrix, and the order of the vectors does not matter to them. -/
theorem IsGram.eq_of_perm (h : g.IsGram k vectors) (h' : g'.IsGram k vectors')
    (hperm : vectors.Perm vectors') : g = g' := by
  refine ext_entry (h.rows.trans h'.rows.symm) (h.columns.trans h'.columns.symm) ?_
  rw [h.rows, h.columns]
  intro i hi j hj
  rw [h.entry i hi j hj, h'.entry i hi j hj, sumProducts_perm hperm]

theorem IsGram.transpose_eq (h : g.IsGram k vectors) : g.transpose = g := by
  refine ext_entry (h.columns.trans h.rows.symm) (h.rows.trans h.columns.symm) ?_
  have hrows : g.transpose.rows = k := h.columns
  have hcolumns : g.transpose.columns = k := h.rows
  rw [hrows, hcolumns]
  intro i hi j hj
  have hentry : g.transpose.entry i j = g.entry j i :=
    entry_ofFn _ (h.columns.symm ▸ hi) (h.rows.symm ▸ hj)
  rw [hentry, h.entry i hi j hj, h.entry j hj i hi, sumProducts_comm]

/-- The matrix maps a vector to the sum of the vectors, each as often as its product with the
vector says. -/
theorem IsGram.mulVec_apply (h : g.IsGram k vectors) (w : Fin k → α) (i : Fin k) :
    (g.toMatrix k k *ᵥ w) i = (vectors.map fun v => v.getD i 0 * (tuple k v ⬝ᵥ w)).sum := by
  rw [← sum_sumProducts_mul, mulVec, dotProduct]
  refine Finset.sum_congr rfl fun j _ => ?_
  rw [toMatrix_apply, h.entry i i.isLt j j.isLt]

theorem IsGram.dot_apply (h : g.IsGram k vectors) (hlength : ∀ v ∈ vectors, v.length = k)
    {w : List α} (hw : w.length = k) :
    dot w (g.apply w) = (vectors.map fun v => dot v w ^ 2).sum := by
  have hsquares : (vectors.map fun v => dot v w ^ 2) =
      vectors.map fun v => (tuple k v ⬝ᵥ tuple k w) ^ 2 :=
    List.map_congr_left fun v hv => by rw [dot_eq_dotProduct (hlength v hv)]
  rw [dot_eq_dotProduct hw, tuple_apply h.rows h.columns, hsquares, ← sum_mul_sum_eq_sum_sq]
  exact Finset.sum_congr rfl fun i _ => congrArg (tuple k w i * ·) (h.mulVec_apply _ i)

theorem isGram_zeros (k : ℕ) : (zeros k k : Dense α).IsGram k [] where
  rows := rfl
  columns := rfl
  entry _ hi _ hj := entry_ofFn _ hi hj

theorem IsGram.plus (h : g.IsGram k vectors) (h' : g'.IsGram k vectors') :
    (g.plus g').IsGram k (vectors ++ vectors') where
  rows := h.rows
  columns := h.columns
  entry i hi j hj := by
    have hentry : (g.plus g').entry i j = g.entry i j + g'.entry i j :=
      entry_ofFn _ (h.rows.symm ▸ hi) (h.columns.symm ▸ hj)
    rw [hentry, h.entry i hi j hj, h'.entry i hi j hj, sumProducts_append]

/-- What a single block brings. -/
theorem isGram_gram (m : Dense α) : m.gram.IsGram m.columns m.entries where
  rows := rows_gram m
  columns := columns_gram m
  entry i hi j hj := by
    have hcolumn : ∀ c < m.columns, m.columnList[c]? = some (m.column c) := by
      intro c hc
      rw [columnList, List.getElem?_map, List.getElem?_range hc, Option.map_some]
    rw [Dense.entry, gram, get?_ofDots, hcolumn i hi, hcolumn j hj, Option.bind_some,
      Option.map_some, Option.getD_some, column_eq_map hi, column_eq_map hj, dot_map]
    rfl

/-- A further block of vectors of the same length is added as it should be. -/
theorem IsGram.plusBlock (h : g.IsGram k vectors) {rows : List (List α)}
    (hlength : ∀ row ∈ rows, row.length = k)
    (hentries : rows.flatten.length = Nesting.volume [rows.length, k]) :
    ∃ next, g.plusBlock ⟨[rows.length, k], rows.flatten, hentries⟩ = .ok next ∧
      next.IsGram k (vectors ++ rows) := by
  have hrows : (ofArray rows.length k rows.flatten hentries).entries = rows :=
    NArray.splitRows_flatten hlength
  refine ⟨_, if_pos h.columns.symm, h.plus ?_⟩
  have hgram := isGram_gram (ofArray rows.length k rows.flatten hentries)
  rwa [hrows] at hgram

end Dense

/-! ## The sum over a store -/

namespace Store

section Decision

variable {α β : Type*} [Zero α] [Add α] [Mul α] {read : β → Except Failure α} {size : ℕ}

theorem values_ne_nil {store : Store β} (hne : store ≠ ∅) : store.values ≠ [] := by
  intro hnil
  exact hne (IdMap.ext (List.map_eq_nil_iff.mp hnil))

theorem gramOfChunks_eq_none_iff {chunks : List (List (Nesting β))} :
    gramOfChunks read chunks = .ok none ↔ chunks = [] := by
  cases chunks with
  | nil => exact iff_of_true rfl rfl
  | cons chunk rest =>
      refine iff_of_false (fun h => ?_) (List.cons_ne_nil _ _)
      rw [gramOfChunks] at h
      cases hblock : block read chunk with
      | error failure => simp [hblock] at h
      | ok a =>
          cases hstart : gramStart a with
          | error failure => simp [hblock, hstart] at h
          | ok start =>
              simp only [hblock, hstart] at h
              obtain ⟨sum, -, hsum⟩ := map_eq_ok_iff.mp h
              cases hsum

theorem gramIfAny_eq_none_iff (hsize : 0 < size) {store? : Option (Store β)} :
    gramIfAny size read store? = .ok none ↔ store? = none ∨ store? = some ∅ := by
  cases store? with
  | none => exact iff_of_true rfl (Or.inl rfl)
  | some store =>
      have hvalues : store.values = [] ↔ store = ∅ :=
        ⟨fun h => by_contra fun hne => values_ne_nil hne h, by rintro rfl; rfl⟩
      rw [gramIfAny, gramBy, gramOfChunks_eq_none_iff, chunks_eq_nil_iff hsize, hvalues]
      simp

end Decision

section Exact

variable {α β : Type*} [CommRing α] {read : β → Except Failure α} {k size : ℕ}
  {store : Store β} {vectors : List (List α)}

/-- The vectors of a store in order of insertion, each of length `k`. -/
def Holds (read : β → Except Failure α) (k : ℕ) (store : Store β) (vectors : List (List α)) :
    Prop :=
  List.Forall₂ (Nesting.IsVector read k) store.values vectors

/-- From a sum over some vectors to the sum over these and the vectors of the chunks. -/
theorem exists_gramChunks {chunks : List (List (Nesting β))}
    (hchunks : ∀ chunk ∈ chunks, chunk ≠ []) {sum : Dense α} {done rest : List (List α)}
    (hsum : sum.IsGram k done)
    (hrest : List.Forall₂ (Nesting.IsVector read k) chunks.flatten rest) :
    ∃ g, gramChunks read sum chunks = .ok g ∧ g.IsGram k (done ++ rest) := by
  induction chunks generalizing sum done rest with
  | nil =>
      cases hrest
      exact ⟨sum, rfl, by rwa [List.append_nil]⟩
  | cons chunk chunks ih =>
      obtain ⟨hchunk, hlater⟩ := List.forall_mem_cons.mp hchunks
      rw [List.flatten_cons] at hrest
      obtain ⟨rows, later, rfl, hrows, hrest⟩ := exists_append_of_forall₂ hrest
      obtain ⟨hentries, hblock⟩ := block_of_forall₂ hrows hchunk
      -- The vectors of this chunk go from those to come to those that are done.
      obtain ⟨next, hnext, hgram⟩ := hsum.plusBlock (Nesting.length_of_forall₂ hrows) hentries
      obtain ⟨g, hg, hgram⟩ := ih hlater hgram hrest
      refine ⟨g, ?_, by rwa [List.append_assoc] at hgram⟩
      rw [gramChunks, hblock]
      simp only [hnext]
      exact hg

theorem exists_gramOfChunks {chunks : List (List (Nesting β))}
    (hchunks : ∀ chunk ∈ chunks, chunk ≠ []) (hne : chunks ≠ [])
    (hvectors : List.Forall₂ (Nesting.IsVector read k) chunks.flatten vectors) :
    ∃ g, gramOfChunks read chunks = .ok (some g) ∧ g.IsGram k vectors := by
  obtain ⟨g, hg, hgram⟩ := exists_gramChunks hchunks (Dense.isGram_zeros k) hvectors
  refine ⟨g, ?_, hgram⟩
  -- The first chunk is stacked twice, once for the length of its vectors only.
  obtain ⟨chunk, later, rfl⟩ := List.exists_cons_of_ne_nil hne
  rw [List.flatten_cons] at hvectors
  obtain ⟨rows, rest, -, hrows, -⟩ := exists_append_of_forall₂ hvectors
  obtain ⟨hentries, hblock⟩ := block_of_forall₂ hrows (hchunks chunk List.mem_cons_self)
  rw [gramOfChunks, hblock]
  simp only [gramStart, hg]
  rfl

theorem exists_gramBy (hsize : 0 < size) (hstore : store.Holds read k vectors) (hne : store ≠ ∅) :
    ∃ g, gramBy size read store = .ok (some g) ∧ g.IsGram k vectors := by
  refine exists_gramOfChunks (ne_nil_of_mem_chunks hsize)
    (mt (chunks_eq_nil_iff hsize).mp (values_ne_nil hne)) ?_
  rwa [flatten_chunks hsize]

/-- Neither the size of the chunks nor the ids and the order of insertion matter. -/
theorem gramBy_eq_of_perm {store' : Store β} {size' : ℕ} (hsize : 0 < size) (hsize' : 0 < size')
    (hstore : store.Holds read k vectors) (hperm : store'.values.Perm store.values) :
    gramBy size' read store' = gramBy size read store := by
  obtain ⟨vectors', hstore', hvectors⟩ := List.perm_comp_forall₂ hperm hstore
  by_cases hempty : store = ∅
  · have hempty' : store' = ∅ := by
      by_contra hne
      rw [hempty] at hperm
      exact values_ne_nil hne hperm.eq_nil
    rw [gramBy, gramBy, hempty, hempty']
    have hnil : ∀ n, 0 < n → chunks n (∅ : Store β).values = [] :=
      fun n hn => (chunks_eq_nil_iff hn).mpr rfl
    rw [hnil size hsize, hnil size' hsize']
  · have hne' : store' ≠ ∅ := by
      rintro rfl
      exact values_ne_nil hempty hperm.symm.eq_nil
    obtain ⟨g, hg, hgram⟩ := exists_gramBy hsize hstore hempty
    obtain ⟨g', hg', hgram'⟩ := exists_gramBy hsize' hstore' hne'
    rw [hg, hg', hgram'.eq_of_perm hgram hvectors]

/-- There is one matrix for all sizes of chunks. -/
theorem exists_gramIfAny (hstore : store.Holds read k vectors) (hne : store ≠ ∅) :
    ∃ g, (∀ size > 0, gramIfAny size read (some store) = .ok (some g)) ∧
      g.IsGram k vectors := by
  obtain ⟨g, hg, hgram⟩ := exists_gramBy Nat.zero_lt_one hstore hne
  refine ⟨g, fun size hsize => ?_, hgram⟩
  exact (gramBy_eq_of_perm Nat.zero_lt_one hsize hstore (.refl _)).trans hg

/-- The matrix is known by its entries. -/
theorem gramIfAny_eq_of_isGram {vectors' : List (List α)} {g : Dense α}
    (hstore : store.Holds read k vectors) (hne : store ≠ ∅) (hgram : g.IsGram k vectors')
    (hperm : vectors.Perm vectors') :
    ∀ size > 0, gramIfAny size read (some store) = .ok (some g) := by
  obtain ⟨g', hg', hgram'⟩ := exists_gramIfAny hstore hne
  rwa [hgram'.eq_of_perm hgram hperm] at hg'

/-- The matrix of a disjoint union is the sum of the two matrices. -/
theorem gramBy_of_isDisjointUnion {a b : Store β} (hsize : 0 < size)
    (hunion : store.IsDisjointUnion a b) (hstore : store.Holds read k vectors) (ha : a ≠ ∅)
    (hb : b ≠ ∅) :
    ∃ g g', gramBy size read a = .ok (some g) ∧ gramBy size read b = .ok (some g') ∧
      gramBy size read store = .ok (some (g.plus g')) := by
  obtain ⟨joined, hjoined, hperm⟩ := List.perm_comp_forall₂ hunion.values_perm.symm hstore
  obtain ⟨vectorsA, vectorsB, rfl, hholdsA, hholdsB⟩ := exists_append_of_forall₂ hjoined
  obtain ⟨g, hg, hgram⟩ := exists_gramBy hsize hholdsA ha
  obtain ⟨g', hg', hgram'⟩ := exists_gramBy hsize hholdsB hb
  have hne : store ≠ ∅ := by
    rintro rfl
    exact values_ne_nil ha (List.append_eq_nil_iff.mp hunion.values_perm.symm.eq_nil).1
  obtain ⟨sum, hsum, hgramSum⟩ := exists_gramBy hsize hstore hne
  refine ⟨g, g', hg, hg', ?_⟩
  rw [hsum, hgramSum.eq_of_perm (hgram.plus hgram') hperm.symm]

end Exact

/-- Over exact scalars, the chunked sum over the vectors of a store is the sum over all of them,
each one taken once.  It is the same for chunks of any size, it does not depend on the ids or
the order of insertion, it is symmetric, it adds up over disjoint unions, and its quadratic form
is a sum of squares.  There is no sum exactly if there is no store or no vector in it, over
floating-point numbers as well. -/
theorem gramIfAny_spec {α β : Type*} [CommRing α] [LinearOrder α] [IsStrictOrderedRing α]
    (read : β → Except Failure α) (k : ℕ) :
    (∀ (store : Store β) (vectors : List (List α)), store.Holds read k vectors → store ≠ ∅ →
      ∃ g : Dense α, (∀ size > 0, gramIfAny size read (some store) = .ok (some g)) ∧
        g.rows = k ∧ g.columns = k ∧
        (∀ i < k, ∀ j < k,
          g.entry i j = (vectors.map fun v => v.getD i 0 * v.getD j 0).sum) ∧
        g.transpose = g ∧
        ∀ w, w.length = k →
          dot w (g.apply w) = (vectors.map fun v => dot v w ^ 2).sum ∧ 0 ≤ dot w (g.apply w)) ∧
    (∀ (store store' : Store β) (vectors : List (List α)), store.Holds read k vectors →
      store'.values.Perm store.values → ∀ size > 0, ∀ size' > 0,
        gramIfAny size' read (some store') = gramIfAny size read (some store)) ∧
    (∀ (store a b : Store β) (vectors : List (List α)), store.IsDisjointUnion a b →
      store.Holds read k vectors → a ≠ ∅ → b ≠ ∅ → ∀ size > 0,
        ∃ g g', gramIfAny size read (some a) = .ok (some g) ∧
          gramIfAny size read (some b) = .ok (some g') ∧
          gramIfAny size read (some store) = .ok (some (g.plus g'))) ∧
    (∀ size > 0, ∀ store? : Option (Store β),
      gramIfAny size read store? = .ok none ↔ store? = none ∨ store? = some ∅) ∧
    ∀ store? : Option (Store Datum),
      normalMatrix store? = .ok none ↔ store? = none ∨ store? = some ∅ := by
  refine ⟨?_, ?_, ?_, fun size hsize store? => gramIfAny_eq_none_iff hsize,
    fun store? => gramIfAny_eq_none_iff (by decide)⟩
  · intro store vectors hstore hne
    obtain ⟨g, hg, hgram⟩ := exists_gramBy Nat.zero_lt_one hstore hne
    refine ⟨g, fun size hsize => ?_, hgram.rows, hgram.columns, hgram.entry, hgram.transpose_eq,
      fun w hw => ?_⟩
    · exact (gramBy_eq_of_perm Nat.zero_lt_one hsize hstore (.refl _)).trans hg
    · have hsquares := hgram.dot_apply (Nesting.length_of_forall₂ hstore) hw
      refine ⟨hsquares, hsquares ▸ List.sum_nonneg fun x hx => ?_⟩
      obtain ⟨v, -, rfl⟩ := List.mem_map.mp hx
      exact sq_nonneg _
  · intro store store' vectors hstore hperm size hsize size' hsize'
    exact gramBy_eq_of_perm hsize hsize' hstore hperm
  · intro store a b vectors hunion hstore ha hb size hsize
    exact gramBy_of_isDisjointUnion hsize hunion hstore ha hb

/-- Three vectors of integers in two chunks, in one chunk in another order and under other ids,
and in two stores. -/
theorem gramIfAny_spec_three :
    let a : Store ℤ := ⟨[(7, .vector [1, 2]), (-1, .vector [3, 0])], by decide⟩
    let b : Store ℤ := ⟨[(2, .vector [0, -1])], by decide⟩
    let store : Store ℤ :=
      ⟨[(7, .vector [1, 2]), (2, .vector [0, -1]), (-1, .vector [3, 0])], by decide⟩
    let store' : Store ℤ :=
      ⟨[(0, .vector [3, 0]), (1, .vector [1, 2]), (2, .vector [0, -1])], by decide⟩
    (∃ g : Dense ℤ, gramIfAny 2 .ok (some store) = .ok (some g) ∧
      gramIfAny chunkSize .ok (some store') = .ok (some g) ∧ g.entry 0 1 = 2 ∧
      dot [1, -1] (g.apply [1, -1]) = 11) ∧
    ∃ g g' : Dense ℤ, gramIfAny 2 .ok (some a) = .ok (some g) ∧
      gramIfAny 2 .ok (some b) = .ok (some g') ∧
      gramIfAny 2 .ok (some store) = .ok (some (g.plus g')) := by
  intro a b store store'
  obtain ⟨hsum, hperm, hunion, -, -⟩ := gramIfAny_spec (β := ℤ) (α := ℤ) .ok 2
  have hvector : ∀ x y : ℤ, (Nesting.vector [x, y]).IsVector .ok 2 [x, y] := fun x y =>
    ⟨rfl, .cons rfl (.cons rfl .nil)⟩
  have hholds : store.Holds .ok 2 [[1, 2], [0, -1], [3, 0]] :=
    .cons (hvector 1 2) (.cons (hvector 0 (-1)) (.cons (hvector 3 0) .nil))
  have hne : ∀ s : Store ℤ, s.entries ≠ [] → s ≠ ∅ := by
    rintro s hs rfl
    exact hs rfl
  refine ⟨?_, hunion store a b _ ⟨?_, ?_⟩ hholds (hne a (by simp [a])) (hne b (by simp [b])) 2
    (by decide)⟩
  · obtain ⟨g, hg, -, -, hentry, -, hform⟩ := hsum store _ hholds (hne store (by simp [store]))
    refine ⟨g, hg 2 (by decide), ?_, hentry 0 (by decide) 1 (by decide),
      (hform [1, -1] rfl).1⟩
    have hvalues : store'.values.Perm store.values := (List.perm_append_singleton _ _).symm
    exact (hperm store store' _ hholds hvalues 2 (by decide) chunkSize (by decide)).trans
      (hg 2 (by decide))
  · intro id
    by_cases hid : id = 2
    · exact Or.inl (hid ▸ rfl)
    · exact Or.inr (IdMap.get?_eq_none_iff.mpr (by simp [b, IdMap.keys, hid]))
  · intro id
    simp only [IdMap.get?, store, a, b, IdMap.lookup_cons_eq_ite, List.lookup_nil]
    split_ifs <;> first | rfl | omega

end Store

end LeastSquares

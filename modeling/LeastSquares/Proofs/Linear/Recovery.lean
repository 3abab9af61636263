import LeastSquares.HalfStep
import LeastSquares.Proofs.Kernel.NormalEquations
import LeastSquares.Proofs.Linear.Answers
import LeastSquares.Proofs.Linear.Solution

/-!
# Half a step recovers the factors

If the weights of a user are the products of factors `x` with the vectors of the items, then `x`
is a solution of the normal equations: the matrix maps `x` to the sum of the vectors, each as
often as its product with `x` says, and these products are the weights that the right-hand side
is summed up with (`Dense.IsGram.apply_eq`).  Accepted equations have no other solution, and so
`x` is what they are answered with, whatever factors a routine finds for the matrix.

Both sides are sums over the vectors.  So the order in which they were observed is as good as any
other, and the ids do not occur in them.

Half a step collects the vectors and their weights by ascending id.  What it collects are the same
vectors for the matrix and for the right-hand side (`Store.NoiseFree.exists_weighted`), and what
is left of it is to judge and to solve (`Solver.halfStep_eq`).

The main result is `recovers_factors`.
-/

namespace LeastSquares

open Matrix

variable {α β : Type*}

/-! ## The right-hand side -/

section RightHandSide

variable [CommRing α] {k : ℕ} {vectors vectors' : List (List α)}

theorem tuple_zipWith_add {v w : List α} (hv : v.length = k) (hw : w.length = k) :
    tuple k (List.zipWith (· + ·) v w) = tuple k v + tuple k w := by
  funext i
  have hiv : (i : ℕ) < v.length := hv ▸ i.isLt
  have hiw : (i : ℕ) < w.length := hw ▸ i.isLt
  have hi : (i : ℕ) < (List.zipWith (· + ·) v w).length := by
    rw [List.length_zipWith]
    omega
  simp only [tuple, Pi.add_apply]
  rw [List.getD_eq_getElem _ _ hi, List.getD_eq_getElem _ _ hiv, List.getD_eq_getElem _ _ hiw,
    List.getElem_zipWith]

/-- A sum of lists of length `k` that goes on from a list of this length. -/
theorem foldl_zipWith_add (hlength : ∀ v ∈ vectors, v.length = k) {sum : List α}
    (hsum : sum.length = k) :
    (vectors.foldl (List.zipWith (· + ·)) sum).length = k ∧
      tuple k (vectors.foldl (List.zipWith (· + ·)) sum) =
        tuple k sum + (vectors.map (tuple k)).sum := by
  induction vectors generalizing sum with
  | nil => exact ⟨hsum, by simp⟩
  | cons v vectors ih =>
      obtain ⟨hv, hrest⟩ := List.forall_mem_cons.mp hlength
      have hnext : (List.zipWith (· + ·) sum v).length = k := by
        rw [List.length_zipWith, hsum, hv, min_self]
      obtain ⟨hfold, htuple⟩ := ih hrest hnext
      refine ⟨hfold, ?_⟩
      rw [List.foldl_cons, htuple, tuple_zipWith_add hsum hv, List.map_cons, List.sum_cons,
        add_assoc]

theorem Store.length_sumVectors (hlength : ∀ v ∈ vectors, v.length = k) :
    (sumVectors k vectors).length = k :=
  (foldl_zipWith_add hlength List.length_replicate).1

theorem Store.tuple_sumVectors (hlength : ∀ v ∈ vectors, v.length = k) :
    tuple k (sumVectors k vectors) = (vectors.map (tuple k)).sum := by
  have hzeros : tuple k (List.replicate k (0 : α)) = 0 := by
    funext i
    simp [tuple]
  rw [sumVectors, (foldl_zipWith_add hlength List.length_replicate).2, hzeros, zero_add]

/-- The right-hand side of the normal equations: the sum of the vectors, each of them times its
weight, which is its product with `x`. -/
def rightHandSide (k : ℕ) (x : List α) (vectors : List (List α)) : List α :=
  Store.sumVectors k (vectors.map fun y => y.map (dot x y * ·))

variable {x : List α}

theorem length_of_mem_scaled (hlength : ∀ y ∈ vectors, y.length = k) :
    ∀ v ∈ vectors.map fun y => y.map (dot x y * ·), v.length = k := by
  intro v hv
  obtain ⟨y, hy, rfl⟩ := List.mem_map.mp hv
  rw [List.length_map, hlength y hy]

theorem length_rightHandSide (hlength : ∀ y ∈ vectors, y.length = k) :
    (rightHandSide k x vectors).length = k :=
  Store.length_sumVectors (length_of_mem_scaled hlength)

theorem tuple_rightHandSide (hlength : ∀ y ∈ vectors, y.length = k) :
    tuple k (rightHandSide k x vectors) = (vectors.map fun y => dot x y • tuple k y).sum := by
  have hscaled : ∀ (c : α) (y : List α), tuple k (y.map (c * ·)) = c • tuple k y := by
    intro c y
    funext i
    rw [Pi.smul_apply, smul_eq_mul, tuple, tuple, List.getD_eq_getElem?_getD, List.getElem?_map,
      List.getD_eq_getElem?_getD]
    cases y[(i : ℕ)]? <;> simp
  rw [rightHandSide, Store.tuple_sumVectors (length_of_mem_scaled hlength), List.map_map]
  exact congrArg List.sum (List.map_congr_left fun y _ => hscaled _ y)

/-- The order of the vectors does not matter. -/
theorem rightHandSide_perm (hlength : ∀ y ∈ vectors, y.length = k)
    (hperm : vectors'.Perm vectors) : rightHandSide k x vectors' = rightHandSide k x vectors := by
  have hlength' : ∀ y ∈ vectors', y.length = k := fun y hy => hlength y (hperm.mem_iff.mp hy)
  refine tuple_injective (length_rightHandSide hlength') (length_rightHandSide hlength) ?_
  rw [tuple_rightHandSide hlength', tuple_rightHandSide hlength]
  exact (hperm.map _).sum_eq

namespace Dense.IsGram

variable {g : Dense α} {read : β → Except Failure α}

/-- The matrix of the normal equations maps `x` to the right-hand side. -/
theorem apply_eq (h : g.IsGram k vectors) (hlength : ∀ y ∈ vectors, y.length = k)
    (hx : x.length = k) : g.apply x = rightHandSide k x vectors := by
  have hrows : (g.apply x).length = k := by rw [Dense.length_apply, h.rows]
  refine tuple_injective hrows (length_rightHandSide hlength) ?_
  rw [tuple_apply h.rows h.columns, tuple_rightHandSide hlength]
  funext i
  rw [h.mulVec_apply, Pi.list_sum_apply, List.map_map]
  refine congrArg List.sum (List.map_congr_left fun y _ => ?_)
  rw [Function.comp_apply, Pi.smul_apply, smul_eq_mul, dot_eq_dotProduct hx, dotProduct_comm,
    mul_comm]
  rfl

theorem applyArray_eq (h : g.IsGram k vectors) (hlength : ∀ y ∈ vectors, y.length = k)
    {a : NArray α} (hshape : a.shape = [k]) (hentries : a.entries = x) :
    g.applyArray a = .ok (rightHandSide k x vectors) := by
  have hx : x.length = k := by
    rw [← hentries, a.length_entries, hshape, Nesting.volume_cons, Nesting.volume_nil, Nat.mul_one]
  have hoperand : g.operand a = .ok x := by
    rw [operand, hshape, hentries]
    exact if_pos h.columns.symm
  rw [applyArray, hoperand, ← h.apply_eq hlength hx]
  rfl

theorem project_eq (h : g.IsGram k vectors) (hlength : ∀ y ∈ vectors, y.length = k)
    {v : Nesting β} (hv : v.IsVector read k x) :
    g.project read v = .ok (rightHandSide k x vectors) := by
  obtain ⟨a, hread, hshape, hentries⟩ := hv.exists_read
  rw [project, hread]
  exact h.applyArray_eq hlength hshape hentries

end Dense.IsGram

end RightHandSide

/-! ## Noise-free weights -/

namespace Store

section NoiseFree

variable [CommRing α] {read : β → Except Failure α} {k : ℕ} {x : List α} {items : Store β}
  {weights : IdMap α}

/-- An item has the vector `y`, of length `k`, and its weight is the product of the factors `x` with
it. -/
def Weighs (read : β → Except Failure α) (k : ℕ) (x : List α) (items : Store β)
    (entry : Int × α) (y : List α) : Prop :=
  ∃ v, items.vectorAt entry.1 = .ok v ∧ v.IsVector read k y ∧ entry.2 = dot x y

/-- Every weight is the one that the factors `x` give. -/
def NoiseFree (read : β → Except Failure α) (k : ℕ) (x : List α) (items : Store β)
    (weights : IdMap α) : Prop :=
  ∀ id w, weights.get? id = some w → ∃ y, items.Weighs read k x (id, w) y

variable {vectors : List (List α)}

theorem NoiseFree.exists_vectors (h : items.NoiseFree read k x weights) :
    ∃ vectors, List.Forall₂ (items.Weighs read k x) weights.sorted vectors :=
  exists_forall₂ fun ⟨id, w⟩ hentry => h id w (IdMap.mem_sorted_iff.mp hentry)

theorem holds_of_weighted (hvectors : List.Forall₂ (items.Weighs read k x) weights.sorted vectors)
    {observed : Store β} (hobserved : items.weighted weights = .ok observed) :
    observed.Holds read k vectors := by
  have hentries := IdMap.forall₂_of_traverse hobserved
  refine List.forall₂_map_left_iff.mpr (forall₂_of_common ?_ hentries hvectors)
  rintro entry image y ⟨-, himage⟩ ⟨v, hv, hy, -⟩
  have hsame : image.2 = v := Except.ok.inj (himage.symm.trans hv)
  rwa [hsame]

theorem weightedSum_eq (hvectors : List.Forall₂ (items.Weighs read k x) weights.sorted vectors) :
    items.weightedSum (NArray.read read) k weights = .ok (rightHandSide k x vectors) := by
  have hterms : List.Forall₂
      (fun entry term => items.scaledVector (NArray.read read) k entry = .ok term) weights.sorted
      (vectors.map fun y => y.map (dot x y * ·)) := by
    refine List.forall₂_map_right_iff.mpr (hvectors.imp ?_)
    rintro entry y ⟨v, hv, hy, hweight⟩
    obtain ⟨a, hread, hshape, rfl⟩ := hy.exists_read
    rw [scaledVector, hv]
    simp only [hread, if_pos hshape, hweight]
  rw [weightedSum, readEach_of_forall₂ hterms]
  rfl

/-- The same vectors are collected for the matrix and for the right-hand side. -/
theorem NoiseFree.exists_weighted (h : items.NoiseFree read k x weights) (hne : weights ≠ ∅) :
    ∃ (observed : Store β) (vectors : List (List α)),
      items.weighted weights = .ok observed ∧ observed ≠ ∅ ∧ observed.Holds read k vectors ∧
        items.weightedSum (NArray.read read) k weights = .ok (rightHandSide k x vectors) := by
  obtain ⟨vectors, hvectors⟩ := h.exists_vectors
  obtain ⟨observed, hobserved⟩ : ∃ observed, items.weighted weights = .ok observed := by
    refine IdMap.exists_traverse_iff.mpr fun id w hw => ?_
    obtain ⟨y, -, v, hv, -⟩ := exists_of_forall₂ hvectors (IdMap.mem_entries_iff.mpr hw)
    exact ⟨v, hv⟩
  refine ⟨observed, vectors, hobserved, ?_, holds_of_weighted hvectors hobserved,
    weightedSum_eq hvectors⟩
  rintro rfl
  have hsorted : weights.sorted.length = 0 := (IdMap.forall₂_of_traverse hobserved).length_eq
  rw [IdMap.sorted, List.length_mergeSort, List.length_eq_zero_iff] at hsorted
  exact hne (IdMap.ext hsorted)

end NoiseFree

end Store

/-! ## Half a step -/

section HalfStep

/-- With a matrix and a right-hand side, half a step is the verdict and, if it is favourable, the
answer. -/
theorem Solver.halfStep_eq [Finiteness α] [Zero α] [One α] [Add α] [Sub α] [Mul α] [Div α]
    [BEq α] (s : Solver α) {read : β → Except Failure α}
    {widen : Nesting β → Except Failure (NArray α)} {length : ℕ} {items observed : Store β}
    {weights : IdMap α} {m : Dense α} {b : List α}
    (hobserved : items.weighted weights = .ok observed) (hm : observed.gram read = .ok (some m))
    (hb : items.weightedSum widen length weights = .ok b) :
    s.halfStep read widen length items weights = (s.isNonSingular m).bind fun accepted =>
      if accepted then ((s.routine.factor m).solveVector b).map .factors else .ok .singular := by
  have hfactors := s.factorize_eq m
  unfold Solver.halfStep
  rw [hobserved]
  simp only [hm, hb]
  cases hverdict : s.isNonSingular m with
  | error failure => rfl
  | ok accepted =>
      rw [hverdict] at hfactors
      cases accepted with
      | false => rfl
      | true =>
          simp only [hfactors]
          cases hsolve : (s.routine.factor m).solveVector b with
          | error failure => simp [Except.bind, hsolve, Except.map]
          | ok x => simp [Except.bind, hsolve, Except.map]

variable [Field α] [LinearOrder α] [IsStrictOrderedRing α] [Finiteness α] [Exact α]
  {read : β → Except Failure α} {k : ℕ} {x : List α} {vectors : List (List α)} {g : Dense α}
  {routine : Routine α} {t rankRatio : α} {shown : Threshold} {f : Factorization α}

/-- Accepted normal equations are answered with `x`: it is a solution, and there is no other. -/
theorem Solver.solveVector_rightHandSide (ht : 0 ≤ t) (hgram : g.IsGram k vectors)
    (hlength : ∀ y ∈ vectors, y.length = k) (hx : x.length = k)
    (hqr : (routine.factor g).IsQR g k)
    (hf : (Solver.relative routine t rankRatio shown).factorize g = .ok f) :
    f.solveVector (rightHandSide k x vectors) = .ok x := by
  have hsolves : f.Solves g := Solver.solves_of_factorize ht (hgram.rows.symm ▸ hqr) hf
  have hb : (rightHandSide k x vectors).length = g.rows :=
    (length_rightHandSide hlength).trans hgram.rows.symm
  obtain ⟨answer, hanswer, -, hunique⟩ := hsolves.vector _ hb
  have hsame : x = answer :=
    hunique x ⟨hx.trans hgram.columns.symm, hgram.apply_eq hlength hx⟩
  obtain ⟨found, hfound, hvector⟩ := map_eq_ok_iff.mp hanswer
  rw [hfound, hsame, Columns.vector.inj hvector]

/-- A matrix that belongs to the right-hand side of the vectors: it maps the factors `x` to it, and
if it is accepted the answer to it is `x`. -/
structure Dense.Recovers (g : Dense α) (read : β → Except Failure α) (k : ℕ) (x : List α)
    (vectors : List (List α)) : Prop where
  project : ∀ v : Nesting β, v.IsVector read k x →
    g.project read v = .ok (rightHandSide k x vectors)
  applyArray : ∀ a : NArray α, a.shape = [k] → a.entries = x →
    g.applyArray a = .ok (rightHandSide k x vectors)
  solve : ∀ (routine : Routine α) (t rankRatio : α) (shown : Threshold) (f : Factorization α),
    0 ≤ t → (routine.factor g).IsQR g k →
    (Solver.relative routine t rankRatio shown).factorize g = .ok f →
    f.solve (.vector (rightHandSide k x vectors)) = .ok (.vector x)

theorem Dense.IsGram.recovers (h : g.IsGram k vectors) (hlength : ∀ y ∈ vectors, y.length = k)
    (hx : x.length = k) : g.Recovers read k x vectors where
  project v hv := h.project_eq hlength hv
  applyArray a hshape hentries := h.applyArray_eq hlength hshape hentries
  solve routine t rankRatio shown f ht hqr hf := by
    rw [Factorization.solve, Solver.solveVector_rightHandSide ht h hlength hx hqr hf]
    rfl

/-- What half a step finds is decided by the verdict alone. -/
theorem Solver.halfStep_rightHandSide {items observed : Store β} {weights : IdMap α}
    (hobserved : items.weighted weights = .ok observed) (hm : observed.gram read = .ok (some g))
    (hb : items.weightedSum (NArray.read read) k weights = .ok (rightHandSide k x vectors))
    (ht : 0 ≤ t) (hgram : g.IsGram k vectors) (hlength : ∀ y ∈ vectors, y.length = k)
    (hx : x.length = k) (hqr : (routine.factor g).IsQR g k) :
    ∃ accepted, (Solver.relative routine t rankRatio shown).isNonSingular g = .ok accepted ∧
      (Solver.relative routine t rankRatio shown).halfStep read (NArray.read read) k items weights =
        .ok (if accepted then .factors x else .singular) := by
  let s := Solver.relative routine t rankRatio shown
  have hverdict : s.isNonSingular g = .ok (wellPosed t (routine.factor g).r.diagonal) :=
    Solver.isNonSingular_relative hqr.isSquare
  refine ⟨_, hverdict, ?_⟩
  rw [s.halfStep_eq hobserved hm hb, hverdict]
  cases haccepted : wellPosed t (routine.factor g).r.diagonal with
  | false => rfl
  | true =>
      have hf : s.factorize g = .ok (routine.factor g) := by
        rw [s.factorize_eq, hverdict, haccepted]
        rfl
      have hsolve := Solver.solveVector_rightHandSide ht hgram hlength hx hqr hf
      exact congrArg (Except.map HalfStep.factors) hsolve

end HalfStep

/-- **Half a step recovers the factors.**  The vectors of a store that is not empty have normal
equations, and whatever `x` the weights came from, the matrix maps `x` to the right-hand side.
Whatever factors a routine finds for the matrix and whatever columns it exchanges, if the
threshold is not negative and the pivots are accepted, the answer is `x`.  The order of the vectors
and their ids do not matter, neither for the matrix nor for the right-hand side.

So half a step from noise-free weights finds `x` or, if the verdict on the matrix is unfavourable,
says so. -/
theorem recovers_factors {α β : Type*} [Field α] [LinearOrder α] [IsStrictOrderedRing α]
    [Finiteness α] [Exact α] (read : β → Except Failure α) {k : ℕ} {x : List α}
    (hx : x.length = k) :
    (∀ (store : Store β) (vectors : List (List α)), store.Holds read k vectors → store ≠ ∅ →
      ∃ g : Dense α, (∀ size > 0, Store.gramIfAny size read (some store) = .ok (some g)) ∧
        g.Recovers read k x vectors ∧
        ∀ (store' : Store β) (vectors' : List (List α)), store'.Holds read k vectors' →
          vectors'.Perm vectors →
          (∀ size > 0, Store.gramIfAny size read (some store') = .ok (some g)) ∧
            rightHandSide k x vectors' = rightHandSide k x vectors) ∧
    ∀ (items : Store β) (weights : IdMap α), items.NoiseFree read k x weights → weights ≠ ∅ →
      ∃ (observed : Store β) (g : Dense α), items.weighted weights = .ok observed ∧
        observed.gram read = .ok (some g) ∧
        ∀ (routine : Routine α) (t rankRatio : α) (shown : Threshold), 0 ≤ t →
          (routine.factor g).IsQR g k →
          ∃ accepted,
            (Solver.relative routine t rankRatio shown).isNonSingular g = .ok accepted ∧
            (Solver.relative routine t rankRatio shown).halfStep read (NArray.read read) k items
              weights = .ok (if accepted then .factors x else .singular) := by
  refine ⟨?_, ?_⟩
  · intro store vectors hstore hne
    have hlength := Nesting.length_of_forall₂ hstore
    obtain ⟨g, hg, hgram⟩ := Store.exists_gramIfAny hstore hne
    refine ⟨g, hg, hgram.recovers hlength hx, fun store' vectors' hstore' hperm => ?_⟩
    have hne' : store' ≠ ∅ := by
      rintro rfl
      have hcount : 0 = store.values.length := by
        rw [hstore.length_eq, ← hperm.length_eq, ← hstore'.length_eq]
        rfl
      exact Store.values_ne_nil hne (List.length_eq_zero_iff.mp hcount.symm)
    exact ⟨Store.gramIfAny_eq_of_isGram hstore' hne' hgram hperm, rightHandSide_perm hlength hperm⟩
  · intro items weights hweights hne
    obtain ⟨observed, vectors, hobserved, hnonempty, hstore, hb⟩ := hweights.exists_weighted hne
    obtain ⟨g, hg, hgram⟩ := Store.exists_gramIfAny hstore hnonempty
    have hm : observed.gram read = .ok (some g) := hg chunkSize (by decide)
    refine ⟨observed, g, hobserved, hm, fun routine t rankRatio shown ht hqr => ?_⟩
    exact Solver.halfStep_rightHandSide hobserved hm hb ht hgram (Nesting.length_of_forall₂ hstore)
      hx hqr

/-! ### Four ratings -/

namespace Ratings

/-- Vectors of five items, two of them equal. -/
def items : Store ℚ :=
  ⟨[(3, .vector [3, 4]), (8, .vector [0, 3]), (9, .vector [7, 7]), (-1, .vector [0, 3]),
    (5, .vector [0, 1])], by decide⟩

/-- The weights of four of the items that the factors one and minus two give. -/
def weights : IdMap ℚ := ⟨[(8, -6), (3, -5), (5, -2), (-1, -6)], by decide⟩

/-- The vectors of these four, under other ids. -/
def observed : Store ℚ :=
  ⟨[(0, .vector [3, 4]), (1, .vector [0, 3]), (2, .vector [0, 3]), (3, .vector [0, 1])],
    by decide⟩

/-- The vectors in order of insertion. -/
def vectors : List (List ℚ) := [[3, 4], [0, 3], [0, 3], [0, 1]]

/-- The matrix of their normal equations. -/
def system : Dense ℚ := ⟨2, 2, [[9, 12], [12, 35]], rfl, by decide⟩

/-- Its factors with the columns as they are. -/
def kept : Factorization ℚ where
  q := ⟨2, 2, [[3 / 5, 4 / 5], [4 / 5, -3 / 5]], rfl, by decide⟩
  r := ⟨2, 2, [[15, 176 / 5], [0, -57 / 5]], rfl, by decide⟩
  order := none
  screening := .leading
  single := ⟨false, false⟩

/-- Its factors if the longer column comes first. -/
def exchanged : Factorization ℚ where
  q := ⟨2, 2, [[12 / 37, -35 / 37], [35 / 37, 12 / 37]], rfl, by decide⟩
  r := ⟨2, 2, [[37, 528 / 37], [0, -171 / 37]], rfl, by decide⟩
  order := some [1, 0]
  screening := .smallest
  single := ⟨false, false⟩

theorem isGram_system : system.IsGram 2 vectors where
  rows := rfl
  columns := rfl
  entry := by decide +kernel

theorem isQR_kept : kept.IsQR system 2 := by decide +kernel

theorem isQR_exchanged : exchanged.IsQR system 2 := by decide +kernel

/-- The solver that finds these factors. -/
def solver (f : Factorization ℚ) : Solver ℚ :=
  Solver.relative (.always f) (1 / 10) (1 / 100) (.real Cutoff.default.val)

theorem factorize_exchanged : (solver exchanged).factorize system = .ok exchanged :=
  (Solver.factorize_eq_ok_iff _).mpr ⟨rfl, congrArg Except.ok (by decide +kernel), rfl⟩

theorem isNonSingular_kept : (solver kept).isNonSingular system = .ok true :=
  congrArg Except.ok (by decide +kernel)

theorem holds_observed : observed.Holds .ok 2 vectors :=
  .cons (Nesting.isVector_vector [3, 4]) (.cons (Nesting.isVector_vector [0, 3])
    (.cons (Nesting.isVector_vector [0, 3]) (.cons (Nesting.isVector_vector [0, 1]) .nil)))

/-- By ascending id the vectors come in another order. -/
theorem weighs_vectors :
    List.Forall₂ (items.Weighs .ok 2 [1, -2]) weights.sorted [[0, 3], [3, 4], [0, 1], [0, 3]] := by
  have hsorted : weights.sorted = [(-1, -6), (3, -5), (5, -2), (8, -6)] := by
    simp [IdMap.sorted, weights, List.mergeSort]
  rw [hsorted]
  exact .cons ⟨_, rfl, Nesting.isVector_vector [0, 3], by decide +kernel⟩
    (.cons ⟨_, rfl, Nesting.isVector_vector [3, 4], by decide +kernel⟩
      (.cons ⟨_, rfl, Nesting.isVector_vector [0, 1], by decide +kernel⟩
        (.cons ⟨_, rfl, Nesting.isVector_vector [0, 3], by decide +kernel⟩ .nil)))

theorem noiseFree_weights : items.NoiseFree .ok 2 [1, -2] weights := by
  intro id w hw
  obtain ⟨y, -, hy⟩ := exists_of_forall₂ weighs_vectors (IdMap.mem_sorted_iff.mpr hw)
  exact ⟨y, hy⟩

/-- Four ratings by two factors give the factors back, with and without an exchange of columns. -/
theorem recovers_factors_four :
    Store.gramIfAny 3 .ok (some observed) = .ok (some system) ∧
      system.project .ok (.vector [1, -2]) = .ok [-15, -58] ∧
      exchanged.solve (.vector [-15, -58]) = .ok (.vector [1, -2]) ∧
      (solver kept).halfStep .ok (NArray.read .ok) 2 items weights = .ok (.factors [1, -2]) := by
  obtain ⟨hstores, hitems⟩ := recovers_factors (β := ℚ) (α := ℚ) .ok (k := 2) (x := [1, -2]) rfl
  have hne : observed ≠ ∅ := fun h => by cases congrArg IdMap.entries h
  have hne' : weights ≠ ∅ := fun h => by cases congrArg IdMap.entries h
  obtain ⟨g, hg, ⟨hproject, -, hsolve⟩, hreorder⟩ := hstores observed vectors holds_observed hne
  have hsystem := Store.gramIfAny_eq_of_isGram holds_observed hne isGram_system (.refl _)
  obtain rfl : g = system :=
    Option.some.inj (Except.ok.inj ((hg 1 Nat.one_pos).symm.trans (hsystem 1 Nat.one_pos)))
  have hb : rightHandSide 2 [1, -2] vectors = [-15, -58] := by decide +kernel
  rw [hb] at hproject hsolve
  refine ⟨hg 3 (by decide), hproject _ (Nesting.isVector_vector [1, -2]),
    hsolve _ _ _ _ _ (by norm_num) isQR_exchanged factorize_exchanged, ?_⟩
  obtain ⟨collected, g, hcollected, hgram, haccepted⟩ := hitems items weights noiseFree_weights hne'
  -- The matrix of the vectors that are collected is the one of the vectors in their first order.
  have hperm : List.Perm [[0, 3], [3, 4], [0, 1], [0, 3]] vectors := by decide +kernel
  obtain ⟨hsame, -⟩ :=
    hreorder collected _ (Store.holds_of_weighted weighs_vectors hcollected) hperm
  obtain rfl : system = g :=
    Option.some.inj (Except.ok.inj ((hsame chunkSize (by decide)).symm.trans hgram))
  obtain ⟨accepted, hverdict, hfactors⟩ :=
    haccepted (.always kept) (1 / 10) (1 / 100) (.real Cutoff.default.val) (by norm_num) isQR_kept
  obtain rfl : true = accepted := Except.ok.inj (isNonSingular_kept.symm.trans hverdict)
  exact hfactors

end Ratings

end LeastSquares

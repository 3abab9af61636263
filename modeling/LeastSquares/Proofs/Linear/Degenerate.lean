import LeastSquares.Proofs.Kernel.NormalEquations
import LeastSquares.Proofs.Linear.Answers
import LeastSquares.Proofs.Linear.Factors
import LeastSquares.Proofs.Linear.Verdict
import Mathlib.LinearAlgebra.Matrix.Dual
import Mathlib.LinearAlgebra.Matrix.ToLinearEquiv

/-!
# Degenerate systems are rejected

Factors without a zero pivot solve for every right-hand side, so a matrix without an inverse has
none (`Factorization.IsQR.isUnit`).  Whatever factors a routine finds for it, one of the pivots is
zero, and a zero does not exceed any multiple of its own magnitude: at every threshold that is
not negative the verdict is unfavourable (`Solver.rejects_of_not_isUnit`).

For normal equations the vectors decide.  If they do not span the space there is a vector other
than zero that is orthogonal to all of them (`not_spans_iff`).  The matrix maps a vector to a sum
of theirs, each taken as often as its product with the vector says, and so it maps this one to
zero (`Dense.IsGram.not_isUnit`).  Fewer vectors than the space has dimensions never span it.

The main result is `degenerate_rejected`.
-/

namespace LeastSquares

open Matrix

variable {α : Type*} [Field α]

/-! ## Vectors that do not span -/

/-- Every tuple is a combination of the vectors. -/
def Spans (k : ℕ) (vectors : List (List α)) : Prop :=
  Submodule.span α {w : Fin k → α | ∃ v ∈ vectors, tuple k v = w} = ⊤

variable {k : ℕ} {vectors : List (List α)}

theorem span_le_ker_iff {w : Fin k → α} :
    Submodule.span α {w : Fin k → α | ∃ v ∈ vectors, tuple k v = w} ≤
        LinearMap.ker (dotProductEquiv α (Fin k) w) ↔
      ∀ v ∈ vectors, tuple k v ⬝ᵥ w = 0 := by
  have hmem : ∀ v, v ∈ LinearMap.ker (dotProductEquiv α (Fin k) w) ↔ v ⬝ᵥ w = 0 := by
    intro v
    rw [LinearMap.mem_ker, dotProduct_comm]
    rfl
  rw [Submodule.span_le]
  constructor
  · intro h v hv
    exact (hmem _).mp (h ⟨v, hv, rfl⟩)
  · rintro h _ ⟨v, hv, rfl⟩
    exact (hmem _).mpr (h v hv)

/-- Vectors do not span if something other than zero is orthogonal to all of them. -/
theorem not_spans_iff :
    ¬ Spans k vectors ↔ ∃ w : Fin k → α, w ≠ 0 ∧ ∀ v ∈ vectors, tuple k v ⬝ᵥ w = 0 := by
  constructor
  · intro h
    obtain ⟨f, hf, hker⟩ := Submodule.exists_le_ker_of_lt_top _ (lt_top_iff_ne_top.mpr h)
    -- Every linear form is the product with some tuple.
    obtain ⟨w, rfl⟩ := (dotProductEquiv α (Fin k)).surjective f
    exact ⟨w, fun hw => hf (by rw [hw, map_zero]), span_le_ker_iff.mp hker⟩
  · rintro ⟨w, hw, horthogonal⟩ hspans
    have hker := span_le_ker_iff.mpr horthogonal
    rw [Spans] at hspans
    rw [hspans, top_le_iff, LinearMap.ker_eq_top] at hker
    exact hw ((dotProductEquiv α (Fin k)).map_eq_zero_iff.mp hker)

theorem not_spans_of_length_lt (h : vectors.length < k) : ¬ Spans k vectors := by
  classical
  intro hspans
  let tuples : Finset (Fin k → α) := (vectors.map (tuple k)).toFinset
  have htuples : {w : Fin k → α | ∃ v ∈ vectors, tuple k v = w} = tuples := by
    ext w
    simp [tuples]
  have hcard : tuples.card ≤ vectors.length := by
    have hle := List.toFinset_card_le (vectors.map (tuple k))
    rwa [List.length_map] at hle
  have hdim : k ≤ tuples.card := by
    have hle := finrank_span_finset_le_card (R := α) tuples
    rw [Spans, htuples] at hspans
    rw [Set.finrank, hspans, finrank_top, Module.finrank_fin_fun] at hle
    exact hle
  omega

/-! ## Matrices without an inverse -/

theorem not_isUnit_iff_det_eq_zero {A : Matrix (Fin k) (Fin k) α} :
    ¬ IsUnit A ↔ A.det = 0 := by
  rw [isUnit_iff_isUnit_det, isUnit_iff_ne_zero, not_not]

/-- The normal equations of vectors that do not span have no inverse. -/
theorem Dense.IsGram.not_isUnit {g : Dense α} (h : g.IsGram k vectors)
    (hspans : ¬ Spans k vectors) : ¬ IsUnit (g.toMatrix k k) := by
  obtain ⟨w, hw, horthogonal⟩ := not_spans_iff.mp hspans
  refine not_isUnit_iff_det_eq_zero.mpr (exists_mulVec_eq_zero_iff.mp ⟨w, hw, funext fun i => ?_⟩)
  rw [h.mulVec_apply, Pi.zero_apply]
  refine List.sum_eq_zero fun x hx => ?_
  obtain ⟨v, hv, rfl⟩ := List.mem_map.mp hx
  rw [horthogonal v hv, mul_zero]

/-! ## The rejection -/

section Rejection

variable [LinearOrder α] [IsStrictOrderedRing α] [Finiteness α] [Exact α]
  {routine : Routine α} {t rankRatio : α} {shown : Threshold}

/-- A matrix without an inverse has a zero pivot, whatever its factors are. -/
theorem Solver.rejects_of_not_isUnit (ht : 0 ≤ t) {m : Dense α}
    (hqr : (routine.factor m).IsQR m k) (h : ¬ IsUnit (m.toMatrix k k)) :
    (Solver.relative routine t rankRatio shown).Rejects m := by
  refine Solver.rejects_of_not_wellPosed hqr.isSquare ?_
  rw [← Bool.not_eq_true]
  intro haccepted
  refine h (hqr.isUnit fun i hi => ne_zero_of_wellPosed ht haccepted _ ?_)
  exact (Dense.mem_diagonal hqr.upper.rows hqr.upper.columns).mpr ⟨i, hi, rfl⟩

/-- **Degenerate systems are rejected.**  Whatever factors a routine finds and whatever columns it
exchanges, a matrix without an inverse is rejected at every threshold that is not negative.  A
row or a column of zeros, two equal columns, and columns with a linear dependency are cases of
it, and so are the normal equations of vectors that do not span the space, in particular of
fewer vectors than the space has dimensions. -/
theorem degenerate_rejected {β : Type*} (read : β → Except Failure α) (routine : Routine α)
    {t : α} (ht : 0 ≤ t) (rankRatio : α) (shown : Threshold) (k : ℕ) :
    (∀ m : Dense α, (routine.factor m).IsQR m k → ¬ IsUnit (m.toMatrix k k) →
      (Solver.relative routine t rankRatio shown).Rejects m) ∧
    (∀ m : Dense α,
      (∃ i, ∀ j, m.toMatrix k k i j = 0) ∨ (∃ j, ∀ i, m.toMatrix k k i j = 0) ∨
        (∃ j j', j ≠ j' ∧ ∀ i, m.toMatrix k k i j = m.toMatrix k k i j') ∨
        (∃ w, w ≠ 0 ∧ m.toMatrix k k *ᵥ w = 0) →
      ¬ IsUnit (m.toMatrix k k)) ∧
    ∀ (store : Store β) (vectors : List (List α)), store.Holds read k vectors → store ≠ ∅ →
      ∃ g : Dense α, (∀ size > 0, Store.gramIfAny size read (some store) = .ok (some g)) ∧
        ((routine.factor g).IsQR g k → ¬ Spans k vectors ∨ store.size < k →
          (Solver.relative routine t rankRatio shown).Rejects g) := by
  refine ⟨fun m hqr => Solver.rejects_of_not_isUnit ht hqr, fun m h => ?_, ?_⟩
  · refine not_isUnit_iff_det_eq_zero.mpr ?_
    rcases h with ⟨i, hrow⟩ | ⟨j, hcolumn⟩ | ⟨j, j', hne, hequal⟩ | hdependent
    · exact det_eq_zero_of_row_eq_zero i hrow
    · exact det_eq_zero_of_column_eq_zero j hcolumn
    · exact det_zero_of_column_eq hne hequal
    · exact exists_mulVec_eq_zero_iff.mp hdependent
  · intro store vectors hstore hne
    obtain ⟨g, hg, hgram⟩ := Store.exists_gramIfAny hstore hne
    refine ⟨g, hg, fun hqr hfew => ?_⟩
    have hspans : ¬ Spans k vectors := by
      rcases hfew with hspans | hsize
      · exact hspans
      · have hlength : store.size = vectors.length := by
          rw [← hstore.length_eq, IdMap.values, List.length_map, IdMap.size]
        exact not_spans_of_length_lt (hlength ▸ hsize)
    exact Solver.rejects_of_not_isUnit ht hqr (hgram.not_isUnit hspans)

end Rejection

/-! ### Two vectors on one line -/

namespace Collinear

/-- Two vectors in the plane, one twice the other. -/
def store : Store ℚ := ⟨[(5, .vector [3, 4]), (-2, .vector [6, 8])], by decide⟩

/-- Their normal equations. -/
def system : Dense ℚ := ⟨2, 2, [[45, 60], [60, 80]], rfl, by decide⟩

/-- The line of the vectors first, and what is orthogonal to it second. -/
def axes : Dense ℚ := ⟨2, 2, [[3 / 5, -4 / 5], [4 / 5, 3 / 5]], rfl, by decide⟩

/-- Factors with the columns as they are. -/
def kept : Factorization ℚ where
  q := axes
  r := ⟨2, 2, [[75, 100], [0, 0]], rfl, by decide⟩
  order := none
  screening := .leading
  single := ⟨false, false⟩

/-- Factors if the longer column comes first. -/
def exchanged : Factorization ℚ where
  q := axes
  r := ⟨2, 2, [[100, 75], [0, 0]], rfl, by decide⟩
  order := some [1, 0]
  screening := .smallest
  single := ⟨false, false⟩

theorem isGram_system : system.IsGram 2 [[3, 4], [6, 8]] where
  rows := rfl
  columns := rfl
  entry := by decide +kernel

theorem isQR_kept : kept.IsQR system 2 := by decide +kernel

theorem isQR_exchanged : exchanged.IsQR system 2 := by decide +kernel

/-- Even the threshold zero rejects the normal equations of vectors on one line, with and without
an exchange of columns. -/
theorem degenerate_rejected_collinear :
    Store.gramIfAny chunkSize .ok (some store) = .ok (some system) ∧
      (Solver.relative (.always kept) 0 (1 / 100) (.real Cutoff.default.val)).Rejects system ∧
      (Solver.relative (.always exchanged) 0 (1 / 100) (.real Cutoff.default.val)).Rejects
        system := by
  have hholds : store.Holds .ok 2 [[3, 4], [6, 8]] :=
    .cons (Nesting.isVector_vector [3, 4]) (.cons (Nesting.isVector_vector [6, 8]) .nil)
  have hne : store ≠ ∅ := fun h => by cases congrArg IdMap.entries h
  have hspans : ¬ Spans 2 ([[3, 4], [6, 8]] : List (List ℚ)) :=
    not_spans_iff.mpr ⟨![4, -3], by decide +kernel, by decide +kernel⟩
  have hsystem := Store.gramIfAny_eq_of_isGram hholds hne isGram_system (.refl _)
  have hrejects : ∀ f : Factorization ℚ, f.IsQR system 2 →
      (Solver.relative (.always f) 0 (1 / 100) (.real Cutoff.default.val)).Rejects system := by
    intro f hqr
    obtain ⟨-, -, hstores⟩ := degenerate_rejected (β := ℚ) .ok (.always f) (le_refl 0) (1 / 100)
      (.real Cutoff.default.val) 2
    obtain ⟨g, hg, hrejected⟩ := hstores store _ hholds hne
    have hsame : g = system :=
      Option.some.inj (Except.ok.inj ((hg 1 Nat.one_pos).symm.trans (hsystem 1 Nat.one_pos)))
    rw [hsame] at hrejected
    exact hrejected hqr (.inl hspans)
  exact ⟨hsystem chunkSize (by decide), hrejects kept isQR_kept,
    hrejects exchanged isQR_exchanged⟩

end Collinear

end LeastSquares

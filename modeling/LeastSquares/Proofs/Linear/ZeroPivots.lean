import LeastSquares.Proofs.Linear.Answers
import LeastSquares.Proofs.Linear.Solution
import LeastSquares.Proofs.Number.Zeros
import LeastSquares.Proofs.Settings.Obtained
import LeastSquares.Proofs.Store.Traversal
import Mathlib

/-!
# No division by a zero pivot

In exact arithmetic an accepted pivot cannot be zero, because it exceeds a multiple of its own
magnitude (`ne_zero_of_wellPosed`).  In floating point the one comparison there is could let a
zero pass: a product may vanish below the range or leave it, and what is not a number compares
with nothing.  It does not, because only signs matter.  Among finite magnitudes with a zero the
least one is a zero (`least_beq_zero`), the product of the threshold with the greatest one is not
below zero (`Number.not_mul_lt_zero`), and so it is not less than the least one.

So an accepted factor with finite pivots passes the screening, and a solve can fail by the shape
of the right-hand side only (`Factorization.eq_of_solveArray_eq_error`).

The pivots of a matrix of zeros are zeros, whichever column is taken next: a reflection of a
column of zeros does not act, so all columns stay zeros (`Householder.zeros_eliminate`).  Then the
product is a zero or a NaN at every threshold.  This is the only place where it matters how the
factors are found; all else is shown of any routine.

The main result is `LinearSolver.zero_pivots_refused`.
-/

namespace LeastSquares

/-! ## Magnitudes -/

theorem not_magnitude_lt_zero (x : Float) : ¬ magnitude x < 0 := by
  unfold magnitude
  split_ifs with h
  · exact Number.not_neg_lt_zero h
  · exact h

theorem isFinite_magnitude (x : Float) : (magnitude x).isFinite = x.isFinite := by
  unfold magnitude
  split_ifs
  · exact Number.isFinite_neg x
  · rfl

theorem magnitude_beq_zero {x : Float} (h : (x == 0) = true) : (magnitude x == 0) = true := by
  obtain ⟨sign, hzero⟩ := Number.beq_zero_iff.mp h
  have hbelow : ¬ x < 0 := by
    rw [Number.lt_iff, hzero]
    exact Bool.false_ne_true
  rw [magnitude, if_neg hbelow, h]

/-- The least of finite magnitudes is a zero if one of them is. -/
theorem least_beq_zero {x : Float} {rest : List Float}
    (hall : ∀ y ∈ x :: rest, y.isFinite = true ∧ ¬ y < 0)
    (hzero : ∃ y ∈ x :: rest, (y == 0) = true) : (least x rest == 0) = true := by
  induction rest generalizing x with
  | nil =>
      obtain ⟨y, hy, hzero⟩ := hzero
      obtain rfl := List.mem_singleton.mp hy
      exact hzero
  | cons b rest ih =>
      simp only [List.forall_mem_cons] at hall
      obtain ⟨hx, hb, hrest⟩ := hall
      refine ih (x := if b < x then b else x) ?_ ?_
      · refine List.forall_mem_cons.mpr ⟨?_, hrest⟩
        split_ifs
        exacts [hb, hx]
      · obtain ⟨y, hy, hzero⟩ := hzero
        rcases List.mem_cons.mp hy with rfl | hy
        · -- Nothing is less than a zero here, so it is kept.
          have hkept : ¬ b < y := by
            rw [Number.lt_iff_of_beq_zero hzero]
            exact hb.2
          exact ⟨_, List.mem_cons_self, by rwa [if_neg hkept]⟩
        rcases List.mem_cons.mp hy with rfl | hy
        · refine ⟨_, List.mem_cons_self, ?_⟩
          split_ifs with hless
          · exact hzero
          · exact Number.beq_zero_of_not_lt hx.1 hx.2 hzero hless
        · exact ⟨y, List.mem_cons_of_mem _ hy, hzero⟩

/-! ## The verdict -/

variable {t : Float} {pivots : List Float}

theorem exceedsRatio_eq_false_of_least {x : Float} {rest : List Float}
    (hpivots : pivots.map magnitude = x :: rest) (hleast : (least x rest == 0) = true)
    (hproduct : ¬ t * greatest x rest < 0) : exceedsRatio t pivots = false := by
  unfold exceedsRatio
  rw [hpivots]
  refine decide_eq_false ?_
  rwa [Number.lt_iff_of_beq_zero hleast]

/-- Of finite pivots none can be zero, if the threshold is not negative. -/
theorem exceedsRatio_eq_false_of_zero (ht : ¬ t < 0) (hfinite : ∀ p ∈ pivots, p.isFinite = true)
    (hzero : ∃ p ∈ pivots, (p == 0) = true) : exceedsRatio t pivots = false := by
  obtain ⟨p, hp, hzero⟩ := hzero
  cases pivots with
  | nil => cases hp
  | cons q rest =>
      have hall : ∀ y ∈ (q :: rest).map magnitude, y.isFinite = true ∧ ¬ y < 0 := by
        rintro _ hy
        obtain ⟨p', hp', rfl⟩ := List.mem_map.mp hy
        exact ⟨(isFinite_magnitude p').trans (hfinite p' hp'), not_magnitude_lt_zero p'⟩
      have hgreatest := hall _ (greatest_mem (magnitude q) (rest.map magnitude))
      refine exceedsRatio_eq_false_of_least List.map_cons (least_beq_zero hall ?_)
        (Number.not_mul_lt_zero ht hgreatest.2)
      exact ⟨magnitude p, List.mem_map_of_mem hp, magnitude_beq_zero hzero⟩

/-- Pivots that are all zero are not accepted at any threshold. -/
theorem exceedsRatio_eq_false_of_zeros (hne : pivots ≠ [])
    (hzeros : ∀ p ∈ pivots, (p == 0) = true) : exceedsRatio t pivots = false := by
  cases pivots with
  | nil => exact absurd rfl hne
  | cons q rest =>
      have hall : ∀ y ∈ (q :: rest).map magnitude, (y == 0) = true := by
        rintro _ hy
        obtain ⟨p, hp, rfl⟩ := List.mem_map.mp hy
        exact magnitude_beq_zero (hzeros p hp)
      exact exceedsRatio_eq_false_of_least List.map_cons (hall _ (least_mem _ _))
        (Number.not_mul_lt_zero_of_beq_zero (hall _ (greatest_mem _ _)))

theorem wellPosed_eq_false_of_zero (ht : 0 ≤ t) (hfinite : ∀ p ∈ pivots, p.isFinite = true)
    (hzero : ∃ p ∈ pivots, (p == 0) = true) : wellPosed t pivots = false := by
  rw [wellPosed_of_finite t hfinite]
  exact exceedsRatio_eq_false_of_zero (Number.not_lt_zero_of_nonneg ht) hfinite hzero

theorem wellPosed_eq_false_of_zeros (hne : pivots ≠ [])
    (hzeros : ∀ p ∈ pivots, (p == 0) = true) : wellPosed t pivots = false := by
  rw [wellPosed_of_finite t fun p hp => Number.isFinite_of_beq_zero (hzeros p hp)]
  exact exceedsRatio_eq_false_of_zeros hne hzeros

/-! ## What can go wrong when a system is solved -/

namespace Columns

variable {α : Type*} [Zero α] {length n k : ℕ} {entries : List α}

theorem ofNArray_single (h : entries.length = Nesting.volume [n]) :
    ofNArray length ⟨[n], entries, h⟩ =
      if n = length then .ok (vector entries) else .error .shapeMismatch := rfl

theorem ofNArray_pair (h : entries.length = Nesting.volume [n, k]) :
    ofNArray length ⟨[n, k], entries, h⟩ =
      if n = length then .ok (matrix (Dense.ofArray n k entries h))
      else .error .shapeMismatch := rfl

theorem eq_of_ofNArray_eq_error {a : NArray α} {failure : Failure}
    (h : ofNArray length a = .error failure) : failure = .shapeMismatch := by
  obtain ⟨shape, entries, hlength⟩ := a
  match shape, hlength, h with
  | [], _, h => exact (Except.error.inj h).symm
  | [n], hlength, h =>
      rw [ofNArray_single] at h
      split_ifs at h
      exact (Except.error.inj h).symm
  | [n, k], hlength, h =>
      rw [ofNArray_pair] at h
      split_ifs at h
      exact (Except.error.inj h).symm
  | x :: y :: z :: rest, hlength, h =>
      unfold ofNArray at h
      dsimp only at h
      split at h
      · split_ifs at h
        exact (Except.error.inj h).symm
      · exact (Except.error.inj h).symm

end Columns

namespace Factorization

variable {α : Type*} [Finiteness α] [Zero α] [One α] [Add α] [Sub α] [Mul α] [Div α] [BEq α]
  {f : Factorization α}

theorem exists_solveEach (hstops : f.stops = false) (b : Dense α) :
    ∃ zs, f.solveEach b = .ok zs := by
  have hfactors : ∀ column, f.solveFactors (f.substitution b.columns) column =
      .ok (solveUpper (f.substitution b.columns) f.r (f.q.transpose.apply column)) := by
    intro column
    rw [solveFactors, hstops]
    rfl
  have hread := readEach_eq_ok (l := b.columnList) fun column _ => hfactors column
  exact ⟨_, by rw [solveEach, hstops, Bool.and_false, if_neg Bool.false_ne_true, hread]⟩

theorem exists_solve_vector (hstops : f.stops = false) (b : List α) :
    ∃ x, f.solve (.vector b) = .ok x := by
  rw [solve, solveVector, solveFactors, hstops]
  exact ⟨_, rfl⟩

theorem exists_solve_matrix (hstops : f.stops = false) (b : Dense α) :
    ∃ x, f.solve (.matrix b) = .ok x := by
  obtain ⟨zs, hzs⟩ := exists_solveEach hstops b
  rw [solve, solveMatrix, hzs]
  exact ⟨_, rfl⟩

omit [One α] [Add α] [Sub α] [Mul α] [Div α] [BEq α] in
theorem eq_of_arrange_eq_error {z : Stack α} {failure : Failure}
    (h : f.arrange z = .error failure) : failure = .shapeMismatch ∨ failure = .outOfBounds := by
  unfold arrange at h
  split at h
  · split_ifs at h
    · exact .inr (Except.error.inj h).symm
    · exact .inl (Except.error.inj h).symm
  · cases h

theorem eq_of_solve_eq_error (hstops : f.stops = false) {b : Columns α} {failure : Failure}
    (h : f.solve b = .error failure) : failure = .shapeMismatch ∨ failure = .outOfBounds := by
  cases b with
  | vector b =>
      obtain ⟨x, hx⟩ := exists_solve_vector hstops b
      rw [hx] at h
      cases h
  | matrix b =>
      obtain ⟨x, hx⟩ := exists_solve_matrix hstops b
      rw [hx] at h
      cases h
  | stack b =>
      choose answer hanswer using exists_solveEach hstops
      have hread := readEach_eq_ok (l := b.members) fun member _ => hanswer member
      rw [solve, solveStack] at h
      cases hmembers : readEach f.solveEach b.members with
      | error failure' =>
          rw [hmembers] at hread
          cases hread
      | ok solutions =>
          rw [hmembers] at h
          exact eq_of_arrange_eq_error (map_eq_error_iff.mp h)

/-- Once the screening is passed, a solve can fail by the shape of the right-hand side only. -/
theorem eq_of_solveArray_eq_error (hstops : f.stops = false) {b : NArray α} {failure : Failure}
    (h : f.solveArray b = .error failure) : failure = .shapeMismatch ∨ failure = .outOfBounds := by
  unfold solveArray at h
  cases hb : Columns.ofNArray f.r.columns b with
  | ok columns =>
      rw [hb] at h
      exact eq_of_solve_eq_error hstops h
  | error failure' =>
      rw [hb] at h
      obtain rfl := Except.error.inj h
      exact .inl (Columns.eq_of_ofNArray_eq_error hb)

/-- A right-hand side is one column or the columns of a matrix, with one row for each unknown. -/
theorem exists_solveArray (hstops : f.stops = false) {b : NArray α}
    (hb : b.shape = [f.r.columns] ∨ ∃ k, b.shape = [f.r.columns, k]) :
    ∃ x, f.solveArray b = .ok x := by
  obtain ⟨shape, entries, hlength⟩ := b
  rcases hb with rfl | ⟨k, rfl⟩
  · rw [solveArray, Columns.ofNArray_single, if_pos rfl]
    exact exists_solve_vector hstops entries
  · rw [solveArray, Columns.ofNArray_pair, if_pos rfl]
    exact exists_solve_matrix hstops _

end Factorization

/-! ## Eliminating zeros -/

/-- A list of zeros of either sign. -/
def Zeros (l : List Float) : Prop := ∀ x ∈ l, (x == 0) = true

theorem getD_of_forall {α : Type*} {P : α → Prop} {l : List α} {d : α} (h : ∀ x ∈ l, P x)
    (hd : P d) (i : ℕ) : P (l.getD i d) := by
  rcases lt_or_ge i l.length with hi | hi
  · rw [List.getD_eq_getElem _ _ hi]
    exact h _ (List.getElem_mem hi)
  · rwa [List.getD_eq_default _ _ hi]

namespace Householder

theorem Reflection.scale_ofColumn_of_zeros {entries : List Float} (h : Zeros entries) :
    (ofColumn entries).scale = 0 ∧ ((ofColumn entries).pivot == 0) = true := by
  cases entries with
  | nil => exact ⟨rfl, rfl⟩
  | cons x rest =>
      obtain ⟨hx, hrest⟩ := List.forall_mem_cons.mp h
      rw [ofColumn, if_pos (List.all_eq_true.mpr hrest)]
      exact ⟨rfl, hx⟩

/-- A reflection without a scale does not act. -/
theorem Reflection.applyAll_of_scale {h : Reflection} (hscale : h.scale = 0)
    (columns : List (List Float)) : h.applyAll columns = columns := by
  have happly : ∀ column, h.apply column = column := by
    intro column
    cases column with
    | nil => rfl
    | cons y ys => rw [apply, hscale]; rfl
  fun_induction h.applyAll columns with
  | case1 => rfl
  | case2 => rfl
  | case3 column columns _ ih => rw [happly, ih]

namespace Column

/-- A column of zeros, in the rows that are finished and in those that are left. -/
structure IsZero (c : Column) : Prop where
  above : Zeros c.above
  below : Zeros c.below

theorem above_advance (c : Column) (entries : List Float) :
    (c.advance entries).above = entries.headD 0 :: c.above := by
  unfold advance
  dsimp only
  split_ifs <;> rfl

theorem below_advance (c : Column) (entries : List Float) :
    (c.advance entries).below = entries.tail := by
  unfold advance
  dsimp only
  split_ifs <;> rfl

theorem IsZero.advance {c : Column} (h : c.IsZero) : (c.advance c.below).IsZero where
  above := by
    rw [above_advance]
    refine List.forall_mem_cons.mpr ⟨?_, h.above⟩
    cases hbelow : c.below with
    | nil => rfl
    | cons x rest => exact h.below x (hbelow ▸ List.mem_cons_self)
  below := by
    rw [below_advance]
    exact fun x hx => h.below x (List.mem_of_mem_tail hx)

end Column

/-- A choice among columns that makes up none. -/
def Choice.Selects (choice : Choice) : Prop :=
  ∀ column columns, (choice.next column columns).1 ∈ column :: columns ∧
    (choice.next column columns).2 ⊆ column :: columns

theorem selects_leftmost : leftmost.Selects := fun column columns =>
  ⟨List.mem_cons_self, List.subset_cons_self column columns⟩

theorem selects_longest : longest.Selects := by
  intro column columns
  change (longestFirst column columns).1 ∈ _ ∧ (longestFirst column columns).2 ⊆ _
  unfold longestFirst
  split
  · exact selects_leftmost column columns
  · split
    · rename_i next hnext
      refine ⟨List.mem_cons_of_mem _ (List.mem_of_getElem? hnext), fun c hc => ?_⟩
      rcases List.mem_or_eq_of_mem_set hc with hc | rfl
      · exact List.mem_cons_of_mem _ hc
      · exact List.mem_cons_self
    · exact selects_leftmost column columns

/-- Columns of zeros are eliminated without being changed. -/
theorem zeros_eliminate {choice : Choice} (hchoice : choice.Selects) (count : ℕ)
    {columns : List Column} (along : List (List Float)) (h : ∀ c ∈ columns, c.IsZero) :
    ∀ step ∈ eliminate choice count columns along, Zeros step.1.entries := by
  induction count generalizing columns along with
  | zero => exact fun step hstep => absurd hstep (List.not_mem_nil)
  | succ count ih =>
      cases columns with
      | nil => exact fun step hstep => absurd hstep (List.not_mem_nil)
      | cons column columns =>
          obtain ⟨hnext, hothers⟩ := hchoice column columns
          have hzero := h _ hnext
          obtain ⟨hscale, hpivot⟩ := Reflection.scale_ofColumn_of_zeros hzero.below
          refine List.forall_mem_cons.mpr ⟨?_, ih _ ?_⟩
          · intro x hx
            rcases List.mem_append.mp hx with hx | hx
            · exact hzero.above x (List.mem_reverse.mp hx)
            · rw [List.mem_singleton.mp hx]
              exact hpivot
          · rw [Reflection.applyAll_of_scale hscale]
            intro c hc
            rw [List.zipWith_map_right, List.zipWith_self] at hc
            obtain ⟨other, hother, rfl⟩ := List.mem_map.mp hc
            exact (h other (hothers hother)).advance

theorem zeros_column {m : Dense Float} (h : ∀ i j x, m.get? i j = some x → (x == 0) = true)
    (j : ℕ) : Zeros (m.column j) := by
  intro x hx
  obtain ⟨row, hrow, hx⟩ := List.mem_filterMap.mp hx
  obtain ⟨i, hi⟩ := List.mem_iff_getElem?.mp hrow
  refine h i j x ?_
  rw [Dense.get?, hi]
  exact hx

/-- The pivots of a matrix of zeros are zeros. -/
theorem zeros_diagonal_factor {choice : Choice} (hchoice : choice.Selects)
    (screening : Screening Float) (single : Substitution) {m : Dense Float}
    (h : ∀ i j x, m.get? i j = some x → (x == 0) = true) :
    Zeros (factor choice screening single m).r.diagonal := by
  have hstart : ∀ c ∈ columnsOf m, c.IsZero := by
    intro c hc
    obtain ⟨j, -, rfl⟩ := List.mem_map.mp hc
    exact ⟨fun x hx => absurd hx List.not_mem_nil, zeros_column h j⟩
  have hsteps := zeros_eliminate hchoice m.rows (Dense.identity m.rows).columnList hstart
  intro p hp
  obtain ⟨i, -, hp⟩ := List.mem_filterMap.mp hp
  rw [factor, upper, Dense.get?_ofFn] at hp
  split_ifs at hp
  obtain rfl := Option.some.inj hp
  have hentries : Zeros (((((eliminate choice m.rows (columnsOf m)
      (Dense.identity m.rows).columnList).map Prod.fst).map Finished.entries)).getD i []) := by
    refine getD_of_forall ?_ (fun x hx => absurd hx List.not_mem_nil) i
    intro entries hmem
    rw [List.map_map] at hmem
    obtain ⟨step, hstep, rfl⟩ := List.mem_map.mp hmem
    exact hsteps step hstep
  exact getD_of_forall hentries rfl i

end Householder

/-! ## The solvers -/

/-- Factors whose pivots are not zero, so that there is a solution for every right-hand side of the
right shape, and nothing but its shape can keep another one from being solved for. -/
structure Factorization.Answers (f : Factorization Float) (size : ℕ) : Prop where
  pivots : ∀ p ∈ f.r.diagonal, (p == 0) = false
  solve : ∀ b : NArray Float, (b.shape = [size] ∨ ∃ k, b.shape = [size, k]) →
    ∃ x, f.solveArray b = .ok x
  failure : ∀ (b : NArray Float) failure, f.solveArray b = .error failure →
    failure = .shapeMismatch ∨ failure = .outOfBounds

/-- Accepted factors with finite pivots have no zero among them, and answer. -/
theorem Factorization.answers_of_wellPosed {f : Factorization Float} {t : Float} (ht : 0 ≤ t)
    (hfinite : ∀ p ∈ f.r.diagonal, p.isFinite = true)
    (haccepted : wellPosed t f.r.diagonal = true) : f.Answers f.r.columns := by
  have hpivots : ∀ p ∈ f.r.diagonal, (p == 0) = false := by
    intro p hp
    rw [← Bool.not_eq_true]
    intro hzero
    rw [wellPosed_eq_false_of_zero ht hfinite ⟨p, hp, hzero⟩] at haccepted
    cases haccepted
  have hstops : f.stops = false :=
    Screening.not_stops _ (List.all_eq_true.mpr hfinite) hpivots
  exact ⟨hpivots, fun b => Factorization.exists_solveArray hstops,
    fun b failure => Factorization.eq_of_solveArray_eq_error hstops⟩

namespace Threshold

variable {threshold : Threshold} {routine : Routine Float} {t : Float} {matrix : Dense Float}

/-- Factors that are found are those of a favourable verdict. -/
theorem eq_of_factorize_eq_ok (ht : threshold.value? = some t) {f : Factorization Float}
    (h : (threshold.solver routine).factorize matrix = .ok f) :
    routine.factor matrix = f ∧ wellPosed t f.r.diagonal = true := by
  rw [solver_eq_relative ht] at h
  obtain ⟨-, hjudge, rfl⟩ := (Solver.factorize_eq_ok_iff _).mp h
  exact ⟨rfl, Except.ok.inj hjudge⟩

theorem answers_of_factorize (ht : threshold.value? = some t) (hnonneg : 0 ≤ t)
    (hfinite : ∀ p ∈ (routine.factor matrix).r.diagonal, p.isFinite = true)
    {f : Factorization Float} (h : (threshold.solver routine).factorize matrix = .ok f) :
    f.Answers f.r.columns := by
  obtain ⟨rfl, haccepted⟩ := eq_of_factorize_eq_ok ht h
  exact Factorization.answers_of_wellPosed hnonneg hfinite haccepted

theorem rejects_of_not_wellPosed (ht : threshold.value? = some t)
    (hsquare : matrix.rows = matrix.columns)
    (hverdict : wellPosed t (routine.factor matrix).r.diagonal = false) :
    (threshold.solver routine).Rejects matrix := by
  rw [solver_eq_relative ht]
  exact Solver.rejects_of_not_wellPosed (beq_iff_eq.mpr hsquare) hverdict

end Threshold

namespace LinearSolver

variable {s : LinearSolver} {t : Float} {m : MatrixValue} {matrix : Dense Float}

/-- A matrix is refused as singular. -/
structure Refuses (s : LinearSolver) (m : MatrixValue) : Prop where
  isNonSingular : s.isNonSingular m = .ok false
  factorize : ∃ size rank, s.factorize m = .error (.singular size s.threshold rank)

theorem isNonSingular_eq (ht : s.threshold.value? = some t) (haccess : m.access = .ok matrix)
    (hsquare : matrix.rows = matrix.columns) :
    s.isNonSingular m = .ok (wellPosed t (s.pivots matrix)) := by
  rw [isNonSingular_of_access haccess, Threshold.solver_eq_relative ht,
    Solver.isNonSingular_relative (beq_iff_eq.mpr hsquare)]
  rfl

theorem refuses_of_not_wellPosed (ht : s.threshold.value? = some t)
    (haccess : m.access = .ok matrix) (hsquare : matrix.rows = matrix.columns)
    (hverdict : wellPosed t (s.pivots matrix) = false) : s.Refuses m := by
  refine ⟨?_, matrix.rows, apparentRank rankRatio (s.pivots matrix), ?_⟩
  · rw [isNonSingular_eq ht haccess hsquare, hverdict]
  · rw [factorize_of_access haccess, Threshold.solver_eq_relative ht]
    exact Solver.factorize_of_not_wellPosed (beq_iff_eq.mpr hsquare) hverdict

theorem columns_factor (s : LinearSolver) (matrix : Dense Float) :
    (s.backend.routine.factor matrix).r.columns = matrix.rows := by
  cases s.backend <;> rfl

theorem pivots_ne_nil (s : LinearSolver) (hsize : 0 < matrix.rows) : s.pivots matrix ≠ [] := by
  have hrows : (s.backend.routine.factor matrix).r.rows = matrix.rows := by
    cases s.backend <;> rfl
  have hcolumns := s.columns_factor matrix
  obtain ⟨p, hp⟩ := Option.isSome_iff_exists.mp
    ((s.backend.routine.factor matrix).r.get?_isSome (hrows ▸ hsize) (hcolumns ▸ hsize))
  exact List.ne_nil_of_mem (List.mem_filterMap.mpr ⟨0, List.mem_range.mpr (hrows ▸ hsize), hp⟩)

theorem zeros_pivots (s : LinearSolver)
    (h : ∀ i j x, matrix.get? i j = some x → (x == 0) = true) : Zeros (s.pivots matrix) := by
  unfold pivots
  cases s.backend with
  | portable => exact Householder.zeros_diagonal_factor Householder.selects_leftmost _ _ h
  | native => exact Householder.zeros_diagonal_factor Householder.selects_longest _ _ h

/-- A matrix of zeros has no factors, not even at a threshold that cannot be compared. -/
theorem factorize_ne_ok_of_zeros (haccess : m.access = .ok matrix)
    (hsquare : matrix.rows = matrix.columns) (hsize : 0 < matrix.rows)
    (hzeros : ∀ i j x, matrix.get? i j = some x → (x == 0) = true) (f : Factorization Float) :
    s.factorize m ≠ .ok f := by
  intro h
  have haccepted := (s.sameAnswer m).accepted.mpr ⟨f, h⟩
  have hpivots := s.zeros_pivots hzeros
  cases ht : s.threshold.value? with
  | some t =>
      rw [isNonSingular_eq ht haccess hsquare,
        wellPosed_eq_false_of_zeros (s.pivots_ne_nil hsize) hpivots] at haccepted
      cases haccepted
  | none =>
      have hjudged := unjudged_eq_false (s.pivots_ne_nil hsize) fun p hp =>
        Number.isFinite_of_beq_zero (hpivots p hp)
      have herror : s.isNonSingular m = .error .numberRange :=
        isNonSingular_eq_error_iff.mpr
          (.inr ⟨matrix, haccess, .inr ⟨hsquare, hjudged, ht, rfl⟩⟩)
      rw [herror] at haccepted
      cases haccepted

/-- **No solve divides by a zero pivot.**  At a threshold that is not negative, if all pivots are
finite, whatever factors are found have no zero among their pivots and answer every right-hand
side of the right shape, and a zero among the pivots has the matrix refused.  A matrix of zeros
has no factors at any threshold whatsoever, and is refused at every one that is a floating-point
number, finite or not.  The thresholds of settings are not negative.

The same holds of factors that are found in any other way, as long as those of a matrix of zeros
have zeros for pivots. -/
theorem zero_pivots_refused (s : LinearSolver) {m : MatrixValue} {matrix : Dense Float}
    (haccess : m.access = .ok matrix) (hsquare : matrix.rows = matrix.columns)
    (hsize : 0 < matrix.rows) :
    (∀ t, s.threshold.value? = some t → 0 ≤ t →
      (∀ p ∈ s.pivots matrix, p.isFinite = true) →
        (∀ f, s.factorize m = .ok f → f.Answers matrix.rows) ∧
          ((∃ p ∈ s.pivots matrix, (p == 0) = true) → s.Refuses m)) ∧
      ((∀ i j x, matrix.get? i j = some x → (x == 0) = true) →
        (∀ f, s.factorize m ≠ .ok f) ∧ ∀ t, s.threshold.value? = some t → s.Refuses m) ∧
      (∀ installed settings, ofSettings installed settings = .ok s →
        ∃ t, s.threshold.value? = some t ∧ 0 ≤ t) ∧
      ∀ (threshold : Threshold) (routine : Routine Float) t, threshold.value? = some t →
        (0 ≤ t → (∀ p ∈ (routine.factor matrix).r.diagonal, p.isFinite = true) →
          (∀ f, (threshold.solver routine).factorize matrix = .ok f →
            f.Answers f.r.columns) ∧
          ((∃ p ∈ (routine.factor matrix).r.diagonal, (p == 0) = true) →
            (threshold.solver routine).Rejects matrix)) ∧
        ((routine.factor matrix).r.diagonal ≠ [] → Zeros (routine.factor matrix).r.diagonal →
          (threshold.solver routine).Rejects matrix) := by
  refine ⟨?_, ?_, ?_, ?_⟩
  · intro t ht hnonneg hfinite
    refine ⟨fun f h => ?_, fun hzero => ?_⟩
    · rw [factorize_of_access haccess] at h
      have hanswers := Threshold.answers_of_factorize ht hnonneg hfinite h
      obtain ⟨rfl, -⟩ := Threshold.eq_of_factorize_eq_ok ht h
      rwa [columns_factor] at hanswers
    · exact refuses_of_not_wellPosed ht haccess hsquare
        (wellPosed_eq_false_of_zero hnonneg hfinite hzero)
  · intro hzeros
    refine ⟨factorize_ne_ok_of_zeros haccess hsquare hsize hzeros, fun t ht => ?_⟩
    exact refuses_of_not_wellPosed ht haccess hsquare
      (wellPosed_eq_false_of_zeros (s.pivots_ne_nil hsize) (s.zeros_pivots hzeros))
  · intro installed settings hselected
    have hselects := Settings.selects_of_ofSettings hselected
    exact ⟨_, hselects.threshold, Number.le_of_lt settings.threshold.property.1⟩
  · intro threshold routine t ht
    refine ⟨fun hnonneg hfinite => ⟨fun f => ?_, fun hzero => ?_⟩, fun hne hzeros => ?_⟩
    · exact Threshold.answers_of_factorize ht hnonneg hfinite
    · exact Threshold.rejects_of_not_wellPosed ht hsquare
        (wellPosed_eq_false_of_zero hnonneg hfinite hzero)
    · exact Threshold.rejects_of_not_wellPosed ht hsquare
        (wellPosed_eq_false_of_zeros hne hzeros)

/-- The least positive number and a zero on the diagonal. -/
def vanishing : Dense Float := ⟨2, 2, [[5e-324, 0], [0, -0.0]], rfl, by decide⟩

/-- The product of the threshold with the larger pivot vanishes, so that both sides of the
comparison are zeros.  The identity is accepted with a threshold of zero. -/
theorem zero_pivots_refused_vanishing :
    LinearSolver.Refuses ⟨.portable, .real 1e-5⟩ (.dense vanishing) ∧
      ((1e-5 : Float) * 5e-324 == 0) = true ∧
      ∃ f, LinearSolver.factorize ⟨.native, .real 0⟩ (.dense (.identity 2)) = .ok f ∧
        f.Answers 2 := by
  have hvanishing : pivots ⟨.portable, .real 1e-5⟩ vanishing = [5e-324, -0.0] := by
    decide +kernel
  have hidentity : pivots ⟨.native, .real 0⟩ (.identity 2) = [1, 1] := by decide +kernel
  have hverdict : LinearSolver.isNonSingular ⟨.native, .real 0⟩ (.dense (.identity 2)) =
      .ok true := by
    rw [isNonSingular_eq rfl rfl rfl, hidentity]
    rfl
  obtain ⟨f, hfactors⟩ := (sameAnswer _ _).accepted.mp hverdict
  refine ⟨?_, by decide +kernel, f, hfactors, ?_⟩
  · refine ((zero_pivots_refused ⟨.portable, .real 1e-5⟩ (m := .dense vanishing) rfl rfl
      (by decide)).1 1e-5 rfl (by decide +kernel) ?_).2 ?_
    · rw [hvanishing]
      decide +kernel
    · rw [hvanishing]
      exact ⟨-0.0, by simp, rfl⟩
  · refine ((zero_pivots_refused ⟨.native, .real 0⟩ (m := .dense (.identity 2)) rfl rfl
      (by decide)).1 0 rfl (by decide +kernel) ?_).1 f hfactors
    rw [hidentity]
    decide +kernel

end LinearSolver

end LeastSquares

import LeastSquares.Proofs.Association.Rendering

/-!
# Only the changes of each pair of ids count

Changes of different pairs of ids share the lines of a matrix: one of them may make the
line that the other one needs, or drop it, and the order in which lines come in is the
order of the changes.  None of this can be read off a matrix but by iterating over it.

`ReadsSame` is what cannot be told apart by any other read, the table included.
Consistent matrices with the same weights are alike in this sense
(`Consistent.readsSame`), and the weight of a pair is a function of the changes of that
pair (`amountsAt_stepsAt`).  The main result is `run_readsSame`.
-/

namespace LeastSquares

/-- What is listed for a set of ids is a function of the set. -/
theorem ListsIds.unique {answer answer' : Except Failure (List Int)} {ids : Finset Int}
    (h : ListsIds answer ids) (h' : ListsIds answer' ids) : answer = answer' := by
  by_cases hfits : ∀ id ∈ ids, Number.fitsInt64 id = true
  · obtain ⟨list, rfl, hsorted, hmem⟩ := h.of_fits hfits
    obtain ⟨list', rfl, hsorted', hmem'⟩ := h'.of_fits hfits
    rw [hsorted.eq_of_mem_iff hsorted' fun id => (hmem id).trans (hmem' id).symm]
  · obtain ⟨id, hid, hbeyond⟩ : ∃ id ∈ ids, Number.fitsInt64 id = false := by
      simpa using hfits
    rw [h.of_not_fits ⟨id, hid, hbeyond⟩, h'.of_not_fits ⟨id, hid, hbeyond⟩]

namespace Association

/-! ## Matrices that read the same -/

/-- Two matrices that are alike to every read but the list of all entries. -/
structure ReadsSame (m m' : Association) : Prop where
  get? : ∀ row column, m.get? row column = m'.get? row column
  contains : ∀ row column, m.contains row column = m'.contains row column
  row : ∀ row column, (m.row row).get? column = (m'.row row).get? column
  column : ∀ row column, (m.column column).get? row = (m'.column column).get? row
  size : m.size = m'.size
  shape : m.shape = m'.shape
  rowIds : m.rowIds = m'.rowIds
  columnIds : m.columnIds = m'.columnIds
  table : m.table = m'.table

variable {m m' : Association}

/-- A table looks its weights up by row and column, so it does not depend on their order. -/
theorem tableLines_congr (h : ∀ row column, (m.row row).get? column = (m'.row row).get? column)
    (rowIds columnIds : List Int) :
    m.tableLines rowIds columnIds = m'.tableLines rowIds columnIds := by
  have hcells : ∀ rowId, m.rowCells columnIds rowId = m'.rowCells columnIds rowId := by
    intro rowId
    simp only [rowCells, h]
  simp only [tableLines, hcells]

theorem ReadsAs.readsSame {weight? : Int → Int → Option Float} {live : Finset (Int × Int)}
    (h : m.ReadsAs weight? live) (h' : m'.ReadsAs weight? live) : ReadsSame m m' := by
  have hrow : ∀ row column, (m.row row).get? column = (m'.row row).get? column :=
    fun row column => (h.row row column).trans (h'.row row column).symm
  have hrowIds : m.rowIds = m'.rowIds := h.rowIds.unique h'.rowIds
  have hcolumnIds : m.columnIds = m'.columnIds := h.columnIds.unique h'.columnIds
  refine
    { get? := fun row column => (h.get? row column).trans (h'.get? row column).symm
      contains := fun row column => ?_
      row := hrow
      column := fun row column => (h.column row column).trans (h'.column row column).symm
      size := h.size.trans h'.size.symm
      shape := h.shape.trans h'.shape.symm
      rowIds := hrowIds
      columnIds := hcolumnIds
      table := ?_ }
  · exact Bool.eq_iff_iff.mpr ((h.contains row column).trans (h'.contains row column).symm)
  · simp only [Association.table, tableChars, hrowIds, hcolumnIds, tableLines_congr hrow]

/-- Consistent matrices with the same weights read the same. -/
theorem Consistent.readsSame (h : m.Consistent) (h' : m'.Consistent)
    (hget : ∀ row column, m.get? row column = m'.get? row column) : ReadsSame m m' := by
  have heq : m.get? = m'.get? := by
    funext row column
    exact hget row column
  -- The pairs that have a weight are those of the entries, and both matrices have the same.
  let live := (m.toList.map fun entry => (entry.1, entry.2.1)).toFinset
  have hlive : ∀ row column, (row, column) ∈ live ↔ (m.get? row column).isSome = true :=
    fun _ _ => View.mem_toFinset_toList
  have hreads : m.ReadsAs m.get? live := h.readsAs hlive
  have hreads' : m'.ReadsAs m'.get? live := h'.readsAs (heq ▸ hlive)
  rw [← heq] at hreads'
  exact hreads.readsSame hreads'

/-! ## The changes of one pair -/

/-- The changes of a pair of ids, in order. -/
def stepsAt (steps : List Step) (row column : Int) : List Step :=
  steps.filter fun step => step.cell = (row, column)

/-- The triples of a pair of ids, in order. -/
def triplesAt (triples : List (Int × Int × Float)) (row column : Int) :
    List (Int × Int × Float) :=
  triples.filter fun triple => (triple.1, triple.2.1) = (row, column)

theorem stepsAt_concat (steps : List Step) (step : Step) (row column : Int) :
    stepsAt (steps ++ [step]) row column =
      if step.cell = (row, column) then stepsAt steps row column ++ [step]
      else stepsAt steps row column := by
  rw [stepsAt, List.filter_append, List.filter_singleton, ← stepsAt]
  by_cases h : step.cell = (row, column) <;> simp [h]

/-- The amounts of a pair are those that its own changes give. -/
theorem amountsAt_stepsAt (steps : List Step) (row column : Int) :
    amountsAt (stepsAt steps row column) row column = amountsAt steps row column := by
  induction steps using List.reverseRecOn with
  | nil => rfl
  | append_singleton steps step ih =>
      rw [stepsAt_concat]
      cases step with
      | add r c amount =>
          rw [amountsAt_concat_add, Step.cell]
          by_cases h : r = row ∧ c = column
          · rw [if_pos h, if_pos (Prod.mk_inj.mpr h), amountsAt_concat_add, if_pos h, ih]
          · rw [if_neg h, if_neg fun heq => h (Prod.mk_inj.mp heq), ih]
      | erase r c =>
          rw [amountsAt_concat_erase, Step.cell]
          by_cases h : r = row ∧ c = column
          · rw [if_pos h, if_pos (Prod.mk_inj.mpr h), amountsAt_concat_erase, if_pos h]
          · rw [if_neg h, if_neg fun heq => h (Prod.mk_inj.mp heq), ih]

theorem stepsAt_map_ofTriple (triples : List (Int × Int × Float)) (row column : Int) :
    stepsAt (triples.map Step.ofTriple) row column =
      (triplesAt triples row column).map Step.ofTriple := by
  rw [stepsAt, List.filter_map]
  rfl

/-- Sequences with the same changes of each pair lead to matrices that read the same. -/
theorem readsSame_of_stepsAt {steps steps' : List Step}
    (h : ∀ row column, stepsAt steps row column = stepsAt steps' row column) :
    ReadsSame ((∅ : Association).run steps) ((∅ : Association).run steps') := by
  refine (consistent_empty.run steps).readsSame (consistent_empty.run steps') ?_
  intro row column
  calc ((∅ : Association).run steps).get? row column
      = weightOf? (amountsAt (stepsAt steps row column) row column) := by
        rw [get?_run, weightAt?, amountsAt_stepsAt]
    _ = weightOf? (amountsAt (stepsAt steps' row column) row column) := by rw [h]
    _ = ((∅ : Association).run steps').get? row column := by
        rw [get?_run, weightAt?, amountsAt_stepsAt]

/-- **Only the order of the changes of each pair of ids counts.**  Two sequences of changes that
have the same changes of each pair, in the same order, lead to matrices that read the same,
however the changes of different pairs are mixed.  So do two lists of triples with the same
triples of each pair in the same order, which can both be built from. -/
theorem run_readsSame :
    (∀ steps steps' : List Step,
      (∀ row column, stepsAt steps row column = stepsAt steps' row column) →
      ReadsSame ((∅ : Association).run steps) ((∅ : Association).run steps')) ∧
    ∀ triples triples' : List (Int × Int × Float),
      (∀ row column, triplesAt triples row column = triplesAt triples' row column) →
      ∃ m m', ofTriples (triples.map usableTriple) = .ok m ∧
        ofTriples (triples'.map usableTriple) = .ok m' ∧ ReadsSame m m' := by
  refine ⟨fun steps steps' h => readsSame_of_stepsAt h, fun triples triples' h => ?_⟩
  refine ⟨ofList triples, ofList triples', ofTriples_eq_ok_iff.mpr ⟨triples, rfl, rfl⟩,
    ofTriples_eq_ok_iff.mpr ⟨triples', rfl, rfl⟩, ?_⟩
  rw [ofList_eq_run, ofList_eq_run]
  refine readsSame_of_stepsAt fun row column => ?_
  rw [stepsAt_map_ofTriple, stepsAt_map_ofTriple, h]

/-- Removing the only entry of a row, and storing it again, can be done before or after another
row comes in.  The rows are then listed in another order, and nothing else is different. -/
theorem run_readsSame_emptied_row :
    let steps := [Step.add 1 10 0.5, .add 2 10 4, .erase 1 10, .add 1 10 0.25]
    let steps' := [Step.add 1 10 0.5, .erase 1 10, .add 1 10 0.25, .add 2 10 4]
    let triples : List (Int × Int × Float) := [(1, 10, 1e30), (2, 20, 1), (1, 10, -1e30)]
    let triples' : List (Int × Int × Float) := [(2, 20, 1), (1, 10, 1e30), (1, 10, -1e30)]
    ((∅ : Association).run steps).rows.lines.keys = [2, 1] ∧
      ((∅ : Association).run steps').rows.lines.keys = [1, 2] ∧
      ReadsSame ((∅ : Association).run steps) ((∅ : Association).run steps') ∧
      ∃ m m', ofTriples (triples.map usableTriple) = .ok m ∧
        ofTriples (triples'.map usableTriple) = .ok m' ∧ ReadsSame m m' := by
  intro steps steps' triples triples'
  refine ⟨by decide, by decide, run_readsSame.1 steps steps' fun row column => ?_,
    run_readsSame.2 triples triples' fun row column => ?_⟩
  · -- The row that moves is the second one, and it has one change only.
    by_cases h : 2 = row
    · simp [steps, steps', stepsAt, List.filter_cons, Step.cell, ← h]
    · simp [steps, steps', stepsAt, List.filter_cons, Step.cell, h]
  · by_cases h : 2 = row
    · simp [triples, triples', triplesAt, List.filter_cons, ← h]
    · simp [triples, triples', triplesAt, List.filter_cons, h]

end Association

end LeastSquares

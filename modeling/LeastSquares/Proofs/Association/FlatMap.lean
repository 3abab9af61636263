import LeastSquares.Proofs.Association.Reads
import Mathlib.Data.List.DropRight

/-!
# A matrix is the flat map of its history

What is stored at a pair of ids depends on the changes of that pair alone: on the
amounts that were added since the pair was last removed, in their order.  `weightAt?`
computes it from a sequence of changes, and `liveCells` are the pairs that have a
weight after it.

The main result is `run_readsAs`: after every sequence of changes of the empty
matrix, all reads answer from this flat map.  The two views are not mentioned in it.
`get?_run` is the simulation behind it, an induction over the sequence from its end,
which is where a change decides whether a pair is live.
-/

namespace LeastSquares.Association

namespace Step

/-- The pair of ids that a change is about. -/
def cell : Step → Int × Int
  | add row column _ => (row, column)
  | erase row column => (row, column)

/-- Whether a change removes the entry at a pair of ids. -/
def erases (row column : Int) : Step → Bool
  | add _ _ _ => false
  | erase r c => r = row ∧ c = column

/-- The amount that a change adds at a pair of ids, if it does. -/
def amountAt? (row column : Int) : Step → Option Float
  | add r c amount => if r = row ∧ c = column then some amount else none
  | erase _ _ => none

end Step

/-- The amounts that were added at a pair of ids since it was last removed, in order. -/
def amountsAt (steps : List Step) (row column : Int) : List Float :=
  (steps.rtakeWhile fun step => !step.erases row column).filterMap (Step.amountAt? row column)

/-- The weight of a pair of ids with these amounts: none if there are none, and otherwise their
sum from zero on, narrowed after every addition. -/
def weightOf? (amounts : List Float) : Option Float :=
  if amounts.isEmpty then none
  else some (amounts.foldl (fun weight amount => Number.narrow (weight + amount)) 0.0)

/-- The weight of a pair of ids after a sequence of changes. -/
def weightAt? (steps : List Step) (row column : Int) : Option Float :=
  weightOf? (amountsAt steps row column)

/-- The pairs of ids to which something was added since they were last removed. -/
def liveCells (steps : List Step) : Finset (Int × Int) :=
  (steps.map Step.cell).toFinset.filter fun cell => amountsAt steps cell.1 cell.2 ≠ []

/-! ## One more change -/

variable {steps : List Step} {row column : Int}

@[simp] theorem weightOf?_nil : weightOf? [] = none := rfl

/-- One more amount is added to the weight so far, or to zero. -/
theorem weightOf?_concat (amounts : List Float) (amount : Float) :
    weightOf? (amounts ++ [amount]) =
      some (Number.narrow ((weightOf? amounts).getD 0.0 + amount)) := by
  cases amounts with
  | nil => rfl
  | cons first rest => simp [weightOf?, List.foldl_append]

theorem isSome_weightOf? {amounts : List Float} :
    (weightOf? amounts).isSome = true ↔ amounts ≠ [] := by
  cases amounts with
  | nil => simp
  | cons first rest => simp [weightOf?]

theorem amountsAt_concat_add (steps : List Step) (r c : Int) (amount : Float)
    (row column : Int) :
    amountsAt (steps ++ [.add r c amount]) row column =
      if r = row ∧ c = column then amountsAt steps row column ++ [amount]
      else amountsAt steps row column := by
  rw [amountsAt, List.rtakeWhile_concat_pos _ _ _ rfl, List.filterMap_append, ← amountsAt]
  by_cases h : r = row ∧ c = column <;> simp [Step.amountAt?, h]

theorem amountsAt_concat_erase (steps : List Step) (r c row column : Int) :
    amountsAt (steps ++ [.erase r c]) row column =
      if r = row ∧ c = column then [] else amountsAt steps row column := by
  have herases : (Step.erase r c).erases row column = decide (r = row ∧ c = column) := rfl
  rw [amountsAt, List.rtakeWhile_concat, herases]
  by_cases h : r = row ∧ c = column
  · rw [decide_eq_true h, if_pos h]
    rfl
  · rw [decide_eq_false h, if_neg h, Bool.not_false, if_pos rfl, List.filterMap_append, ← amountsAt]
    exact List.append_nil _

/-! ## The simulation -/

theorem run_concat (m : Association) (steps : List Step) (step : Step) :
    m.run (steps ++ [step]) = (m.run steps).apply step := by
  rw [run_append]
  rfl

/-- The weight that is stored is the one that the history gives. -/
theorem get?_run (steps : List Step) (row column : Int) :
    ((∅ : Association).run steps).get? row column = weightAt? steps row column := by
  induction steps using List.reverseRecOn with
  | nil => rfl
  | append_singleton steps step ih =>
      rw [run_concat, weightAt?]
      cases step with
      | add r c amount =>
          rw [amountsAt_concat_add, Association.apply, get?_add]
          by_cases h : r = row ∧ c = column
          · obtain ⟨rfl, rfl⟩ := h
            rw [if_pos ⟨rfl, rfl⟩, if_pos ⟨rfl, rfl⟩, weightOf?_concat, ← weightAt?, ← ih]
          · rw [if_neg h, if_neg fun h' => h ⟨h'.1.symm, h'.2.symm⟩]
            exact ih
      | erase r c =>
          rw [amountsAt_concat_erase, Association.apply, get?_erase]
          by_cases h : r = row ∧ c = column
          · rw [if_pos h, if_pos ⟨h.1.symm, h.2.symm⟩, weightOf?_nil]
          · rw [if_neg h, if_neg fun h' => h ⟨h'.1.symm, h'.2.symm⟩]
            exact ih

/-- A pair of ids that has amounts is the pair of some change. -/
theorem mem_map_cell_of_amountsAt_ne_nil (h : amountsAt steps row column ≠ []) :
    (row, column) ∈ steps.map Step.cell := by
  obtain ⟨amount, hamount⟩ := List.exists_mem_of_ne_nil _ h
  obtain ⟨step, hstep, hadds⟩ := List.mem_filterMap.mp hamount
  refine List.mem_map.mpr ⟨step, (List.rtakeWhile_suffix _ _).subset hstep, ?_⟩
  cases step with
  | add r c a =>
      rw [Step.amountAt?, Option.ite_none_right_eq_some] at hadds
      obtain ⟨⟨rfl, rfl⟩, _⟩ := hadds
      rfl
  | erase r c => simp [Step.amountAt?] at hadds

/-- The live pairs are those with a weight. -/
theorem mem_liveCells :
    (row, column) ∈ liveCells steps ↔ (weightAt? steps row column).isSome = true := by
  rw [liveCells, Finset.mem_filter, List.mem_toFinset, weightAt?, isSome_weightOf?]
  exact ⟨fun h => h.2, fun h => ⟨mem_map_cell_of_amountsAt_ne_nil h, h⟩⟩

/-- **All reads answer from the history.**  After every sequence of changes of the empty
matrix, the live pairs are those to which something was added since they were last removed,
and a matrix reads as the flat map that has at each of them the sum of these amounts, narrowed
after every addition. -/
theorem run_readsAs (steps : List Step) :
    ((∅ : Association).run steps).ReadsAs (weightAt? steps) (liveCells steps) ∧
      ∀ row column, (row, column) ∈ liveCells steps ↔ amountsAt steps row column ≠ [] := by
  have hweight : ((∅ : Association).run steps).get? = weightAt? steps := by
    funext row column
    exact get?_run steps row column
  refine ⟨?_, fun row column => ?_⟩
  · rw [← hweight]
    refine (consistent_empty.run steps).readsAs fun row column => ?_
    rw [mem_liveCells, hweight]
  · rw [mem_liveCells, weightAt?, isSome_weightOf?]

/-- An entry that was removed and stored again starts from zero, and stays live when its
amounts cancel. -/
example :
    let steps := [Step.add 1 10 2.5, .add 1 10 0.5, .erase 1 10, .add 2 10 1, .add 1 10 4,
      .add 1 10 (-4)]
    amountsAt steps 1 10 = [4, -4] ∧ (weightAt? steps 1 10).isSome = true ∧
      liveCells steps = {(1, 10), (2, 10)} := by
  refine ⟨rfl, rfl, ?_⟩
  decide

end LeastSquares.Association

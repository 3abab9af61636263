import LeastSquares.Number.Reading
import LeastSquares.Proofs.Association.BirthOrder
import LeastSquares.Proofs.Association.Faults

/-!
# Changes are local, and removals repair

A change goes to the two views one after the other, and each view is changed without a look
at the other one.  So a change does the same to a damaged matrix as to a consistent one: it
reaches the entry at its pair of ids in either view and leaves all the others as they are,
in value and in order (`View.ChangedAt`).

Two views that hold the same at a pair of ids (`AgreesAt`) do so after every change.  This
goes for the touched pair as well, where either view adds to what it has itself.  A removal
needs no agreement to begin with, since it leaves nothing at its pair of ids in either view.

The main result is `change_is_local`.  Along a run it becomes `run_repairs`: a damaged matrix
is as good as new when there has been a removal wherever it was damaged.
-/

namespace LeastSquares

/-! ## One view -/

namespace View

/-- A view differs from an earlier one at one pair of ids only, and the lines and entries that
both of them have are in the same order. -/
structure ChangedAt (v v' : View) (outer inner : Int) : Prop where
  get?_eq : ∀ r c, ¬ (r = outer ∧ c = inner) → v'.get? r c = v.get? r c
  lines_eq : ∀ id, id ≠ outer → v'.lines.get? id = v.lines.get? id
  keys : GrowsAtEnd v.lines.keys v'.lines.keys
  line_keys : ∀ id, GrowsAtEnd (v.line id).keys (v'.line id).keys

theorem changedAt_add (v : View) (outer inner : Int) (amount : Float) :
    v.ChangedAt (v.add outer inner amount) outer inner where
  get?_eq r c hne := by rw [get?_add, if_neg hne]
  lines_eq id hne := by rw [lines_get?_add, if_neg hne]
  keys := (Changed.add outer inner amount).keys
  line_keys := (Changed.add outer inner amount).line_keys

theorem changedAt_erase (v : View) (outer inner : Int) :
    v.ChangedAt (v.erase outer inner) outer inner where
  get?_eq r c hne := by rw [get?_erase, if_neg hne]
  lines_eq id hne := by rw [lines_get?_erase, if_neg hne]
  keys := (Changed.erase outer inner).keys
  line_keys := (Changed.erase outer inner).line_keys

theorem get?_add_self (v : View) (outer inner : Int) (amount : Float) :
    (v.add outer inner amount).get? outer inner =
      some (Number.narrow ((v.get? outer inner).getD 0.0 + amount)) := by
  rw [get?_add, if_pos ⟨rfl, rfl⟩]

theorem get?_erase_self (v : View) (outer inner : Int) :
    (v.erase outer inner).get? outer inner = none := by
  rw [get?_erase, if_pos ⟨rfl, rfl⟩]

/-- A line in which something was added is not empty. -/
theorem lines_get?_add_ne (v : View) (outer inner : Int) (amount : Float) :
    (v.add outer inner amount).lines.get? outer ≠ some ∅ := by
  rw [lines_get?_add, if_pos rfl]
  intro h
  have hempty := IdMap.isEmpty_iff.mpr (Option.some_inj.mp h)
  rw [IdMap.isEmpty_insert] at hempty
  cases hempty

/-- A line from which something was removed is not empty, even if it was before. -/
theorem lines_get?_erase_ne (v : View) (outer inner : Int) :
    (v.erase outer inner).lines.get? outer ≠ some ∅ := by
  rw [lines_get?_erase, if_pos rfl]
  intro h
  obtain ⟨-, hkept⟩ := Option.filter_eq_some_iff.mp h
  cases hkept

theorem Changed.lines_get?_ne {v v' : View} (h : v.Changed v') {id : Int}
    (hline : v.lines.get? id ≠ some ∅) : v'.lines.get? id ≠ some ∅ := by
  cases h with
  | add outer inner amount =>
      by_cases hid : id = outer
      · exact hid ▸ v.lines_get?_add_ne outer inner amount
      · rwa [lines_get?_add, if_neg hid]
  | erase outer inner =>
      by_cases hid : id = outer
      · exact hid ▸ v.lines_get?_erase_ne outer inner
      · rwa [lines_get?_erase, if_neg hid]

theorem erase_erase (v : View) (outer inner : Int) :
    (v.erase outer inner).erase outer inner = v.erase outer inner :=
  erase_of_get?_eq_none (v.lines_get?_erase_ne outer inner) (v.get?_erase_self outer inner)

end View

/-! ## One change -/

namespace Association

variable {m : Association} {row column r c : Int}

/-- The two views hold the same at a pair of ids: no weight, or the identical one. -/
def AgreesAt (m : Association) (row column : Int) : Prop :=
  m.rows.get? row column = m.columns.get? column row

/-- A matrix differs from an earlier one at one pair of ids only, and its views agree wherever
they did. -/
structure ChangedAt (m m' : Association) (row column : Int) : Prop where
  rows : m.rows.ChangedAt m'.rows row column
  columns : m.columns.ChangedAt m'.columns column row
  agreesAt : ∀ r c, m.AgreesAt r c → m'.AgreesAt r c

/-- There is nothing at a pair of ids in either view, nor is the row or the column there without
entries. -/
structure ClearedAt (m : Association) (row column : Int) : Prop where
  rows : m.rows.get? row column = none
  columns : m.columns.get? column row = none
  row : m.rows.lines.get? row ≠ some ∅
  column : m.columns.lines.get? column ≠ some ∅

theorem AgreesAt.add (h : m.AgreesAt r c) (row column : Int) (amount : Float) :
    (m.add row column amount).AgreesAt r c := by
  unfold AgreesAt Association.add at *
  by_cases htouched : r = row ∧ c = column
  · obtain ⟨rfl, rfl⟩ := htouched
    rw [View.get?_add_self, View.get?_add_self, h]
  · rw [View.get?_add, View.get?_add, if_neg htouched, if_neg fun h' => htouched h'.symm, h]

theorem AgreesAt.erase (h : m.AgreesAt r c) (row column : Int) :
    (m.erase row column).AgreesAt r c := by
  unfold AgreesAt Association.erase at *
  simp only [View.get?_erase, h, and_comm]

theorem changedAt_add (m : Association) (row column : Int) (amount : Float) :
    m.ChangedAt (m.add row column amount) row column where
  rows := m.rows.changedAt_add row column amount
  columns := m.columns.changedAt_add column row amount
  agreesAt _ _ h := h.add row column amount

theorem changedAt_erase (m : Association) (row column : Int) :
    m.ChangedAt (m.erase row column) row column where
  rows := m.rows.changedAt_erase row column
  columns := m.columns.changedAt_erase column row
  agreesAt _ _ h := h.erase row column

theorem clearedAt_erase (m : Association) (row column : Int) :
    (m.erase row column).ClearedAt row column where
  rows := m.rows.get?_erase_self row column
  columns := m.columns.get?_erase_self column row
  row := m.rows.lines_get?_erase_ne row column
  column := m.columns.lines_get?_erase_ne column row

theorem ClearedAt.agreesAt (h : m.ClearedAt row column) : m.AgreesAt row column :=
  h.rows.trans h.columns.symm

/-- **Changes are local, and a removal repairs.**  Nothing is assumed about the two views.  An
addition that succeeds adds to the entry at its pair of ids in either view and does nothing else,
and neither does a removal, which leaves the pair of ids cleared.  A second removal changes
nothing. -/
theorem change_is_local (m : Association) (row column : Int) :
    (∀ amount, (m.tryAdd (.ok row) (.ok column) amount).2 = .ok () →
      ∃ a, amount = .ok a ∧
        let m' := (m.tryAdd (.ok row) (.ok column) amount).1
        m.ChangedAt m' row column ∧
          m'.rows.get? row column =
            some (Number.narrow ((m.rows.get? row column).getD 0.0 + a)) ∧
          m'.columns.get? column row =
            some (Number.narrow ((m.columns.get? column row).getD 0.0 + a))) ∧
      m.ChangedAt (m.erase row column) row column ∧
      (m.erase row column).ClearedAt row column ∧
      (m.erase row column).erase row column = m.erase row column := by
  refine ⟨fun amount hok => ?_, m.changedAt_erase row column, m.clearedAt_erase row column, ?_⟩
  · obtain ⟨_, _, a, hrow, hcolumn, rfl⟩ := tryAdd_eq_ok hok
    exact ⟨a, rfl, m.changedAt_add row column a, m.rows.get?_add_self row column a,
      m.columns.get?_add_self column row a⟩
  · rw [erase, erase, View.erase_erase, View.erase_erase]

/-- Row 3 is empty, row 1 has an entry that its column does not have, and column 20 has one that
the row does not have.  Adding to the latter and removing it, the other damage stays. -/
theorem change_is_local_damaged :
    let m : Association := ⟨((∅ : View).put 1 10 0.5).clear 3, (∅ : View).put 20 1 2⟩
    let m' := (m.tryAdd (.ok 1) (.ok 20) (Datum.int 4).amount).1
    m.ChangedAt m' 1 20 ∧ m'.rows.get? 1 20 = some 4 ∧ m'.columns.get? 20 1 = some 6 ∧
      (m'.row 1).keys = [10, 20] ∧ m.ChangedAt (m.erase 1 20) 1 20 ∧
      (m.erase 1 20).ClearedAt 1 20 ∧ (m.erase 1 20).columns = ∅ ∧
      (m.erase 1 20).rows = m.rows := by
  intro m m'
  obtain ⟨hadd, herase, hcleared, -⟩ := change_is_local m 1 20
  obtain ⟨_, -, hchanged, -, -⟩ := hadd (Datum.int 4).amount rfl
  exact ⟨hchanged, by decide, by decide, rfl, herase, hcleared, rfl, rfl⟩

/-! ## A run of changes -/

theorem AgreesAt.run (h : m.AgreesAt r c) (steps : List Step) : (m.run steps).AgreesAt r c := by
  induction steps generalizing m with
  | nil => exact h
  | cons step steps ih =>
      cases step with
      | add row column amount => exact ih (h.add row column amount)
      | erase row column => exact ih (h.erase row column)

/-- Where something is removed in a run, the two views agree from then on. -/
theorem agreesAt_run (steps : List Step) (h : m.AgreesAt r c ∨ .erase r c ∈ steps) :
    (m.run steps).AgreesAt r c := by
  rcases h with hagrees | herased
  · exact hagrees.run steps
  · obtain ⟨before, after, rfl⟩ := List.append_of_mem herased
    rw [run_append, run_cons]
    exact ((m.run before).clearedAt_erase r c).agreesAt.run after

/-- A run makes no line empty in a view that each of its changes changes. -/
theorem lines_get?_run_ne {view : Association → View}
    (hchanged : ∀ m step, (view m).Changed (view (m.apply step))) {id : Int}
    (h : (view m).lines.get? id ≠ some ∅) (steps : List Step) :
    (view (m.run steps)).lines.get? id ≠ some ∅ := by
  induction steps generalizing m with
  | nil => exact h
  | cons step steps ih => exact ih ((hchanged m step).lines_get?_ne h)

/-- A view is tidy after a run with a change in each of its empty lines that leaves none there. -/
theorem tidy_run {view : Association → View}
    (hchanged : ∀ m step, (view m).Changed (view (m.apply step))) (steps : List Step)
    (h : ∀ id, (view m).lines.get? id = some ∅ →
      ∃ step ∈ steps, ∀ m : Association, (view (m.apply step)).lines.get? id ≠ some ∅) :
    (view (m.run steps)).Tidy := by
  refine View.tidy_iff.mpr fun id => ?_
  by_cases hline : (view m).lines.get? id = some ∅
  · obtain ⟨step, hstep, hfilled⟩ := h id hline
    obtain ⟨before, after, rfl⟩ := List.append_of_mem hstep
    rw [run_append, run_cons]
    exact lines_get?_run_ne hchanged (hfilled _) after
  · exact lines_get?_run_ne hchanged hline steps

/-- **Removals repair a matrix.**  No fault is found after a run in which there was a removal at
each pair of ids where the views disagreed, and one in each line that was empty. -/
theorem run_repairs (steps : List Step)
    (hcells : ∀ row column, m.AgreesAt row column ∨ .erase row column ∈ steps)
    (hrows : ∀ row, m.rows.lines.get? row = some ∅ → ∃ column, .erase row column ∈ steps)
    (hcolumns : ∀ column, m.columns.lines.get? column = some ∅ →
      ∃ row, .erase row column ∈ steps) :
    (m.run steps).fault? = none := by
  refine fault?_eq_none_iff.mpr ⟨tidy_run changed_rows_apply steps fun row hline => ?_,
    tidy_run changed_columns_apply steps fun column hline => ?_, fun row column => ?_⟩
  · obtain ⟨column, herased⟩ := hrows row hline
    exact ⟨_, herased, fun m => (m.clearedAt_erase row column).row⟩
  · obtain ⟨row, herased⟩ := hcolumns column hline
    exact ⟨_, herased, fun m => (m.clearedAt_erase row column).column⟩
  have hagrees : (m.run steps).AgreesAt row column := agreesAt_run steps (hcells row column)
  rw [← hagrees]
  cases (m.run steps).rows.get? row column with
  | none => exact .none
  | some weight => exact .some (sameWeight_iff.mp (sameWeight_self weight))

end Association

end LeastSquares

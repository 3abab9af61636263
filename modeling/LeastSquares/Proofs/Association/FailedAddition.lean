import LeastSquares.Number.Reading
import LeastSquares.Proofs.Association.Ghosts

/-!
# An addition that fails

An addition looks at its row, then at its column, then at its amount, and it makes the
row before it looks at the column.  So an addition that fails can have changed the
matrix already.  This module says, for one addition to a consistent matrix, when that
is the case and what can be seen of it.

Nothing happens if the row is no id (`fst_tryAdd_of_error`), and nothing if the row has
an entry, since making a row that is there is no change (`View.touch_of_get?_eq_some`).
Otherwise the row is left without entries, behind all the others (`LeavesRow`).  The
rule that every row has an entry is then broken.  The weights are those from before,
and the next change in the row does what it would have done without the failure,
because it writes the line of the row or drops it (`View.add_touch`, `View.erase_touch`).

The main result is `tryAdd_of_error`.
-/

namespace LeastSquares

/-! ## Making a line -/

namespace IdMap

variable {α : Type*} {m : IdMap α} {id : Int}

theorem insertEntry_insertEntry (id : Int) (x y : α) (l : List (Int × α)) :
    insertEntry id y (insertEntry id x l) = insertEntry id y l := by
  induction l with
  | nil => simp [insertEntry]
  | cons entry rest ih =>
      obtain ⟨k, v⟩ := entry
      by_cases hk : k = id
      · simp [insertEntry, hk]
      · simp [insertEntry, hk, ih]

/-- Of two values written to one id the second one stays, in the place of the first. -/
theorem insert_insert (m : IdMap α) (id : Int) (x y : α) :
    (m.insert id x).insert id y = m.insert id y :=
  ext (insertEntry_insertEntry id x y m.entries)

theorem insertEntry_of_notMem {l : List (Int × α)} (h : id ∉ l.map Prod.fst) (value : α) :
    insertEntry id value l = l ++ [(id, value)] := by
  induction l with
  | nil => rfl
  | cons entry rest ih =>
      rw [List.map_cons, List.mem_cons, not_or] at h
      rw [insertEntry, if_neg (Ne.symm h.1), ih h.2, List.cons_append]

theorem entries_insert_of_get?_eq_none (h : m.get? id = none) (value : α) :
    (m.insert id value).entries = m.entries ++ [(id, value)] :=
  insertEntry_of_notMem (get?_eq_none_iff.mp h) value

/-- A new id that is erased leaves nothing behind. -/
theorem erase_insert_of_get?_eq_none (h : m.get? id = none) (value : α) :
    (m.insert id value).erase id = m := by
  have hold : m.entries.filter (fun entry => decide (entry.1 ≠ id)) = m.entries :=
    congrArg entries (erase_of_get?_eq_none h)
  have hnew : (m.insert id value).entries.filter (fun entry => decide (entry.1 ≠ id)) =
      m.entries := by
    rw [entries_insert_of_get?_eq_none h, List.filter_append, hold]
    simp
  exact ext hnew

end IdMap

namespace View

variable {v : View} {outer : Int}

theorem touch_of_get?_eq_some {entries : IdMap Float} (h : v.lines.get? outer = some entries) :
    v.touch outer = v := by
  rw [touch, line_of_get? h, IdMap.insert_of_get?_eq_some h]

theorem entries_touch_of_get?_eq_none (h : v.lines.get? outer = none) :
    (v.touch outer).lines.entries = v.lines.entries ++ [(outer, ∅)] := by
  rw [touch, line_of_get?_eq_none h, IdMap.entries_insert_of_get?_eq_none h]

theorem line_touch (v : View) (outer id : Int) : (v.touch outer).line id = v.line id := by
  rw [line, touch, IdMap.get?_insert]
  by_cases hid : id = outer
  · rw [if_pos hid, hid, Option.getD_some]
  · rw [if_neg hid, line]

theorem get?_touch (v : View) (outer r c : Int) : (v.touch outer).get? r c = v.get? r c := by
  rw [← line_get?, ← line_get?, line_touch]

/-- Adding to a line makes it, whether or not it has been made before. -/
theorem add_touch (v : View) (outer inner : Int) (amount : Float) :
    (v.touch outer).add outer inner amount = v.add outer inner amount := by
  rw [add, add, line_touch, touch, IdMap.insert_insert]

/-- Erasing drops a line that has just been made. -/
theorem erase_touch (h : v.lines.get? outer = none) (inner : Int) :
    (v.touch outer).erase outer inner = v := by
  have hline : (v.touch outer).lines.get? outer = some ∅ := by
    rw [touch, line_of_get?_eq_none h, IdMap.get?_insert, if_pos rfl]
  have hempty : ((∅ : IdMap Float).erase inner).isEmpty = true := rfl
  rw [View.erase, hline]
  simp only [hempty, if_true]
  rw [touch, IdMap.erase_insert_of_get?_eq_none h]

end View

/-! ## One addition -/

namespace Association

/-- By the time an addition fails, its row has been made if it is one. -/
theorem fst_tryAdd_of_error {m : Association} {row column : Except Failure Int}
    {amount : Except Failure Float} {failure : Failure}
    (h : (m.tryAdd row column amount).2 = .error failure) :
    (m.tryAdd row column amount).1 = match row with
      | .error _ => m
      | .ok r => ⟨m.rows.touch r, m.columns⟩ := by
  cases row with
  | error _ => rfl
  | ok r =>
      cases column with
      | error _ => rfl
      | ok c =>
          cases amount with
          | error _ => rfl
          | ok a => simp [tryAdd, View.tryAdd] at h

/-- What a failing addition in a row without entries leaves behind: the row, as the last one and
without entries.  The views no longer agree.  The next change in the row makes up for it. -/
structure LeavesRow (before after : Association) (row : Int) : Prop where
  columns_eq : after.columns = before.columns
  entries_eq : after.rows.lines.entries = before.rows.lines.entries ++ [(row, ∅)]
  report_eq : after.fault?.map Fault.report = some (ghostReport row)
  get?_eq : ∀ r c, after.get? r c = before.get? r c
  add_eq : ∀ column amount, after.add row column amount = before.add row column amount
  erase_eq : ∀ column, after.erase row column = before

variable {m : Association}

theorem Consistent.lines_get?_of_isEmpty (h : m.Consistent) {row : Int}
    (hempty : (m.row row).isEmpty = true) : m.rows.lines.get? row = none := by
  cases hline : m.rows.lines.get? row with
  | none => rfl
  | some entries =>
      rw [Association.row, View.line_of_get? hline, h.rows.tidy row entries hline] at hempty
      exact absurd hempty Bool.false_ne_true

theorem touch_of_isEmpty_eq_false {row : Int} (hentry : (m.row row).isEmpty = false) :
    (⟨m.rows.touch row, m.columns⟩ : Association) = m := by
  cases hline : m.rows.lines.get? row with
  | none =>
      rw [Association.row, View.line_of_get?_eq_none hline] at hentry
      exact absurd hentry.symm Bool.false_ne_true
  | some entries => rw [View.touch_of_get?_eq_some hline]

/-- The first line without entries is the one that has been made. -/
theorem Consistent.fault?_touch (h : m.Consistent) {row : Int}
    (hempty : (m.row row).isEmpty = true) :
    (⟨m.rows.touch row, m.columns⟩ : Association).fault? = some (.emptyLine .row row) := by
  have hline := h.lines_get?_of_isEmpty hempty
  have hmirrored : ∀ r c w, (m.rows.touch row).get? r c = some w → m.columns.get? c r = some w :=
    fun r c w hw => by rw [← h.mirrored, ← hw, View.get?_touch]
  have hrows := View.fault?_of_mirrored hmirrored .row
  have hold : (m.rows.lines.keys.find? fun r => (m.rows.line r).isEmpty) = none := by
    rw [List.find?_eq_none]
    intro r hr
    obtain ⟨entries, hentries⟩ := IdMap.mem_keys_iff.mp hr
    rw [View.line_of_get? hentries, h.rows.tidy r entries hentries]
    exact Bool.false_ne_true
  have hkeys : (m.rows.touch row).lines.keys = m.rows.lines.keys ++ [row] := by
    rw [IdMap.keys, View.entries_touch_of_get?_eq_none hline, List.map_append]
    rfl
  rw [Association.row] at hempty
  rw [fault?, hrows, hkeys, List.find?_append]
  simp only [View.line_touch, hold, List.find?_singleton, hempty, if_true, Option.none_or,
    Option.map_some, Option.some_or]

theorem Consistent.leavesRow (h : m.Consistent) {row : Int}
    (hempty : (m.row row).isEmpty = true) :
    LeavesRow m ⟨m.rows.touch row, m.columns⟩ row where
  columns_eq := rfl
  entries_eq := View.entries_touch_of_get?_eq_none (h.lines_get?_of_isEmpty hempty)
  report_eq := by
    rw [h.fault?_touch hempty]
    rfl
  get?_eq := View.get?_touch m.rows row
  add_eq column amount := by
    rw [Association.add, Association.add, View.add_touch]
  erase_eq column := by
    have hnone : m.columns.get? column row = none := by
      rw [← h.mirrored]
      exact View.isEmpty_line_iff.mp hempty column
    rw [Association.erase, View.erase_touch (h.lines_get?_of_isEmpty hempty),
      h.columns.tidy.erase_of_get?_eq_none hnone]

/-- **An addition that fails may leave a row behind.**  After any run, a failing addition keeps
the matrix, and the agreement of its views, exactly if its row is no id or has an entry.
Otherwise it leaves that row without entries, which the next change in the row makes good. -/
theorem tryAdd_of_error (steps : List Step) {row column : Except Failure Int}
    {amount : Except Failure Float} {failure : Failure}
    (h : (((∅ : Association).run steps).tryAdd row column amount).2 = .error failure) :
    let before := (∅ : Association).run steps
    let after := (before.tryAdd row column amount).1
    (after = before ↔ ∀ r, row = .ok r → (before.row r).isEmpty = false) ∧
      (after.fault? = none ↔ after = before) ∧
      ∀ r, row = .ok r → (before.row r).isEmpty = true → LeavesRow before after r := by
  intro before after
  have hconsistent : before.Consistent := consistent_empty.run steps
  have hafter := fst_tryAdd_of_error h
  cases row with
  | error _ =>
      have hsame : after = before := hafter
      rw [hsame]
      exact ⟨by simp, by simp [hconsistent.fault?_eq_none], by simp⟩
  | ok r =>
      have htouched : after = ⟨before.rows.touch r, before.columns⟩ := hafter
      simp only [Except.ok.injEq, forall_eq']
      cases hempty : (before.row r).isEmpty with
      | false =>
          have hsame : after = before :=
            htouched.trans (touch_of_isEmpty_eq_false hempty)
          rw [hsame]
          exact ⟨by simp, by simp [hconsistent.fault?_eq_none], by simp⟩
      | true =>
          have hleaves : LeavesRow before after r := htouched ▸ hconsistent.leavesRow hempty
          have hfault : after.fault? ≠ none := by
            rw [htouched, hconsistent.fault?_touch hempty]
            exact Option.some_ne_none _
          have hchanged : after ≠ before := fun hsame =>
            hfault (hsame ▸ hconsistent.fault?_eq_none)
          exact ⟨by simp [hchanged], by simp [hfault, hchanged], fun _ => hleaves⟩

/-- Adding a text fails.  In row 2, which has an entry, this does no harm; row 1 is left without
entries, and adding a number there makes good for it. -/
theorem tryAdd_of_error_text :
    let before := (∅ : Association).run [.add 2 10 0.75]
    let amount := (Datum.text "x").amount
    let harmless := before.tryAdd (Datum.int 2).id (Datum.int 11).id amount
    let harmful := before.tryAdd (Datum.int 1).id (Datum.int 10).id amount
    harmless.2 = .error .notNumeric ∧ harmless.1 = before ∧
      harmful.2 = .error .notNumeric ∧ LeavesRow before harmful.1 1 :=
  ⟨rfl, (tryAdd_of_error [.add 2 10 0.75] rfl).1.mpr (by rintro r ⟨⟩; rfl), rfl,
    (tryAdd_of_error [.add 2 10 0.75] rfl).2.2 1 rfl rfl⟩

/-- The first addition to the empty matrix fails, and the matrix is no longer empty: its row is
present with no entries, and the check says so. -/
theorem tryAdd_text_ne_empty :
    let attempted := (∅ : Association).tryAdd (Datum.int 1).id (Datum.int 10).id
      (Datum.text "x").amount
    attempted.2 = .error .notNumeric ∧ attempted.1 ≠ ∅ ∧
      attempted.1.rows.lines.keys = [1] ∧ attempted.1.row 1 = ∅ ∧
      attempted.1.fault?.map Fault.report = some (ghostReport 1) := by
  refine ⟨rfl, fun h => ?_, rfl, rfl, rfl⟩
  have hkeys := congrArg (fun m : Association => m.rows.lines.keys) h
  exact absurd hkeys (by decide)

end Association

end LeastSquares

import LeastSquares.Proofs.Association.Consistency
import Mathlib.Data.List.DropRight
import Mathlib.Data.List.Find

/-!
# What failing additions leave behind

An addition may fail because its column is no id or because its amount is no number.
By then the row has been made, so a failing addition can leave a row without entries:
a *ghost*.  A ghost may be filled later, and it goes with the next removal in its row.

A run with failing additions is compared with its clean run, the same one with the
failing additions left out.  `Shadows` is the invariant that the two carry along:
their views by column are equal, and line by line their views by row differ only in
lines without entries, which stand where an addition failed after the last removal in
that row.  It is weaker than consistency, and every attempt keeps it, failing or not.

The main result is `runAttempts_confined`.  It says what the damage is (`Haunted`), and
that one removal in a ghost undoes it.
-/

namespace LeastSquares.Association

/-! ## Attempts -/

/-- A change that is tried.  The column and the amount of an addition may be unusable. -/
inductive Attempt where
  /-- An amount is to be added. -/
  | add (row : Int) (column : Except Failure Int) (amount : Except Failure Float)
  /-- The entry is to be removed. -/
  | erase (row column : Int)

namespace Attempt

/-- Why an attempt fails, if it does: its column is looked at before its amount. -/
def failure? : Attempt → Option Failure
  | add _ (.error failure) _ => some failure
  | add _ (.ok _) (.error failure) => some failure
  | add _ (.ok _) (.ok _) => none
  | erase _ _ => none

/-- Whether an attempt does not fail. -/
def succeeds (a : Attempt) : Bool := a.failure?.isNone

/-- Whether an attempt is a failing addition in a row. -/
def failsIn (row : Int) : Attempt → Bool
  | add r column amount => r = row && !(add r column amount).succeeds
  | erase _ _ => false

/-- Whether an attempt is a removal that names a row. -/
def erasesIn (row : Int) : Attempt → Bool
  | add _ _ _ => false
  | erase r _ => r = row

end Attempt

/-- A matrix after an attempt, and how the attempt ended. -/
def attempt (m : Association) : Attempt → Association × Except Failure Unit
  | .add row column amount => m.tryAdd (.ok row) column amount
  | .erase row column => m.tryErase (.ok row) (.ok column)

/-- A matrix after a sequence of attempts, which goes on after one that fails. -/
def runAttempts (m : Association) (attempts : List Attempt) : Association :=
  attempts.foldl (fun m a => (m.attempt a).1) m

/-- Whether an addition in a row has failed since the last removal that named the row. -/
def failedSince (attempts : List Attempt) (row : Int) : Bool :=
  (attempts.rtakeWhile fun a => !a.erasesIn row).any (Attempt.failsIn row)

/-- Whether a row is a ghost after a sequence of attempts: it has no entry, and an addition in it
has failed since the last removal that named it. -/
def isGhost (attempts : List Attempt) (row : Int) : Bool :=
  (((∅ : Association).runAttempts attempts).row row).isEmpty && failedSince attempts row

/-! ## One more attempt -/

theorem runAttempts_concat (m : Association) (attempts : List Attempt) (a : Attempt) :
    m.runAttempts (attempts ++ [a]) = ((m.runAttempts attempts).attempt a).1 := by
  rw [runAttempts, List.foldl_append]
  rfl

theorem failedSince_concat (attempts : List Attempt) (a : Attempt) (row : Int) :
    failedSince (attempts ++ [a]) row =
      (!a.erasesIn row && (failedSince attempts row || a.failsIn row)) := by
  rw [failedSince, List.rtakeWhile_concat]
  cases a.erasesIn row with
  | true => rfl
  | false =>
      rw [Bool.not_false, if_pos rfl, List.any_append, ← failedSince]
      simp

/-- How an attempt ends does not depend on the matrix. -/
theorem snd_attempt (m : Association) (a : Attempt) :
    (m.attempt a).2 = match a.failure? with
      | some failure => .error failure
      | none => .ok () := by
  cases a with
  | add row column amount => cases column <;> cases amount <;> rfl
  | erase row column => rfl

theorem snd_attempt_eq_ok_iff (m : Association) (a : Attempt) :
    (m.attempt a).2 = .ok () ↔ a.succeeds = true := by
  rw [snd_attempt, Attempt.succeeds]
  cases a.failure? <;> simp

/-- A failing attempt does not go further than to make its row. -/
theorem fst_attempt_of_fails {a : Attempt} (h : a.succeeds = false) (m : Association) :
    ∃ row, (m.attempt a).1 = ⟨m.rows.touch row, m.columns⟩ ∧
      ∀ r, a.failsIn r = decide (row = r) ∧ a.erasesIn r = false := by
  cases a with
  | add row column amount =>
      refine ⟨row, ?_, fun r => ⟨by simp [Attempt.failsIn, h], rfl⟩⟩
      cases column with
      | error failure => rfl
      | ok c =>
          cases amount with
          | error failure => rfl
          | ok x => simp [Attempt.succeeds, Attempt.failure?] at h
  | erase row column => simp [Attempt.succeeds, Attempt.failure?] at h

/-- An attempt that does not fail is a change. -/
theorem fst_attempt_of_succeeds {a : Attempt} (h : a.succeeds = true) :
    (∃ row column amount, (∀ m : Association, (m.attempt a).1 = m.add row column amount) ∧
      ∀ r, a.failsIn r = false ∧ a.erasesIn r = false) ∨
    ∃ row column, (∀ m : Association, (m.attempt a).1 = m.erase row column) ∧
      ∀ r, a.failsIn r = false ∧ a.erasesIn r = decide (row = r) := by
  cases a with
  | add row column amount =>
      cases column with
      | error failure => simp [Attempt.succeeds, Attempt.failure?] at h
      | ok c =>
          cases amount with
          | error failure => simp [Attempt.succeeds, Attempt.failure?] at h
          | ok x =>
              exact .inl ⟨row, c, x, fun _ => rfl, fun r => ⟨by simp [Attempt.failsIn, h], rfl⟩⟩
  | erase row column => exact .inr ⟨row, column, fun _ => rfl, fun _ => ⟨rfl, rfl⟩⟩

/-- A run without failing attempts keeps a matrix consistent. -/
theorem consistent_runAttempts {attempts : List Attempt} (h : ∀ a ∈ attempts, a.succeeds = true) :
    ((∅ : Association).runAttempts attempts).Consistent := by
  induction attempts using List.reverseRecOn with
  | nil => exact consistent_empty
  | append_singleton attempts a ih =>
      have hbefore := ih fun b hb => h b (List.mem_append_left _ hb)
      rw [runAttempts_concat]
      rcases fst_attempt_of_succeeds (h a (by simp)) with
        ⟨row, column, amount, hadd, _⟩ | ⟨row, column, herase, _⟩
      · rw [hadd]
        exact hbefore.add row column amount
      · rw [herase]
        exact hbefore.erase row column

/-! ## The invariant -/

/-- A matrix is that of a clean run but for lines without entries, which stand where additions
have failed. -/
structure Shadows (dirty clean : Association) (failed : Int → Bool) : Prop where
  columns_eq : dirty.columns = clean.columns
  lines : ∀ row, dirty.rows.lines.get? row =
    (clean.rows.lines.get? row).or (if failed row then some ∅ else none)

namespace Shadows

variable {dirty clean : Association} {failed failed' : Int → Bool}

theorem line_eq (h : Shadows dirty clean failed) (row : Int) :
    dirty.rows.line row = clean.rows.line row := by
  rw [View.line, View.line, h.lines]
  cases clean.rows.lines.get? row with
  | none => cases failed row <;> rfl
  | some entries => rfl

theorem get?_eq (h : Shadows dirty clean failed) (row column : Int) :
    dirty.get? row column = clean.get? row column := by
  rw [Association.get?, Association.get?, ← View.line_get?, ← View.line_get?, h.line_eq]

theorem add (h : Shadows dirty clean failed) (row column : Int) (amount : Float)
    (hfailed : ∀ r, failed' r = failed r) :
    Shadows (dirty.add row column amount) (clean.add row column amount) failed' where
  columns_eq := by rw [Association.add, Association.add, h.columns_eq]
  lines r := by
    simp only [Association.add, View.lines_get?_add, h.line_eq, hfailed]
    split
    · rfl
    · exact h.lines r

theorem touch (h : Shadows dirty clean failed) (row : Int)
    (hfailed : ∀ r, failed' r = (failed r || decide (row = r))) :
    Shadows ⟨dirty.rows.touch row, dirty.columns⟩ clean failed' where
  columns_eq := h.columns_eq
  lines r := by
    simp only [View.touch, IdMap.get?_insert, hfailed]
    by_cases hr : r = row
    · rw [if_pos hr, hr, decide_eq_true rfl, Bool.or_true, if_pos rfl, h.line_eq, View.line]
      cases clean.rows.lines.get? row <;> rfl
    · rw [if_neg hr, decide_eq_false (Ne.symm hr), Bool.or_false]
      exact h.lines r

theorem erase (h : Shadows dirty clean failed) (row column : Int)
    (hfailed : ∀ r, failed' r = (!decide (row = r) && failed r)) :
    Shadows (dirty.erase row column) (clean.erase row column) failed' where
  columns_eq := by rw [Association.erase, Association.erase, h.columns_eq]
  lines r := by
    simp only [Association.erase, View.lines_get?_erase, hfailed]
    by_cases hr : r = row
    · -- A line that only the dirty run has is empty, so it is dropped.
      rw [if_pos hr, if_pos hr, decide_eq_true hr.symm, h.lines]
      cases clean.rows.lines.get? row with
      | none => cases failed row <;> rfl
      | some entries => simp
    · rw [if_neg hr, if_neg hr, decide_eq_false (Ne.symm hr), Bool.not_false, Bool.true_and]
      exact h.lines r

end Shadows

/-- A run shadows its clean run. -/
theorem shadows_runAttempts (attempts : List Attempt) :
    Shadows ((∅ : Association).runAttempts attempts)
      ((∅ : Association).runAttempts (attempts.filter Attempt.succeeds))
      (failedSince attempts) := by
  induction attempts using List.reverseRecOn with
  | nil => exact ⟨rfl, fun _ => rfl⟩
  | append_singleton attempts a ih =>
      rw [List.filter_append, runAttempts_concat]
      cases hsucceeds : a.succeeds with
      | false =>
          obtain ⟨row, hattempt, hkind⟩ := fst_attempt_of_fails hsucceeds _
          rw [hattempt, List.filter_singleton, hsucceeds, Bool.cond_false, List.append_nil]
          refine ih.touch row fun r => ?_
          rw [failedSince_concat, (hkind r).1, (hkind r).2, Bool.not_false, Bool.true_and]
      | true =>
          rw [List.filter_singleton, hsucceeds, Bool.cond_true, runAttempts_concat]
          rcases fst_attempt_of_succeeds hsucceeds with
            ⟨row, column, amount, hadd, hkind⟩ | ⟨row, column, herase, hkind⟩
          · rw [hadd, hadd]
            refine ih.add row column amount fun r => ?_
            rw [failedSince_concat, (hkind r).1, (hkind r).2, Bool.not_false, Bool.true_and,
              Bool.or_false]
          · rw [herase, herase]
            refine ih.erase row column fun r => ?_
            rw [failedSince_concat, (hkind r).1, (hkind r).2, Bool.or_false]

/-! ## The damage -/

/-- The report about a row without entries. -/
def ghostReport (row : Int) : Report :=
  ⟨.invariant, "row " ++ Decimal.ofInt row ++ " is present with no entries",
    some .invariantViolation, none⟩

/-- A matrix is that of a clean run but for its ghosts, which are lines without entries in rows
that the clean run does not have.  Where it does have a line the two are equal, so nothing that
is read entry by entry differs, and the first ghost in order of insertion is the fault that is
found. -/
structure Haunted (dirty clean : Association) (ghost : Int → Bool) : Prop where
  columns_eq : dirty.columns = clean.columns
  lines : ∀ row, dirty.rows.lines.get? row =
    if ghost row then some ∅ else clean.rows.lines.get? row
  clean_line : ∀ row, ghost row = true → clean.rows.lines.get? row = none
  get?_eq : ∀ row column, dirty.get? row column = clean.get? row column
  contains_eq : ∀ row column, dirty.contains row column = clean.contains row column
  size_eq : dirty.size = clean.size
  columnIds_eq : dirty.columnIds = clean.columnIds
  toList_perm : dirty.toList.Perm clean.toList
  report_eq : dirty.fault?.map Fault.report = (dirty.rows.lines.keys.find? ghost).map ghostReport

variable {dirty clean : Association} {failed : Int → Bool}

theorem toList_perm_of_get?_eq (h : ∀ row column, dirty.get? row column = clean.get? row column) :
    dirty.toList.Perm clean.toList := by
  refine (List.perm_ext_iff_of_nodup dirty.rows.nodup_map_toList.of_map
    clean.rows.nodup_map_toList.of_map).mpr ?_
  rintro ⟨row, column, weight⟩
  exact View.mem_toList.trans ((iff_of_eq (by rw [← get?, h, get?])).trans View.mem_toList.symm)

/-- The fault that is found in a matrix that shadows a consistent one. -/
theorem Shadows.fault?_eq (h : Shadows dirty clean failed) (hclean : clean.Consistent) :
    dirty.fault? = (dirty.rows.lines.keys.find? fun row => (dirty.row row).isEmpty).map
      (Fault.emptyLine .row) := by
  have hmirrored : ∀ row column, dirty.rows.get? row column = dirty.columns.get? column row := by
    intro row column
    rw [h.columns_eq, ← hclean.mirrored]
    exact h.get?_eq row column
  have hrows := View.fault?_of_mirrored
    (fun row column _ hw => (hmirrored row column).symm.trans hw) Side.row
  have hcolumns : dirty.columns.fault? dirty.rows .column = none :=
    View.fault?_eq_none_of_tidy (h.columns_eq ▸ hclean.columns.tidy)
      (fun column row _ hw => (hmirrored row column).trans hw) .column
  rw [fault?, hrows, hcolumns, Option.or_none]
  rfl

/-- In a matrix that shadows a consistent one, a line without entries is one where an addition
has failed. -/
theorem Shadows.failed_of_isEmpty (h : Shadows dirty clean failed) (hclean : clean.Consistent)
    {row : Int} (hkey : row ∈ dirty.rows.lines.keys) (hempty : (dirty.row row).isEmpty = true) :
    failed row = true := by
  obtain ⟨entries, hentries⟩ := IdMap.mem_keys_iff.mp hkey
  rw [Association.row, View.line_of_get? hentries] at hempty
  rw [h.lines] at hentries
  cases hline : clean.rows.lines.get? row with
  | none =>
      rw [hline, Option.none_or, Option.ite_none_right_eq_some] at hentries
      exact hentries.1
  | some line =>
      rw [hline, Option.some_or] at hentries
      obtain rfl := Option.some_inj.mp hentries
      rw [hclean.rows.tidy row line hline] at hempty
      exact absurd hempty Bool.false_ne_true

/-- The rows without entries in which an addition has failed are all that sets a matrix apart
from the consistent one that it shadows. -/
theorem Shadows.haunted (h : Shadows dirty clean failed) (hclean : clean.Consistent) :
    Haunted dirty clean fun row => (dirty.row row).isEmpty && failed row where
  columns_eq := h.columns_eq
  lines r := by
    rw [h.lines, row, h.line_eq]
    cases hline : clean.rows.lines.get? r with
    | none =>
        rw [View.line_of_get?_eq_none hline]
        cases failed r <;> rfl
    | some entries =>
        rw [View.line_of_get? hline, hclean.rows.tidy r entries hline]
        rfl
  clean_line r hghost := by
    rw [Bool.and_eq_true, row, h.line_eq] at hghost
    cases hline : clean.rows.lines.get? r with
    | none => rfl
    | some entries =>
        rw [View.line_of_get? hline, hclean.rows.tidy r entries hline] at hghost
        exact absurd hghost.1 Bool.false_ne_true
  get?_eq := h.get?_eq
  contains_eq r c := by rw [contains, contains, h.get?_eq]
  size_eq := by
    rw [size, size, ← View.length_toList, ← View.length_toList]
    exact (toList_perm_of_get?_eq h.get?_eq).length_eq
  columnIds_eq := by rw [columnIds, columnIds, h.columns_eq]
  toList_perm := toList_perm_of_get?_eq h.get?_eq
  report_eq := by
    have hfind : (dirty.rows.lines.keys.find? fun row => (dirty.row row).isEmpty) =
        dirty.rows.lines.keys.find? fun row => (dirty.row row).isEmpty && failed row := by
      refine List.find?_congr fun r hr => ?_
      cases hempty : (dirty.row r).isEmpty with
      | false => rfl
      | true => rw [h.failed_of_isEmpty hclean hr hempty, Bool.and_true]
    rw [h.fault?_eq hclean, hfind, Option.map_map]
    rfl

/-- A fault is found exactly if there is a ghost. -/
theorem Haunted.isSome_fault?_iff {ghost : Int → Bool} (h : Haunted dirty clean ghost) :
    dirty.fault?.isSome = true ↔ ∃ row, ghost row = true := by
  rw [← Option.isSome_map (f := Fault.report), h.report_eq, Option.isSome_map, List.find?_isSome]
  constructor
  · rintro ⟨row, _, hghost⟩
    exact ⟨row, hghost⟩
  · rintro ⟨row, hghost⟩
    have hline : dirty.rows.lines.get? row = some ∅ := by rw [h.lines, if_pos hghost]
    exact ⟨row, IdMap.mem_keys_iff.mpr ⟨∅, hline⟩, hghost⟩

/-- A removal in a ghost takes the line away and does nothing else. -/
theorem Haunted.erase_ghost {ghost : Int → Bool} (h : Haunted dirty clean ghost)
    (hclean : clean.Consistent) {row : Int} (hghost : ghost row = true) (column : Int) :
    dirty.erase row column = ⟨⟨dirty.rows.lines.erase row⟩, dirty.columns⟩ := by
  have hline : dirty.rows.lines.get? row = some ∅ := by rw [h.lines, if_pos hghost]
  have hrows : dirty.rows.erase row column = ⟨dirty.rows.lines.erase row⟩ := by
    rw [View.erase, hline]
    rfl
  have hcolumns : dirty.columns.erase column row = dirty.columns := by
    rw [h.columns_eq]
    refine hclean.columns.tidy.erase_of_get?_eq_none ?_
    rw [← hclean.mirrored, View.get?, h.clean_line row hghost]
    rfl
  rw [erase, hrows, hcolumns]

/-- After a removal in a row, the row is no ghost, and no other row changes. -/
theorem isGhost_concat_erase (attempts : List Attempt) (row column r : Int) :
    isGhost (attempts ++ [.erase row column]) r = (isGhost attempts r && !decide (row = r)) := by
  have hfailed : failedSince (attempts ++ [.erase row column]) r =
      (!decide (row = r) && failedSince attempts r) := by
    rw [failedSince_concat]
    exact congrArg _ (Bool.or_false _)
  rw [isGhost, isGhost, hfailed]
  by_cases hr : row = r
  · rw [decide_eq_true hr, Bool.not_true, Bool.false_and, Bool.and_false, Bool.and_false]
  · have hrow : ((∅ : Association).runAttempts (attempts ++ [.erase row column])).row r =
        ((∅ : Association).runAttempts attempts).row r := by
      rw [runAttempts_concat]
      exact (View.line_erase _ _ _ _).trans (if_neg (Ne.symm hr))
    rw [hrow, decide_eq_false hr, Bool.not_false, Bool.true_and, Bool.and_true]

/-- A run without its failing attempts keeps the matrix consistent. -/
theorem consistent_clean (attempts : List Attempt) :
    ((∅ : Association).runAttempts (attempts.filter Attempt.succeeds)).Consistent :=
  consistent_runAttempts fun _ ha => (List.mem_filter.mp ha).2

theorem haunted_runAttempts (attempts : List Attempt) :
    Haunted ((∅ : Association).runAttempts attempts)
      ((∅ : Association).runAttempts (attempts.filter Attempt.succeeds)) (isGhost attempts) :=
  (shadows_runAttempts attempts).haunted (consistent_clean attempts)

/-- **Failing additions do confined damage.**  However a run mixes failing additions, other
additions and removals, its matrix is that of the clean run but for the ghosts.  One removal in
a ghost, whatever its column, takes the ghost away and nothing else. -/
theorem runAttempts_confined (attempts : List Attempt) :
    let dirty := (∅ : Association).runAttempts attempts
    let clean := (∅ : Association).runAttempts (attempts.filter Attempt.succeeds)
    (∀ m a, (attempt m a).2 = .ok () ↔ a.succeeds = true) ∧
      Haunted dirty clean (isGhost attempts) ∧
      (dirty.fault?.isSome = true ↔ ∃ row, isGhost attempts row = true) ∧
      ∀ row column, isGhost attempts row = true →
        dirty.erase row column = ⟨⟨dirty.rows.lines.erase row⟩, dirty.columns⟩ ∧
          Haunted (dirty.erase row column) clean
            fun r => isGhost attempts r && !decide (row = r) := by
  intro dirty clean
  have hclean : clean.Consistent := consistent_clean attempts
  have hhaunted : Haunted dirty clean (isGhost attempts) := haunted_runAttempts attempts
  refine ⟨snd_attempt_eq_ok_iff, hhaunted, hhaunted.isSome_fault?_iff,
    fun row column hghost => ⟨?_, ?_⟩⟩
  · exact hhaunted.erase_ghost hclean hghost column
  · -- The clean run does not have the row, so that it does not notice the removal.
    have hsame : clean.erase row column = clean :=
      hclean.erase_of_get?_eq_none (by rw [get?, View.get?, hhaunted.clean_line row hghost]; rfl)
    have hafter := haunted_runAttempts (attempts ++ [.erase row column])
    have hghosts : isGhost (attempts ++ [.erase row column]) =
        fun r => isGhost attempts r && !decide (row = r) :=
      funext fun r => isGhost_concat_erase attempts row column r
    have hrun : (∅ : Association).runAttempts
        ((attempts ++ [Attempt.erase row column]).filter Attempt.succeeds) = clean := by
      rw [List.filter_append, ← hsame]
      exact runAttempts_concat _ _ _
    rw [hghosts, hrun, runAttempts_concat] at hafter
    exact hafter

/-- Two rows become ghosts, the first one by a column that is no id.  It is filled later, and the
second one is what the check finds, until a removal takes it away. -/
theorem runAttempts_confined_two_ghosts :
    let attempts := [Attempt.add 1 (.error .compositeId) (.ok 0.5),
      .add 2 (.ok 10) (.error .notNumeric), .add 3 (.ok 10) (.ok 1.5), .add 1 (.ok 10) (.ok 2.5),
      .erase 3 10]
    let dirty := (∅ : Association).runAttempts attempts
    isGhost attempts 2 = true ∧ dirty.fault?.map Fault.report = some (ghostReport 2) ∧
      (dirty.erase 2 7).rows.lines.keys = [1] := by
  intro attempts dirty
  have hghost : isGhost attempts 2 = true := by decide
  obtain ⟨_, hhaunted, _, hrepair⟩ := runAttempts_confined attempts
  refine ⟨hghost, ?_, ?_⟩
  · rw [hhaunted.report_eq]
    rfl
  · rw [(hrepair 2 7 hghost).1]
    decide

end LeastSquares.Association

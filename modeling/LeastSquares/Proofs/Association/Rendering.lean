import LeastSquares.Association.Table
import LeastSquares.Dense.Nesting
import LeastSquares.Proofs.Association.FlatMap
import LeastSquares.Proofs.Decimal.Words

/-!
# What a table shows

A table is cut into lines at its line ends and a line into cells at its tabs.  `LaysOut`
says what is found there: which text stands in which cell, and how many lines, cells and
characters there are.

The cut is the inverse of the join because no separator is inside a part.  A cell holds
the text of a number, which is a word, or part of one, and spaces; so it has neither a
tab nor a line end (`isCell_cell`), and the cell of a weight has something other than
spaces in it (`weightCell_not_blank`).

The main result is `table_run`: the table of a matrix after any sequence of changes lays
out the flat map of its history under the ids of its live rows and columns, in ascending
order, and there is no table exactly if one of these ids is beyond 64 bits.
-/

namespace LeastSquares

/-! ## Joined lists -/

section Joined

variable {α : Type*} {sep c : α} {parts : List (List α)}

theorem mem_intercalate (h : c ∈ [sep].intercalate parts) :
    c = sep ∨ ∃ part ∈ parts, c ∈ part := by
  induction parts with
  | nil => simp at h
  | cons part rest ih =>
      cases rest with
      | nil => exact Or.inr ⟨part, List.mem_cons_self, by simpa using h⟩
      | cons next rest =>
          rw [List.intercalate_cons_cons, List.mem_append, List.mem_append, List.mem_singleton] at h
          rcases h with (h | h) | h
          · exact Or.inr ⟨part, List.mem_cons_self, h⟩
          · exact Or.inl h
          · rcases ih h with h | ⟨p, hp, hc⟩
            · exact Or.inl h
            · exact Or.inr ⟨p, List.mem_cons_of_mem _ hp, hc⟩

/-- A joined list has all members of its parts and one separator between any two parts. -/
theorem length_intercalate (sep : α) (h : parts ≠ []) :
    ([sep].intercalate parts).length + 1 = parts.flatten.length + parts.length := by
  induction parts with
  | nil => exact absurd rfl h
  | cons part rest ih =>
      cases rest with
      | nil => simp
      | cons next rest =>
          have hrest := ih (List.cons_ne_nil _ _)
          rw [List.intercalate_cons_cons, List.length_append, List.length_append,
            List.length_singleton, List.flatten_cons, List.length_append, List.length_cons]
          omega

end Joined

/-! ## Ids in order -/

/-- A list has the ids of a set, each of them once, in ascending order. -/
structure Ascends (list : List Int) (ids : Finset Int) : Prop where
  sorted : list.SortedLT
  mem_iff : ∀ id, id ∈ list ↔ id ∈ ids
  length : list.length = ids.card

theorem ListsIds.exists_ascends {answer : Except Failure (List Int)} {ids : Finset Int}
    (h : ListsIds answer ids) (hfits : ∀ id ∈ ids, Number.fitsInt64 id = true) :
    ∃ list, answer = .ok list ∧ Ascends list ids := by
  obtain ⟨list, hanswer, hsorted, hmem⟩ := h.of_fits hfits
  refine ⟨list, hanswer, hsorted, hmem, ?_⟩
  rw [← List.toFinset_card_of_nodup hsorted.nodup]
  exact congrArg Finset.card (Finset.ext fun id => by rw [List.mem_toFinset, hmem])

namespace Association

/-! ## What is found in a table -/

/-- A cell with a text in it: the first twelve characters, aligned to the right. -/
structure Shows (cell text : List Char) : Prop where
  length : cell.length = 12
  aligned : ∃ pad, cell = List.replicate pad ' ' ++ text.take 12

/-- The cell of a pair of ids.  It is blank exactly if the pair has no weight.  The text of a
weight has a space in front when the weight is not negative. -/
structure ShowsWeight (cell : List Char) (weight? : Option Float) : Prop where
  blank_iff : (∀ c ∈ cell, c = ' ') ↔ weight? = none
  shows : ∀ weight, weight? = some weight →
    Shows cell (if 0.0 ≤ weight then ' ' :: Decimal.Text32.write weight
      else Decimal.Text32.write weight)

/-- A text that lays out weights under ids: a header with the ids of the columns after a blank
cell, an empty line, a line for each row with the id of the row and its weights, and two line
ends. -/
structure LaysOut (text header : List Char) (body : List (List Char))
    (weight? : Int → Int → Option Float) (rowIds columnIds : List Int) : Prop where
  lines : text.splitOn '\n' = header :: [] :: body ++ [[], []]
  length_lines : (text.splitOn '\n').length = rowIds.length + 4
  cells : ∀ line ∈ header :: body, (line.splitOn '\t').length = columnIds.length + 1 ∧
    ∀ cell ∈ line.splitOn '\t', cell.length = 12
  header_cells : ∃ ids, header.splitOn '\t' = List.replicate 12 ' ' :: ids ∧
    List.Forall₂ (fun cell id => Shows cell id.repr.toList) ids columnIds
  row_cells : List.Forall₂ (fun line rowId => ∃ id weights, line.splitOn '\t' = id :: weights ∧
    Shows id rowId.repr.toList ∧
    List.Forall₂ (fun cell columnId => ShowsWeight cell (weight? rowId columnId)) weights
      columnIds) body rowIds
  length : text.length = (rowIds.length + 1) * (13 * columnIds.length + 12) + rowIds.length + 3

/-- A text is the table of a flat map: the rows and columns are those of its live pairs. -/
def TableOf (text : List Char) (weight? : Int → Int → Option Float) (live : Finset (Int × Int)) :
    Prop :=
  ∃ header body rowIds columnIds, Ascends rowIds (live.image Prod.fst) ∧
    Ascends columnIds (live.image Prod.snd) ∧ LaysOut text header body weight? rowIds columnIds

/-! ## Cells -/

/-- What may stand between separators: twelve characters, and no separator among them. -/
structure IsCell (cell : List Char) : Prop where
  length : cell.length = 12
  tab : '\t' ∉ cell
  line_end : '\n' ∉ cell

/-- A text of words and spaces is cut to a cell. -/
theorem isCell_cell {text : List Char} (h : ∀ c ∈ text, c = ' ' ∨ Text.isBlank c = false) :
    IsCell (cell text) := by
  have hcell : ∀ c ∈ cell text, c = ' ' ∨ Text.isBlank c = false := by
    intro c hc
    rw [cell, List.mem_append] at hc
    rcases hc with hc | hc
    · exact Or.inl (List.eq_of_mem_replicate hc)
    · exact h c (List.mem_of_mem_take hc)
  exact ⟨length_cell text, fun hc => absurd (hcell _ hc) (by decide),
    fun hc => absurd (hcell _ hc) (by decide)⟩

theorem shows_cell (text : List Char) : Shows (cell text) text :=
  ⟨length_cell text, _, rfl⟩

theorem isCell_blankCell : IsCell blankCell := isCell_cell (by simp)

theorem isCell_idCell (id : Int) : IsCell (idCell id) :=
  isCell_cell fun c hc => Or.inr ((Decimal.isWord_ofInt id).not_blank c hc)

theorem shows_idCell (id : Int) : Shows (idCell id) id.repr.toList := by
  rw [← Decimal.ofInt_eq_repr]
  exact shows_cell _

/-- What is cut to the cell of a weight is its text, perhaps after a space. -/
theorem weightCell_eq (weight : Float) :
    weightCell weight = cell (if 0.0 ≤ weight then ' ' :: Decimal.Text32.write weight
      else Decimal.Text32.write weight) := rfl

theorem isCell_weightCell (weight : Float) : IsCell (weightCell weight) := by
  have hword := (Decimal.isWord_write Decimal.Text32 weight).not_blank
  rw [weightCell_eq]
  refine isCell_cell fun c hc => ?_
  split at hc
  · rcases List.mem_cons.mp hc with hc | hc
    · exact Or.inl hc
    · exact Or.inr (hword c hc)
  · exact Or.inr (hword c hc)

/-- The first character of a weight is among the twelve that are shown, also after a space. -/
theorem weightCell_not_blank (weight : Float) : ∃ c ∈ weightCell weight, c ≠ ' ' := by
  obtain ⟨hne, hword⟩ := Decimal.isWord_write Decimal.Text32 weight
  obtain ⟨c, rest, htext⟩ := List.exists_cons_of_ne_nil hne
  have hc : c ≠ ' ' := by
    rintro rfl
    exact absurd (hword ' ' (htext ▸ List.mem_cons_self)) (by decide)
  refine ⟨c, ?_, hc⟩
  rw [weightCell_eq, htext, cell]
  refine List.mem_append_right _ ?_
  split <;> simp [cellWidth]

theorem isCell_elim (weight? : Option Float) : IsCell (weight?.elim blankCell weightCell) := by
  cases weight? with
  | none => exact isCell_blankCell
  | some weight => exact isCell_weightCell weight

theorem showsWeight_elim (weight? : Option Float) :
    ShowsWeight (weight?.elim blankCell weightCell) weight? := by
  cases weight? with
  | none =>
      have hblank : ∀ c ∈ blankCell, c = ' ' := fun c hc =>
        List.eq_of_mem_replicate (show c ∈ List.replicate 12 ' ' from hc)
      exact ⟨iff_of_true hblank rfl, by simp⟩
  | some weight =>
      obtain ⟨c, hmem, hc⟩ := weightCell_not_blank weight
      refine ⟨iff_of_false (fun hall => hc (hall c hmem)) (by simp), ?_⟩
      rintro _ ⟨⟩
      exact shows_cell _

/-! ## Lines -/

section Lines

variable {cells : List (List Char)}

theorem splitOn_line (h : ∀ cell ∈ cells, IsCell cell) (hne : cells ≠ []) :
    (['\t'].intercalate cells).splitOn '\t' = cells :=
  List.splitOn_intercalate '\t' (fun cell hcell => (h cell hcell).tab) hne

theorem not_mem_line (h : ∀ cell ∈ cells, IsCell cell) : '\n' ∉ ['\t'].intercalate cells := by
  intro hmem
  rcases mem_intercalate hmem with hsep | ⟨cell, hcell, hc⟩
  · exact absurd hsep (by decide)
  · exact (h cell hcell).line_end hc

theorem length_line (h : ∀ cell ∈ cells, IsCell cell) (hne : cells ≠ []) :
    (['\t'].intercalate cells).length + 1 = 13 * cells.length := by
  rw [length_intercalate '\t' hne,
    NArray.length_flatten_eq_mul fun cell hcell => (h cell hcell).length]
  omega

end Lines

theorem isCell_of_mem_header (columnIds : List Int) :
    ∀ cell ∈ blankCell :: columnIds.map idCell, IsCell cell := by
  intro cell hcell
  rcases List.mem_cons.mp hcell with rfl | hcell
  · exact isCell_blankCell
  · obtain ⟨id, _, rfl⟩ := List.mem_map.mp hcell
    exact isCell_idCell id

theorem isCell_of_mem_rowCells (m : Association) (columnIds : List Int) (rowId : Int) :
    ∀ cell ∈ m.rowCells columnIds rowId, IsCell cell := by
  intro cell hcell
  rcases List.mem_cons.mp hcell with rfl | hcell
  · exact isCell_idCell rowId
  · obtain ⟨id, _, rfl⟩ := List.mem_map.mp hcell
    exact isCell_elim _

/-! ## Tables -/

/-- The header of a table of these columns. -/
def headerLine (columnIds : List Int) : List Char :=
  ['\t'].intercalate (blankCell :: columnIds.map idCell)

/-- The line of a row under these columns. -/
def rowLine (m : Association) (columnIds : List Int) (rowId : Int) : List Char :=
  ['\t'].intercalate (m.rowCells columnIds rowId)

/-- The characters of the table of these rows and columns. -/
def tableText (m : Association) (rowIds columnIds : List Int) : List Char :=
  ['\n'].intercalate (m.tableLines rowIds columnIds) ++ ['\n', '\n']

section Tables

variable (m : Association) (rowIds columnIds : List Int)

theorem tableLines_eq : m.tableLines rowIds columnIds =
    headerLine columnIds :: [] :: rowIds.map (m.rowLine columnIds) := rfl

theorem not_mem_of_mem_tableLines : ∀ line ∈ m.tableLines rowIds columnIds, '\n' ∉ line := by
  intro line hline
  rw [tableLines_eq] at hline
  rcases List.mem_cons.mp hline with rfl | hline
  · exact not_mem_line (isCell_of_mem_header columnIds)
  · rcases List.mem_cons.mp hline with rfl | hline
    · exact List.not_mem_nil
    · obtain ⟨rowId, _, rfl⟩ := List.mem_map.mp hline
      exact not_mem_line (m.isCell_of_mem_rowCells columnIds rowId)

/-- The two line ends after the last line are cut off as two empty lines. -/
theorem splitOn_tableText :
    (m.tableText rowIds columnIds).splitOn '\n' = m.tableLines rowIds columnIds ++ [[], []] := by
  have hlines := List.splitOn_intercalate '\n' (m.not_mem_of_mem_tableLines rowIds columnIds)
    (List.cons_ne_nil _ _)
  calc (m.tableText rowIds columnIds).splitOn '\n'
      = (['\n'].intercalate (m.tableLines rowIds columnIds)).splitOn '\n' ++ ['\n'].splitOn '\n' :=
        List.splitOnP_append_cons (p := (· == '\n')) _ _ rfl
    _ = m.tableLines rowIds columnIds ++ [[], []] := by
        rw [hlines]
        rfl

theorem splitOn_headerLine :
    (headerLine columnIds).splitOn '\t' = blankCell :: columnIds.map idCell :=
  splitOn_line (isCell_of_mem_header columnIds) (List.cons_ne_nil _ _)

theorem splitOn_rowLine (rowId : Int) :
    (m.rowLine columnIds rowId).splitOn '\t' = m.rowCells columnIds rowId :=
  splitOn_line (m.isCell_of_mem_rowCells columnIds rowId) (List.cons_ne_nil _ _)

theorem length_headerLine : (headerLine columnIds).length = 13 * columnIds.length + 12 := by
  have hline := length_line (isCell_of_mem_header columnIds) (List.cons_ne_nil _ _)
  rw [List.length_cons, List.length_map] at hline
  rw [headerLine]
  omega

theorem length_rowLine (rowId : Int) :
    (m.rowLine columnIds rowId).length = 13 * columnIds.length + 12 := by
  have hline := length_line (m.isCell_of_mem_rowCells columnIds rowId) (List.cons_ne_nil _ _)
  simp only [rowCells, List.length_cons, List.length_map] at hline
  rw [rowLine, rowCells]
  omega

theorem length_tableText :
    (m.tableText rowIds columnIds).length =
      (rowIds.length + 1) * (13 * columnIds.length + 12) + rowIds.length + 3 := by
  have hbody : ∀ line ∈ rowIds.map (m.rowLine columnIds),
      line.length = 13 * columnIds.length + 12 := by
    intro line hline
    obtain ⟨rowId, _, rfl⟩ := List.mem_map.mp hline
    exact m.length_rowLine columnIds rowId
  -- The header, the empty line and the rows, with a line end between any two of them.
  have hne : headerLine columnIds :: [] :: rowIds.map (m.rowLine columnIds) ≠ [] :=
    List.cons_ne_nil _ _
  have hlines := length_intercalate '\n' hne
  rw [List.flatten_cons, List.flatten_cons, List.length_append, length_headerLine,
    List.length_append, NArray.length_flatten_eq_mul hbody] at hlines
  simp only [List.length_cons, List.length_nil, List.length_map] at hlines
  rw [tableText, List.length_append, tableLines_eq, Nat.add_mul]
  simp only [List.length_cons, List.length_nil]
  omega

/-- Whatever the ids, the text of a table lays out the weights under them. -/
theorem laysOut_tableText :
    LaysOut (m.tableText rowIds columnIds) (headerLine columnIds)
      (rowIds.map (m.rowLine columnIds)) (fun row column => (m.row row).get? column) rowIds
      columnIds where
  lines := m.splitOn_tableText rowIds columnIds
  length_lines := by
    rw [splitOn_tableText, tableLines_eq]
    simp
  cells := by
    intro line hline
    rcases List.mem_cons.mp hline with rfl | hline
    · rw [splitOn_headerLine]
      exact ⟨by simp, fun cell hcell => (isCell_of_mem_header columnIds cell hcell).length⟩
    · obtain ⟨rowId, _, rfl⟩ := List.mem_map.mp hline
      rw [splitOn_rowLine]
      exact ⟨by simp [rowCells],
        fun cell hcell => (m.isCell_of_mem_rowCells columnIds rowId cell hcell).length⟩
  header_cells := by
    refine ⟨columnIds.map idCell, splitOn_headerLine columnIds, ?_⟩
    rw [List.forall₂_map_left_iff, List.forall₂_same]
    exact fun id _ => shows_idCell id
  row_cells := by
    rw [List.forall₂_map_left_iff, List.forall₂_same]
    intro rowId _
    refine ⟨_, _, m.splitOn_rowLine columnIds rowId, shows_idCell rowId, ?_⟩
    rw [List.forall₂_map_left_iff, List.forall₂_same]
    exact fun columnId _ => showsWeight_elim _
  length := m.length_tableText rowIds columnIds

/-- A pair without a weight has a blank cell. -/
example :
    tableText (ofList [(2, 20, 1.5), (1, 10, -2.0)]) [1, 2] [10, 20] =
      ("            \t          10\t          20\n\n" ++
        "           1\t        -2.0\t            \n" ++
        "           2\t            \t         1.5\n\n").toList := by
  decide +kernel

end Tables

/-- The table of a matrix whose ids are listed. -/
theorem table_of_ids {m : Association} {rowIds columnIds : List Int} (hrows : m.rowIds = .ok rowIds)
    (hcolumns : m.columnIds = .ok columnIds) :
    m.table = .ok (String.ofList (m.tableText rowIds columnIds)) := by
  rw [table, tableChars, hrows, hcolumns]
  rfl

/-- Ids that cannot be listed are a failure of the table, those of the columns first. -/
theorem table_of_error {m : Association} {failure : Failure}
    (h : m.columnIds = .error failure ∨
      ∃ columnIds, m.columnIds = .ok columnIds ∧ m.rowIds = .error failure) :
    m.table = .error failure := by
  rw [table, tableChars]
  rcases h with h | ⟨columnIds, hcolumns, hrows⟩
  · rw [h]
    rfl
  · rw [hcolumns, hrows]
    rfl

namespace ReadsAs

variable {m : Association} {weight? : Int → Int → Option Float} {live : Finset (Int × Int)}

theorem exists_table (h : m.ReadsAs weight? live)
    (hfits : ∀ cell ∈ live, Number.fitsInt64 cell.1 = true ∧ Number.fitsInt64 cell.2 = true) :
    ∃ text, m.table = .ok text ∧ TableOf text.toList weight? live := by
  obtain ⟨rowIds, hrows, hascends⟩ := h.rowIds.exists_ascends
    (Finset.forall_mem_image.mpr fun cell hcell => (hfits cell hcell).1)
  obtain ⟨columnIds, hcolumns, hascends'⟩ := h.columnIds.exists_ascends
    (Finset.forall_mem_image.mpr fun cell hcell => (hfits cell hcell).2)
  have hweight : (fun row column => (m.row row).get? column) = weight? := by
    funext row column
    exact h.row row column
  refine ⟨_, table_of_ids hrows hcolumns, ?_⟩
  rw [String.toList_ofList, ← hweight]
  exact ⟨_, _, rowIds, columnIds, hascends, hascends', m.laysOut_tableText rowIds columnIds⟩

theorem table_eq_error (h : m.ReadsAs weight? live)
    (hbeyond : ∃ cell ∈ live,
      Number.fitsInt64 cell.1 = false ∨ Number.fitsInt64 cell.2 = false) :
    m.table = .error .idRange := by
  obtain ⟨cell, hcell, hcell'⟩ := hbeyond
  refine table_of_error ?_
  -- The ids of the columns are collected first.
  by_cases hcolumns : ∃ id ∈ live.image Prod.snd, Number.fitsInt64 id = false
  · exact Or.inl (h.columnIds.of_not_fits hcolumns)
  · obtain ⟨columnIds, hlisted, _⟩ := h.columnIds.of_fits fun id hid =>
      eq_true_of_ne_false fun hid' => hcolumns ⟨id, hid, hid'⟩
    have hrow : Number.fitsInt64 cell.1 = false := hcell'.resolve_right fun hcolumn =>
      hcolumns ⟨cell.2, Finset.mem_image_of_mem _ hcell, hcolumn⟩
    exact Or.inr ⟨columnIds, hlisted,
      h.rowIds.of_not_fits ⟨cell.1, Finset.mem_image_of_mem _ hcell, hrow⟩⟩

end ReadsAs

/-- **A table lays out the flat map of the history.**  After every sequence of changes of the
empty matrix there is no table exactly if a live pair has an id beyond 64 bits.  Otherwise the
rows and columns of the table are those of the live pairs, in ascending order, and the cell of
a row and a column shows the weight of the pair. -/
theorem table_run (steps : List Step) :
    let m := (∅ : Association).run steps
    let live := liveCells steps
    (m.table = .error .idRange ↔
      ∃ cell ∈ live, Number.fitsInt64 cell.1 = false ∨ Number.fitsInt64 cell.2 = false) ∧
    ((∀ cell ∈ live, Number.fitsInt64 cell.1 = true ∧ Number.fitsInt64 cell.2 = true) →
      ∃ text, m.table = .ok text ∧ TableOf text.toList (weightAt? steps) live) := by
  intro m live
  have hweight : m.get? = weightAt? steps := by
    funext row column
    exact get?_run steps row column
  have hreads : m.ReadsAs (weightAt? steps) live := by
    rw [← hweight]
    exact (consistent_empty.run steps).readsAs fun row column => by rw [mem_liveCells, get?_run]
  refine ⟨⟨?_, hreads.table_eq_error⟩, hreads.exists_table⟩
  intro htable
  by_contra hnone
  obtain ⟨text, hok, _⟩ := hreads.exists_table fun cell hcell => by
    constructor
    · exact eq_true_of_ne_false fun hrow => hnone ⟨cell, hcell, Or.inl hrow⟩
    · exact eq_true_of_ne_false fun hcolumn => hnone ⟨cell, hcell, Or.inr hcolumn⟩
  rw [htable] at hok
  cases hok

/-- A table with an id that is too long for its cell, a negative zero and a row that was emptied
and came back as a NaN.  Of the two columns of that row only one is live. -/
theorem table_run_nan :
    let steps := [Step.add 12345678901234 7 (-0.0), .add (-3) 10 2.5, .erase (-3) 10,
      .add (-3) 7 (0.0 / 0.0)]
    liveCells steps = {(12345678901234, 7), (-3, 7)} ∧
      ∃ text, ((∅ : Association).run steps).table = .ok text ∧
        TableOf text.toList (weightAt? steps) (liveCells steps) := by
  intro steps
  have hlive : liveCells steps = {(12345678901234, 7), (-3, 7)} := by decide
  refine ⟨hlive, (table_run steps).2 ?_⟩
  rw [hlive]
  decide

end Association

end LeastSquares

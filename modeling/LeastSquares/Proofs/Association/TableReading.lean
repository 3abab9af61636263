import LeastSquares.Proofs.Association.Interleaving
import LeastSquares.Proofs.Decimal.Distinct

/-!
# Reading a table back

A table is cut where it was joined, so equal tables have equal cells.  What is left to show is
what a cell says about the text in it.  A text that fits its cell is what follows the spaces at
the beginning (`dropWhile_cell`), because number texts are words.  So a cell gives an id back
if the id is short enough, and it gives the text of a weight back if there is room for it, also
where a space was put in front.  The text gives the weight back: different weights have
different texts.

A weight that does not fit its cell is cut, but its cell is still not blank.

The main result is `table_eq_table`.
-/

namespace LeastSquares

/-! ## Ids -/

namespace Decimal

theorem ofInt_injective {n n' : Int} (h : ofInt n = ofInt n') : n = n' := by
  have hdigits : ∀ k k' : Nat, digits k = digits k' → k = k' := fun k k' h => by
    rw [← natOfDigits_digits k, h, natOfDigits_digits]
  -- A minus sign is no digit.
  have hsign : ∀ k k' : Nat, digits k ≠ '-' :: digits k' := fun k k' h =>
    absurd (isDigit_digits k '-' (h ▸ List.mem_cons_self)) (by decide)
  cases n with
  | ofNat k =>
      cases n' with
      | ofNat k' => rw [hdigits k k' (String.ofList_injective h)]
      | negSucc k' => exact absurd (String.ofList_injective h) (hsign _ _)
  | negSucc k =>
      cases n' with
      | ofNat k' => exact absurd (String.ofList_injective h).symm (hsign _ _)
      | negSucc k' =>
          have hsucc := hdigits _ _ (List.cons.inj (String.ofList_injective h)).2
          rw [Nat.succ.inj hsucc]

theorem fitsInt64_of_length_le {n : Int} (h : n.repr.length ≤ 12) :
    Number.fitsInt64 n = true := by
  rw [← ofInt_eq_repr] at h
  have hlength : ∀ k : Nat, (digits k).length ≤ 12 → k < 10 ^ 12 := fun k hk =>
    (Nat.length_toDigits_le_iff (by decide) (by decide)).mp hk
  rw [Number.fitsInt64, Bool.and_eq_true, decide_eq_true_eq, decide_eq_true_eq]
  cases n with
  | ofNat k =>
      rw [ofInt, String.length_ofList] at h
      have hk := hlength k h
      rw [Int.ofNat_eq_natCast]
      omega
  | negSucc k =>
      rw [ofInt, String.length_ofList, List.length_cons] at h
      have hk := hlength (k + 1) (by omega)
      omega

end Decimal

namespace Association

/-! ## Cells -/

/-- A weight whose text fits its cell.  A weight that is not negative has a space in front. -/
def FitsCell (weight : Float) : Prop :=
  (Decimal.Text32.write weight).length ≤ if 0.0 ≤ weight then 11 else 12

/-- What follows the spaces in a cell is the word that was put there, if it fits. -/
theorem dropWhile_cell (pad : Nat) {word : List Char} (hword : Decimal.IsWord word)
    (hfits : pad + word.length ≤ 12) :
    (cell (List.replicate pad ' ' ++ word)).dropWhile (· == ' ') = word := by
  have hlength : (List.replicate pad ' ' ++ word).length ≤ cellWidth := by
    rw [List.length_append, List.length_replicate]
    exact hfits
  have hspaces : ∀ k, ∀ c ∈ List.replicate k ' ', (c == ' ') = true := fun k c hc => by
    rw [List.eq_of_mem_replicate hc]
    rfl
  rw [cell, List.take_of_length_le hlength, List.dropWhile_append_of_pos (hspaces _),
    List.dropWhile_append_of_pos (hspaces _)]
  obtain ⟨c, rest, rfl⟩ := List.exists_cons_of_ne_nil hword.ne_nil
  refine List.dropWhile_cons_of_neg fun hc => ?_
  have hblank := hword.not_blank c List.mem_cons_self
  rw [eq_of_beq hc] at hblank
  exact absurd hblank (by decide)

theorem idCell_injective {id id' : Int} (hid : id.repr.length ≤ 12) (hid' : id'.repr.length ≤ 12)
    (h : idCell id = idCell id') : id = id' := by
  have hread : ∀ {i : Int}, i.repr.length ≤ 12 →
      (idCell i).dropWhile (· == ' ') = (Decimal.ofInt i).toList := by
    intro i hi
    have hlength : 0 + (Decimal.ofInt i).toList.length ≤ 12 := by
      rwa [Nat.zero_add, Decimal.ofInt_eq_repr, String.length_toList]
    exact dropWhile_cell 0 (Decimal.isWord_ofInt i) hlength
  have htext := hread hid
  rw [h, hread hid'] at htext
  exact Decimal.ofInt_injective (String.toList_inj.mp htext.symm)

theorem dropWhile_weightCell {weight : Float} (h : FitsCell weight) :
    (weightCell weight).dropWhile (· == ' ') = Decimal.Text32.write weight := by
  have hword := Decimal.isWord_write Decimal.Text32 weight
  rw [FitsCell] at h
  rw [weightCell_eq]
  split
  · rename_i hnonneg
    rw [if_pos hnonneg] at h
    have hfits : 1 + (Decimal.Text32.write weight).length ≤ 12 := by omega
    exact dropWhile_cell 1 hword hfits
  · rename_i hneg
    rw [if_neg hneg] at h
    have hfits : 0 + (Decimal.Text32.write weight).length ≤ 12 := by omega
    exact dropWhile_cell 0 hword hfits

theorem isSome_eq_of_elim_eq {weight? weight?' : Option Float}
    (h : weight?.elim blankCell weightCell = weight?'.elim blankCell weightCell) :
    weight?.isSome = weight?'.isSome := by
  have hblank := showsWeight_elim weight?
  have hblank' := showsWeight_elim weight?'
  rw [h] at hblank
  have hnone := hblank.blank_iff.symm.trans hblank'.blank_iff
  rwa [← Option.isNone_iff_eq_none, ← Option.isNone_iff_eq_none, ← Bool.eq_iff_iff,
    ← Option.not_isSome, ← Option.not_isSome, Bool.not_inj_iff] at hnone

theorem eq_of_weightCell_eq {weight weight' : Float} (hfits : FitsCell weight)
    (hfits' : FitsCell weight') (hnarrow : ∃ x, weight = Number.narrow x)
    (hnarrow' : ∃ x, weight' = Number.narrow x) (h : weightCell weight = weightCell weight') :
    weight = weight' := by
  obtain ⟨x, rfl⟩ := hnarrow
  obtain ⟨x', rfl⟩ := hnarrow'
  refine Decimal.narrow_eq_of_write_eq ?_
  rw [← dropWhile_weightCell hfits, h, dropWhile_weightCell hfits']

/-! ## Tables -/

theorem eq_of_map_eq_map {α β : Type*} {f g : α → β} {l l' : List α}
    (hinj : ∀ x ∈ l, ∀ y ∈ l', f x = g y → x = y) (h : l.map f = l'.map g) : l = l' := by
  induction l generalizing l' with
  | nil => exact (List.map_eq_nil_iff.mp h.symm).symm
  | cons x l ih =>
      obtain ⟨y, l', rfl, hx, hl⟩ := List.map_eq_cons_iff.mp h.symm
      have hrest : ∀ z ∈ l, ∀ w ∈ l', f z = g w → z = w := fun z hz w hw =>
        hinj z (List.mem_cons_of_mem _ hz) w (List.mem_cons_of_mem _ hw)
      rw [hinj x List.mem_cons_self y List.mem_cons_self hx.symm, ih hrest hl.symm]

section Tables

variable {m m' : Association} {rowIds rowIds' columnIds columnIds' : List Int}

/-- Equal tables under short ids have the same rows and columns, and equal cells. -/
theorem eq_of_tableText_eq (hrows : ∀ id ∈ rowIds ++ rowIds', id.repr.length ≤ 12)
    (hcolumns : ∀ id ∈ columnIds ++ columnIds', id.repr.length ≤ 12)
    (h : m.tableText rowIds columnIds = m'.tableText rowIds' columnIds') :
    rowIds = rowIds' ∧ columnIds = columnIds' ∧ ∀ r ∈ rowIds, ∀ c ∈ columnIds,
      ((m.row r).get? c).elim blankCell weightCell =
        ((m'.row r).get? c).elim blankCell weightCell := by
  -- Cut at the line ends, the two tables have the same lines.
  have hlines := congrArg (List.splitOn '\n') h
  rw [splitOn_tableText, splitOn_tableText, tableLines_eq, tableLines_eq] at hlines
  obtain ⟨hheader, hbody⟩ := List.cons.inj (List.append_cancel_right hlines)
  obtain ⟨-, hbody⟩ := List.cons.inj hbody
  have hcells := congrArg (List.splitOn '\t') hheader
  rw [splitOn_headerLine, splitOn_headerLine] at hcells
  obtain rfl : columnIds = columnIds' := by
    refine eq_of_map_eq_map (fun x hx y hy => ?_) (List.cons.inj hcells).2
    exact idCell_injective (hcolumns x (List.mem_append_left _ hx))
      (hcolumns y (List.mem_append_right _ hy))
  have hrow : ∀ {r r' : Int}, m.rowLine columnIds r = m'.rowLine columnIds r' →
      m.rowCells columnIds r = m'.rowCells columnIds r' := by
    intro r r' hline
    rw [← splitOn_rowLine, hline, splitOn_rowLine]
  obtain rfl : rowIds = rowIds' := by
    refine eq_of_map_eq_map (fun x hx y hy hline => ?_) hbody
    exact idCell_injective (hrows x (List.mem_append_left _ hx))
      (hrows y (List.mem_append_right _ hy)) (List.cons.inj (hrow hline)).1
  refine ⟨rfl, rfl, fun r hr c hc => ?_⟩
  have hcells := (List.cons.inj (hrow (List.map_inj_left.mp hbody r hr))).2
  exact List.map_inj_left.mp hcells c hc

/-- The ids of a matrix are listed, and they are short. -/
structure ListsShortIds (m : Association) (rowIds columnIds : List Int) : Prop where
  rows_eq : m.rowIds = .ok rowIds
  columns_eq : m.columnIds = .ok columnIds
  mem : ∀ r c, m.contains r c = true → r ∈ rowIds ∧ c ∈ columnIds
  short_rows : ∀ r ∈ rowIds, r.repr.length ≤ 12
  short_columns : ∀ c ∈ columnIds, c.repr.length ≤ 12

theorem ListsShortIds.table (h : m.ListsShortIds rowIds columnIds) :
    m.table = .ok (String.ofList (m.tableText rowIds columnIds)) :=
  table_of_ids h.rows_eq h.columns_eq

theorem exists_listsShortIds (steps : List Step)
    (hshort : ∀ r c, ((∅ : Association).run steps).contains r c = true →
      r.repr.length ≤ 12 ∧ c.repr.length ≤ 12) :
    ∃ rowIds columnIds, ((∅ : Association).run steps).ListsShortIds rowIds columnIds := by
  have hreads : ((∅ : Association).run steps).ReadsAs _ (liveCells steps) :=
    (consistent_empty.run steps).readsAs fun row column => by rw [mem_liveCells, get?_run]
  have hrows : ∀ r ∈ (liveCells steps).image Prod.fst, r.repr.length ≤ 12 :=
    Finset.forall_mem_image.mpr fun cell hcell =>
      (hshort cell.1 cell.2 ((hreads.contains _ _).mpr hcell)).1
  have hcolumns : ∀ c ∈ (liveCells steps).image Prod.snd, c.repr.length ≤ 12 :=
    Finset.forall_mem_image.mpr fun cell hcell =>
      (hshort cell.1 cell.2 ((hreads.contains _ _).mpr hcell)).2
  obtain ⟨rowIds, hrowIds, -, hmem⟩ := hreads.rowIds.of_fits fun r hr =>
    Decimal.fitsInt64_of_length_le (hrows r hr)
  obtain ⟨columnIds, hcolumnIds, -, hmem'⟩ := hreads.columnIds.of_fits fun c hc =>
    Decimal.fitsInt64_of_length_le (hcolumns c hc)
  refine ⟨rowIds, columnIds, hrowIds, hcolumnIds, fun r c hlive => ?_,
    fun r hr => hrows r ((hmem r).mp hr), fun c hc => hcolumns c ((hmem' c).mp hc)⟩
  have hcell := (hreads.contains r c).mp hlive
  exact ⟨(hmem r).mpr (Finset.mem_image_of_mem Prod.fst hcell),
    (hmem' c).mpr (Finset.mem_image_of_mem Prod.snd hcell)⟩

/-- What two matrices have in common if their tables are equal. -/
structure SameTable (m m' : Association) : Prop where
  rowIds : m.rowIds = m'.rowIds
  columnIds : m.columnIds = m'.columnIds
  contains : ∀ r c, m.contains r c = m'.contains r c
  weight : ∀ r c w w', m.get? r c = some w → m'.get? r c = some w' → FitsCell w → FitsCell w' →
    w = w'

theorem Consistent.sameTable (hm : m.Consistent) (hm' : m'.Consistent)
    (hids : m.ListsShortIds rowIds columnIds) (hids' : m'.ListsShortIds rowIds' columnIds')
    (h : m.table = m'.table) : SameTable m m' := by
  have htext : m.tableText rowIds columnIds = m'.tableText rowIds' columnIds' := by
    rw [hids.table, hids'.table] at h
    exact String.ofList_injective (Except.ok.inj h)
  obtain ⟨rfl, rfl, hcells⟩ := eq_of_tableText_eq
    (List.forall_mem_append.mpr ⟨hids.short_rows, hids'.short_rows⟩)
    (List.forall_mem_append.mpr ⟨hids.short_columns, hids'.short_columns⟩) htext
  have hcell : ∀ r ∈ rowIds, ∀ c ∈ columnIds,
      (m.get? r c).elim blankCell weightCell = (m'.get? r c).elim blankCell weightCell :=
    fun r hr c hc => by
      rw [Association.get?, Association.get?, ← View.line_get?, ← View.line_get?]
      exact hcells r hr c hc
  refine ⟨hids.rows_eq.trans hids'.rows_eq.symm, hids.columns_eq.trans hids'.columns_eq.symm,
    fun r c => ?_, fun r c w w' hw hw' hfits hfits' => ?_⟩
  · by_cases hmem : r ∈ rowIds ∧ c ∈ columnIds
    · exact isSome_eq_of_elim_eq (hcell r hmem.1 c hmem.2)
    · rw [Bool.eq_false_iff.mpr (mt (hids.mem r c) hmem),
        Bool.eq_false_iff.mpr (mt (hids'.mem r c) hmem)]
  · have hmem := hids.mem r c (by rw [Association.contains, hw]; rfl)
    have heq := hcell r hmem.1 c hmem.2
    rw [hw, hw'] at heq
    exact eq_of_weightCell_eq hfits hfits' (hm.rows.narrowed r c w hw)
      (hm'.rows.narrowed r c w' hw') heq

/-- Matrices with equal tables are equal if all their weights fit. -/
theorem SameTable.get?_eq (h : SameTable m m')
    (hfits : ∀ r c w, m.get? r c = some w ∨ m'.get? r c = some w → FitsCell w) (r c : Int) :
    m.get? r c = m'.get? r c := by
  have hcontains := h.contains r c
  rw [Association.contains, Association.contains] at hcontains
  cases hw : m.get? r c with
  | none =>
      rw [hw, Option.isSome_none] at hcontains
      exact (Option.not_isSome_iff_eq_none.mp (by rw [← hcontains]; exact Bool.false_ne_true)).symm
  | some w =>
      rw [hw, Option.isSome_some] at hcontains
      obtain ⟨w', hw'⟩ := Option.isSome_iff_exists.mp hcontains.symm
      rw [hw', h.weight r c w w' hw hw' (hfits r c w (.inl hw)) (hfits r c w' (.inr hw'))]

end Tables

/-- **A table determines the matrix.**  Two matrices whose ids have at most twelve characters have
tables, and if these are equal then the matrices have the same rows, columns and pairs of ids,
and the same weight wherever the texts of both weights fit their cells; so they have the same
weights if all of them fit.  Matrices with the same weights have equal tables whatever their
histories and ids. -/
theorem table_eq_table (steps steps' : List Step) :
    let m := (∅ : Association).run steps
    let m' := (∅ : Association).run steps'
    ((∀ r c, m.contains r c = true ∨ m'.contains r c = true →
        r.repr.length ≤ 12 ∧ c.repr.length ≤ 12) →
      (∃ text, m.table = .ok text) ∧ (∃ text, m'.table = .ok text) ∧
      (m.table = m'.table → SameTable m m' ∧
        ((∀ r c w, m.get? r c = some w ∨ m'.get? r c = some w → FitsCell w) →
          ∀ r c, m.get? r c = m'.get? r c))) ∧
    ((∀ r c, m.get? r c = m'.get? r c) → m.table = m'.table) := by
  intro m m'
  have hm : m.Consistent := consistent_empty.run steps
  have hm' : m'.Consistent := consistent_empty.run steps'
  refine ⟨fun hshort => ?_, fun hget => (hm.readsSame hm' hget).table⟩
  obtain ⟨rowIds, columnIds, hids⟩ := exists_listsShortIds steps fun r c h => hshort r c (.inl h)
  obtain ⟨rowIds', columnIds', hids'⟩ :=
    exists_listsShortIds steps' fun r c h => hshort r c (.inr h)
  refine ⟨⟨_, hids.table⟩, ⟨_, hids'.table⟩, fun htable => ?_⟩
  have hsame := hm.sameTable hm' hids hids' htable
  exact ⟨hsame, hsame.get?_eq⟩

/-- A NaN and a stored zero, in rows of either sign that came in one way and the other. -/
theorem table_eq_table_nan_and_zero :
    let steps := [Step.add (-3) 7 (0.0 / 0.0), .add 250 7 0.0]
    let steps' := [Step.add 250 7 0.0, .add (-3) 7 (0.0 / 0.0)]
    let m := (∅ : Association).run steps
    let m' := (∅ : Association).run steps'
    (∃ text, m.table = .ok text) ∧ m.table = m'.table ∧ m.rows ≠ m'.rows ∧ SameTable m m' := by
  intro steps steps' m m'
  have hget : ∀ r c, m.get? r c = m'.get? r c := by
    refine (readsSame_of_stepsAt fun r c => ?_).get?
    by_cases h : -3 = r
    · simp [steps, steps', stepsAt, List.filter_cons, Step.cell, ← h]
    · simp [steps, steps', stepsAt, List.filter_cons, Step.cell, h]
  have hlive : liveCells steps = {(-3, 7), (250, 7)} := by decide
  have hshort : ∀ r c, m.contains r c = true → r.repr.length ≤ 12 ∧ c.repr.length ≤ 12 := by
    intro r c hcontains
    have hcell : (r, c) ∈ liveCells steps := by rwa [mem_liveCells, ← get?_run]
    rw [hlive, Finset.mem_insert, Finset.mem_singleton, Prod.mk.injEq, Prod.mk.injEq] at hcell
    rcases hcell with ⟨rfl, rfl⟩ | ⟨rfl, rfl⟩ <;> decide
  have hshort' : ∀ r c, m.contains r c = true ∨ m'.contains r c = true →
      r.repr.length ≤ 12 ∧ c.repr.length ≤ 12 := by
    intro r c h
    rw [Association.contains, Association.contains, hget, or_self, ← hget] at h
    exact hshort r c h
  obtain ⟨hread, hwrite⟩ := table_eq_table steps steps'
  obtain ⟨htext, -, hsame⟩ := hread hshort'
  have hkeys : m.rows.lines.keys ≠ m'.rows.lines.keys := by decide +kernel
  refine ⟨htext, hwrite hget, fun h => hkeys ?_, (hsame (hwrite hget)).1⟩
  rw [h]

end Association

end LeastSquares

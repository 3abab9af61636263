import LeastSquares.Proofs.Association.Consistency
import Mathlib

/-!
# Everything that is read from a matrix

Some reads of a matrix look at the view by row and others at the view by column, and
sizes are counted line by line.  `ReadsAs` says what all of them answer for a flat
map, which is one weight or none for each pair of ids, with the finite set of the
pairs that have one.  `Consistent.readsAs` derives all of it from `get?` alone.

The counting goes through the list of all entries, in which no pair of ids occurs
twice: its length is the size of a view (`View.size_eq_card`) in whichever order the
two ids of a pair are read.
-/

namespace LeastSquares

/-! ## Counting -/

namespace View

variable {v : View} {cells : Finset (Int × Int)}

/-- The sizes of the lines add up to the size of the view. -/
theorem size_eq_sum (v : View) : v.size = (v.lines.values.map IdMap.size).sum := by
  rw [size, List.sum_eq_foldr, List.foldr_map]

/-- The pairs of ids that are listed are those that have a weight. -/
theorem mem_toFinset_toList {outer inner : Int} :
    (outer, inner) ∈ (v.toList.map fun entry => (entry.1, entry.2.1)).toFinset ↔
      (v.get? outer inner).isSome = true := by
  rw [Option.isSome_iff_exists, List.mem_toFinset, List.mem_map]
  constructor
  · rintro ⟨⟨o, i, weight⟩, hmem, heq⟩
    obtain ⟨rfl, rfl⟩ := Prod.mk.inj heq
    exact ⟨weight, mem_toList.mp hmem⟩
  · rintro ⟨weight, hweight⟩
    exact ⟨(outer, inner, weight), mem_toList.mpr hweight, rfl⟩

theorem size_eq_card
    (hcells : ∀ outer inner, (outer, inner) ∈ cells ↔ (v.get? outer inner).isSome = true) :
    v.size = cells.card := by
  -- The list of all entries has each pair once, so its length is the number of pairs.
  have hset : (v.toList.map fun entry => (entry.1, entry.2.1)).toFinset = cells := by
    ext ⟨outer, inner⟩
    rw [hcells, mem_toFinset_toList]
  rw [← hset, List.toFinset_card_of_nodup v.nodup_map_toList, List.length_map, length_toList]

/-- The ids with a line are the first components of the pairs that have a weight. -/
theorem Tidy.mem_keys_iff_mem_image (h : v.Tidy)
    (hcells : ∀ outer inner, (outer, inner) ∈ cells ↔ (v.get? outer inner).isSome = true)
    {outer : Int} : outer ∈ v.lines.keys ↔ outer ∈ cells.image Prod.fst := by
  rw [h.mem_keys_iff, Finset.mem_image]
  constructor
  · rintro ⟨inner, weight, hweight⟩
    have hsome : (v.get? outer inner).isSome = true := Option.isSome_iff_exists.mpr ⟨_, hweight⟩
    exact ⟨(outer, inner), (hcells outer inner).mpr hsome, rfl⟩
  · rintro ⟨⟨o, inner⟩, hmem, rfl⟩
    exact ⟨inner, Option.isSome_iff_exists.mp ((hcells o inner).mp hmem)⟩

theorem Tidy.size_lines_eq_card (h : v.Tidy)
    (hcells : ∀ outer inner, (outer, inner) ∈ cells ↔ (v.get? outer inner).isSome = true) :
    v.lines.size = (cells.image Prod.fst).card := by
  have hset : v.lines.keys.toFinset = cells.image Prod.fst := by
    ext outer
    rw [List.mem_toFinset, h.mem_keys_iff_mem_image hcells]
  rw [← hset, List.toFinset_card_of_nodup v.lines.keys_nodup, IdMap.keys, List.length_map,
    IdMap.size]

end View

/-! ## Ids in order -/

/-- An answer that lists ids: in ascending order, each of them once, unless one is beyond
64 bits. -/
structure ListsIds (answer : Except Failure (List Int)) (ids : Finset Int) : Prop where
  of_fits : (∀ id ∈ ids, Number.fitsInt64 id = true) →
    ∃ list, answer = .ok list ∧ list.SortedLT ∧ ∀ id, id ∈ list ↔ id ∈ ids
  of_not_fits : (∃ id ∈ ids, Number.fitsInt64 id = false) → answer = .error .idRange

theorem View.listsIds {v : View} {ids : Finset Int} (h : ∀ id, id ∈ v.lines.keys ↔ id ∈ ids) :
    ListsIds v.sortedIds ids where
  of_fits hfits := by
    have hall : v.lines.keys.all Number.fitsInt64 = true :=
      List.all_eq_true.mpr fun id hid => hfits id ((h id).mp hid)
    refine ⟨v.lines.keys.mergeSort (· ≤ ·), if_pos hall, ?_, fun id => ?_⟩
    · exact List.sortedLE_mergeSort.sortedLT_of_nodup
        ((List.mergeSort_perm _ _).nodup_iff.mpr v.lines.keys_nodup)
    · rw [List.mem_mergeSort, h]
  of_not_fits := by
    rintro ⟨id, hid, hbeyond⟩
    refine if_neg fun hall => ?_
    have hfits := List.all_eq_true.mp hall id ((h id).mpr hid)
    rw [hbeyond] at hfits
    exact Bool.false_ne_true hfits

/-! ## Reading a matrix -/

namespace Association

/-- Every read of a matrix answers from one flat map, whose finitely many pairs of ids with a
weight are `live`.  Sizes count them, by `size` and line by line in either view, and ids are
listed if they occur in one of them. -/
structure ReadsAs (m : Association) (weight? : Int → Int → Option Float)
    (live : Finset (Int × Int)) : Prop where
  get? : ∀ row column, m.get? row column = weight? row column
  contains : ∀ row column, m.contains row column = true ↔ (row, column) ∈ live
  row : ∀ row column, (m.row row).get? column = weight? row column
  column : ∀ row column, (m.column column).get? row = weight? row column
  row_eq_empty : ∀ row, (∀ column, (row, column) ∉ live) → m.row row = ∅
  column_eq_empty : ∀ column, (∀ row, (row, column) ∉ live) → m.column column = ∅
  nodup_toList : (m.toList.map fun entry => (entry.1, entry.2.1)).Nodup
  mem_toList : ∀ row column weight,
    (row, column, weight) ∈ m.toList ↔ weight? row column = some weight
  size : m.size = live.card
  size_rows : m.size = (m.rows.lines.values.map IdMap.size).sum
  size_columns : m.size = (m.columns.lines.values.map IdMap.size).sum
  shape : m.shape = ((live.image Prod.fst).card, (live.image Prod.snd).card)
  rowIds : ListsIds m.rowIds (live.image Prod.fst)
  columnIds : ListsIds m.columnIds (live.image Prod.snd)

/-- What is read from a consistent matrix follows from its weights. -/
theorem Consistent.readsAs {m : Association} (h : m.Consistent) {live : Finset (Int × Int)}
    (hlive : ∀ row column, (row, column) ∈ live ↔ (m.get? row column).isSome = true) :
    m.ReadsAs m.get? live := by
  have hrow : ∀ row column, (m.row row).get? column = m.get? row column :=
    fun row column => View.line_get? m.rows row column
  have hcolumn : ∀ row column, (m.column column).get? row = m.get? row column := by
    intro row column
    rw [Association.column, View.line_get?, ← h.mirrored]
    rfl
  -- The pairs of the view by column are the same ones, read the other way round.
  have hswapped : ∀ column row, (column, row) ∈ live.image Prod.swap ↔
      (m.columns.get? column row).isSome = true := by
    intro column row
    rw [← h.mirrored, ← Association.get?, ← hlive, Finset.mem_image]
    constructor
    · rintro ⟨⟨r, c⟩, hmem, heq⟩
      obtain ⟨rfl, rfl⟩ := Prod.mk.inj heq
      exact hmem
    · intro hmem
      exact ⟨(row, column), hmem, rfl⟩
  have hfst : (live.image Prod.swap).image Prod.fst = live.image Prod.snd := by
    rw [Finset.image_image]
    rfl
  have hsize : m.columns.size = live.card := by
    rw [View.size_eq_card hswapped, Finset.card_image_of_injective _ Prod.swap_injective]
  refine
    { get? := fun _ _ => rfl
      contains := fun row column => (hlive row column).symm
      row := hrow
      column := hcolumn
      row_eq_empty := ?_
      column_eq_empty := ?_
      nodup_toList := View.nodup_map_toList m.rows
      mem_toList := fun _ _ _ => View.mem_toList
      size := View.size_eq_card hlive
      size_rows := View.size_eq_sum m.rows
      size_columns := ?_
      shape := ?_
      rowIds := View.listsIds fun _ => h.rows.tidy.mem_keys_iff_mem_image hlive
      columnIds := ?_ }
  · intro row hnone
    refine IdMap.isEmpty_iff.mp (View.isEmpty_line_iff.mpr fun column => ?_)
    rw [← Option.not_isSome_iff_eq_none, ← Association.get?, ← hlive]
    exact hnone column
  · intro column hnone
    refine IdMap.isEmpty_iff.mp (View.isEmpty_line_iff.mpr fun row => ?_)
    rw [← h.mirrored, ← Option.not_isSome_iff_eq_none, ← Association.get?, ← hlive]
    exact hnone row
  · rw [← View.size_eq_sum, hsize]
    exact View.size_eq_card hlive
  · rw [Association.shape, h.rows.tidy.size_lines_eq_card hlive,
      h.columns.tidy.size_lines_eq_card hswapped, hfst]
  · rw [← hfst]
    exact View.listsIds fun _ => h.columns.tidy.mem_keys_iff_mem_image hswapped

end Association

end LeastSquares

import LeastSquares.Number.Reading
import LeastSquares.Proofs.Association.FailedAddition
import LeastSquares.Proofs.Association.Interleaving
import LeastSquares.Proofs.Number.Zeros
import Mathlib

/-!
# A matrix built again from its entries

The entries of a matrix, as they are listed, are triples from which a matrix can be built.  It
need not have the history of the first one, whose lines may have been dropped and made again, so
it is not obvious that it lists the same pairs of ids in the same order.

It does because the list goes through the rows one after another.  The entries of one row only
ever reach one line (`View.foldl_add_insert`), and since no id occurs twice in it they are put
one behind the other (`IdMap.entries_foldl_accrue`).  So the rows come out line by line, each
with its weights added to nothing (`View.addAll_toList`), and that is no change but for the sign
of a zero (`Number.narrow_zero_add`).  The columns are filled in the order of the rows.  What is
said of them is therefore said of their weights only, and it follows from the agreement of the
two views.

The main result is `exists_ofTriples_exported`.
-/

namespace LeastSquares

/-! ## One line -/

namespace IdMap

variable {α β : Type*} {m : IdMap α} {id : Int}

theorem get?_map (f : α → β) (m : IdMap α) (id : Int) :
    (m.map f).get? id = (m.get? id).map f := by
  change (m.entries.map fun entry => (entry.1, f entry.2)).lookup id =
    (m.entries.lookup id).map f
  induction m.entries with
  | nil => rfl
  | cons entry rest ih =>
      obtain ⟨k, value⟩ := entry
      rw [List.map_cons, lookup_cons_eq_ite, lookup_cons_eq_ite, ih]
      split <;> rfl

theorem map_map {γ : Type*} (g : β → γ) (f : α → β) (m : IdMap α) :
    (m.map f).map g = m.map fun value => g (f value) := by
  refine ext (List.map_map.trans ?_)
  rfl

theorem map_congr {f g : α → β} (h : ∀ id value, m.get? id = some value → f value = g value) :
    m.map f = m.map g := by
  refine ext (List.map_congr_left ?_)
  rintro ⟨id, value⟩ hmem
  rw [h id value (mem_entries_iff.mp hmem)]

/-- A line with an amount added at an id. -/
def accrue (line : IdMap Float) (entry : Int × Float) : IdMap Float :=
  line.insert entry.1 (Number.narrow ((line.get? entry.1).getD 0.0 + entry.2))

/-- Amounts at new ids are put at the end, one behind the other. -/
theorem entries_foldl_accrue {line : IdMap Float} {amounts : List (Int × Float)}
    (hnew : (line.keys ++ amounts.map Prod.fst).Nodup) :
    (amounts.foldl accrue line).entries =
      line.entries ++ amounts.map fun entry => (entry.1, Number.narrow (0.0 + entry.2)) := by
  induction amounts generalizing line with
  | nil => simp
  | cons entry amounts ih =>
      have hnone : line.get? entry.1 = none := by
        rw [get?_eq_none_iff]
        exact fun hmem => (List.nodup_append.mp hnew).2.2 _ hmem _ List.mem_cons_self rfl
      have hkeys : (line.accrue entry).keys = line.keys ++ [entry.1] :=
        keys_insert_of_notMem (get?_eq_none_iff.mp hnone) _
      have hentries : (line.accrue entry).entries =
          line.entries ++ [(entry.1, Number.narrow (0.0 + entry.2))] := by
        rw [accrue, entries_insert_of_get?_eq_none hnone, hnone, Option.getD_none]
      rw [List.map_cons, List.append_cons, ← hkeys] at hnew
      rw [List.foldl_cons, ih hnew, hentries, List.map_cons, List.append_assoc,
        List.singleton_append]

end IdMap

/-! ## One view -/

namespace View

variable {v w : View}

/-- The view with triples added one after another. -/
def addAll (v : View) (triples : List (Int × Int × Float)) : View :=
  triples.foldl (fun v triple => v.add triple.1 triple.2.1 triple.2.2) v

/-- What is added under one id reaches one line only. -/
theorem foldl_add_insert (v : View) (outer : Int) (line : IdMap Float)
    (amounts : List (Int × Float)) :
    addAll ⟨v.lines.insert outer line⟩ (amounts.map fun entry => (outer, entry)) =
      ⟨v.lines.insert outer (amounts.foldl IdMap.accrue line)⟩ := by
  induction amounts generalizing line with
  | nil => rfl
  | cons entry amounts ih =>
      have hline : (⟨v.lines.insert outer line⟩ : View).line outer = line := by
        rw [View.line, IdMap.get?_insert, if_pos rfl, Option.getD_some]
      have hadd : (⟨v.lines.insert outer line⟩ : View).add outer entry.1 entry.2 =
          ⟨v.lines.insert outer (line.accrue entry)⟩ := by
        rw [View.add, hline, IdMap.insert_insert]
        rfl
      rw [List.map_cons, addAll, List.foldl_cons, hadd]
      exact ih (line.accrue entry)

/-- The entries of a line that is added under a new id become a line at the end. -/
theorem entries_addAll_line {outer : Int} (hnew : v.lines.get? outer = none) {line : IdMap Float}
    (hline : line.isEmpty = false) :
    (v.addAll (line.entries.map fun entry => (outer, entry))).lines.entries =
      v.lines.entries ++ [(outer, line.map fun weight => Number.narrow (0.0 + weight))] := by
  have htouch : v.addAll (line.entries.map fun entry => (outer, entry)) =
      (v.touch outer).addAll (line.entries.map fun entry => (outer, entry)) := by
    -- The first entry makes the line, whether or not it has been made before.
    cases hentries : line.entries with
    | nil => simp [IdMap.isEmpty, hentries] at hline
    | cons entry rest =>
        rw [List.map_cons, addAll, addAll, List.foldl_cons, List.foldl_cons, add_touch]
  have hmade : v.touch outer = ⟨v.lines.insert outer ∅⟩ := by
    rw [touch, line_of_get?_eq_none hnew]
  have hfilled : line.entries.foldl IdMap.accrue ∅ =
      line.map fun weight => Number.narrow (0.0 + weight) := by
    refine IdMap.ext ((IdMap.entries_foldl_accrue ?_).trans (List.nil_append _))
    exact line.distinct
  rw [htouch, hmade, foldl_add_insert, hfilled]
  exact IdMap.entries_insert_of_get?_eq_none hnew _

theorem toList_eq_flatMap (v : View) : v.toList =
    v.lines.entries.flatMap fun line => line.2.entries.map fun entry => (line.1, entry) := rfl

/-- The entries of lines that are added under new ids become lines at the end. -/
theorem entries_addAll_lines {lines : List (Int × IdMap Float)}
    (hnew : (v.lines.keys ++ lines.map Prod.fst).Nodup)
    (hlines : ∀ line ∈ lines, line.2.isEmpty = false) :
    (v.addAll (lines.flatMap fun line =>
        line.2.entries.map fun entry => (line.1, entry))).lines.entries =
      v.lines.entries ++ lines.map fun line =>
        (line.1, line.2.map fun weight => Number.narrow (0.0 + weight)) := by
  induction lines generalizing v with
  | nil => exact (List.append_nil _).symm
  | cons line lines ih =>
      obtain ⟨outer, entries⟩ := line
      have hnone : v.lines.get? outer = none := by
        rw [IdMap.get?_eq_none_iff]
        exact fun hmem => (List.nodup_append.mp hnew).2.2 _ hmem _ List.mem_cons_self rfl
      have hfirst := entries_addAll_line hnone (hlines _ List.mem_cons_self)
      have hkeys : (v.addAll (entries.entries.map fun entry => (outer, entry))).lines.keys =
          v.lines.keys ++ [outer] := by
        rw [IdMap.keys, hfirst, List.map_append]
        rfl
      rw [List.map_cons, List.append_cons, ← hkeys] at hnew
      have hrest := ih hnew fun line hmem => hlines line (List.mem_cons_of_mem _ hmem)
      rw [List.flatMap_cons, addAll, List.foldl_append]
      refine hrest.trans ?_
      rw [hfirst, List.map_cons, List.append_assoc, List.singleton_append]

/-- A view with every weight replaced by its image. -/
def mapWeights (f : Float → Float) (v : View) : View := ⟨v.lines.map fun line => line.map f⟩

theorem lines_get?_mapWeights (f : Float → Float) (v : View) (outer : Int) :
    (v.mapWeights f).lines.get? outer = (v.lines.get? outer).map fun line => line.map f :=
  IdMap.get?_map _ v.lines outer

theorem get?_mapWeights (f : Float → Float) (v : View) (outer inner : Int) :
    (v.mapWeights f).get? outer inner = (v.get? outer inner).map f := by
  rw [get?, get?, lines_get?_mapWeights]
  cases v.lines.get? outer with
  | none => rfl
  | some line => exact IdMap.get?_map f line inner

theorem toList_mapWeights (f : Float → Float) (v : View) :
    (v.mapWeights f).toList = v.toList.map fun entry => (entry.1, entry.2.1, f entry.2.2) := by
  rw [toList_eq_flatMap, toList_eq_flatMap, mapWeights, IdMap.map, List.flatMap_map,
    List.map_flatMap]
  refine List.flatMap_congr fun line _ => ?_
  rw [IdMap.map, List.map_map, List.map_map]
  rfl

theorem mapWeights_mapWeights (g f : Float → Float) (v : View) :
    (v.mapWeights f).mapWeights g = v.mapWeights fun weight => g (f weight) := by
  rw [mapWeights, mapWeights, mapWeights, IdMap.map_map]
  simp only [IdMap.map_map]

theorem mapWeights_congr {f g : Float → Float}
    (h : ∀ outer inner weight, v.get? outer inner = some weight → f weight = g weight) :
    v.mapWeights f = v.mapWeights g := by
  refine View.ext (IdMap.map_congr fun outer line hline => ?_)
  refine IdMap.map_congr fun inner weight hweight => ?_
  exact h outer inner weight ((get?_of_lines_get? hline).trans hweight)

/-- **What a list of entries is built into.**  Every line is put where it was, and every weight
is added to nothing. -/
theorem addAll_toList (h : v.Tidy) :
    addAll ∅ v.toList = v.mapWeights fun weight => Number.narrow (0.0 + weight) := by
  refine View.ext (IdMap.ext ((entries_addAll_lines ?_ ?_).trans (List.nil_append _)))
  · exact v.lines.distinct
  · rintro ⟨outer, line⟩ hmem
    exact h outer line (IdMap.mem_entries_iff.mp hmem)

/-- A view as changes keep it is built again but for the signs of its zeros. -/
theorem WellFormed.addAll_toList (h : v.WellFormed) :
    addAll ∅ v.toList = v.mapWeights Number.unsigned := by
  rw [View.addAll_toList h.tidy]
  refine mapWeights_congr fun outer inner weight hweight => ?_
  obtain ⟨x, rfl⟩ := h.narrowed outer inner weight hweight
  exact Number.narrow_zero_add x

/-- Two views with the same lines and the same entries, in whatever order, whose weights count as
the same. -/
def Matches (v w : View) : Prop :=
  ∀ outer, Option.Rel
    (fun line line' => ∀ inner,
      Option.Rel (fun x y => sameWeight x y = true) (line.get? inner) (line'.get? inner))
    (v.lines.get? outer) (w.lines.get? outer)

theorem matches_of_get? (hv : v.Tidy) (hw : w.Tidy) {f : Float → Float}
    (hf : ∀ x, sameWeight x (f x) = true)
    (h : ∀ outer inner, w.get? outer inner = (v.get? outer inner).map f) : v.Matches w := by
  intro outer
  -- In tidy views the weights say which lines there are.
  have hkeys : outer ∈ v.lines.keys ↔ outer ∈ w.lines.keys := by
    simp only [hv.mem_keys_iff, hw.mem_keys_iff, h, Option.map_eq_some_iff]
    constructor
    · rintro ⟨inner, weight, hweight⟩
      exact ⟨inner, f weight, weight, hweight, rfl⟩
    · rintro ⟨inner, _, weight, hweight, _⟩
      exact ⟨inner, weight, hweight⟩
  cases hline : v.lines.get? outer with
  | none =>
      have hnone : w.lines.get? outer = none :=
        IdMap.get?_eq_none_iff.mpr fun hmem => IdMap.get?_eq_none_iff.mp hline (hkeys.mpr hmem)
      rw [hnone]
      exact .none
  | some line =>
      obtain ⟨line', hline'⟩ := IdMap.mem_keys_iff.mp (hkeys.mp (IdMap.mem_keys_iff.mpr ⟨_, hline⟩))
      rw [hline']
      refine .some fun inner => ?_
      rw [← get?_of_lines_get? hline, ← get?_of_lines_get? hline', h]
      cases v.get? outer inner with
      | none => exact .none
      | some weight => exact .some (hf weight)

end View

/-! ## One matrix -/

/-- A weight without the sign of a zero counts as the same weight. -/
theorem sameWeight_unsigned (x : Float) : sameWeight x (Number.unsigned x) = true := by
  unfold Number.unsigned
  cases h : x == 0 with
  | true => rw [if_pos rfl, sameWeight, h, Bool.true_or]
  | false => rw [if_neg Bool.false_ne_true, sameWeight_self]

namespace Association

variable {m again : Association}

/-- The entries of a matrix as they are listed: each is a list of a row id, a column id and a
weight. -/
def exported (m : Association) : List Datum :=
  m.toList.map fun entry => .list [.int entry.1, .int entry.2.1, .float entry.2.2]

/-- What is exported is usable. -/
theorem ofTriples_exported (m : Association) :
    ofTriples (m.exported.map Datum.triple) = .ok (ofList m.toList) := by
  refine ofTriples_eq_ok_iff.mpr ⟨m.toList, ?_, rfl⟩
  rw [exported, List.map_map]
  rfl

theorem rows_ofList (triples : List (Int × Int × Float)) :
    (ofList triples).rows = View.addAll ∅ triples := by
  unfold ofList View.addAll
  have hstart : (∅ : Association).rows = ∅ := rfl
  rw [← hstart]
  generalize (∅ : Association) = start
  induction triples generalizing start with
  | nil => rfl
  | cons triple triples ih => exact ih (start.add triple.1 triple.2.1 triple.2.2)

theorem consistent_ofList (triples : List (Int × Int × Float)) : (ofList triples).Consistent := by
  rw [ofList_eq_run]
  exact consistent_empty.run _

/-- The rows are built again line by line. -/
theorem Consistent.rows_ofList_toList (h : m.Consistent) :
    (ofList m.toList).rows = m.rows.mapWeights Number.unsigned := by
  rw [rows_ofList]
  exact h.rows.addAll_toList

/-- A matrix that lists the entries of another one in the same order, but for the signs of zeros,
has the same sizes and ids, and holds the same weights by row and by column. -/
structure Restores (again m : Association) : Prop where
  toList_eq : again.toList = m.toList.map fun entry =>
    (entry.1, entry.2.1, Number.unsigned entry.2.2)
  sameWeights : List.Forall₂ (fun entry entry' => sameWeight entry.2.2 entry'.2.2 = true)
    m.toList again.toList
  fault?_eq : again.fault? = none
  size_eq : again.size = m.size
  shape_eq : again.shape = m.shape
  rowIds_eq : again.rowIds = m.rowIds
  columnIds_eq : again.columnIds = m.columnIds
  rows : m.rows.Matches again.rows
  columns : m.columns.Matches again.columns

/-- A consistent matrix is restored by one with the same rows, since all that its columns say
besides, but for their order, is said by the rows. -/
theorem Consistent.restores (h : m.Consistent) (hagain : again.Consistent)
    (hrows : again.rows = m.rows.mapWeights Number.unsigned) : Restores again m := by
  have hlist : again.toList = m.toList.map fun entry =>
      (entry.1, entry.2.1, Number.unsigned entry.2.2) := by
    rw [toList, hrows]
    exact View.toList_mapWeights _ _
  have hget : ∀ row column, again.get? row column = (m.get? row column).map Number.unsigned := by
    intro row column
    rw [get?, hrows]
    exact View.get?_mapWeights _ _ _ _
  have hcolumns : ∀ column row, again.columns.get? column row =
      (m.columns.get? column row).map Number.unsigned := by
    intro column row
    rw [← hagain.mirrored, ← h.mirrored]
    exact hget row column
  -- The same pairs of ids have a weight, so all sizes and lists of ids are the same.
  let live := (m.toList.map fun entry => (entry.1, entry.2.1)).toFinset
  have hlive : ∀ row column, (row, column) ∈ live ↔ (m.get? row column).isSome = true :=
    fun _ _ => View.mem_toFinset_toList
  have hreads := h.readsAs hlive
  have hlive' : ∀ row column, (row, column) ∈ live ↔ (again.get? row column).isSome = true := by
    intro row column
    rw [hlive, hget, Option.isSome_map]
  have hreads' := hagain.readsAs hlive'
  exact
    { toList_eq := hlist
      sameWeights := by
        rw [hlist, List.forall₂_map_right_iff]
        exact List.forall₂_same.mpr fun entry _ => sameWeight_unsigned entry.2.2
      fault?_eq := hagain.fault?_eq_none
      size_eq := hreads'.size.trans hreads.size.symm
      shape_eq := hreads'.shape.trans hreads.shape.symm
      rowIds_eq := hreads'.rowIds.unique hreads.rowIds
      columnIds_eq := hreads'.columnIds.unique hreads.columnIds
      rows := View.matches_of_get? h.rows.tidy hagain.rows.tidy sameWeight_unsigned hget
      columns := View.matches_of_get? h.columns.tidy hagain.columns.tidy sameWeight_unsigned
        hcolumns }

/-- **What a matrix lists can be read back.**  After any changes a matrix is built from the
entries that are listed.  It lists the same pairs of ids in the same order, with weights that
count as the same, and everything else that is read from it is the same as well.  Building one
from the entries of this one does not even change the sign of a zero or the order of a row. -/
theorem exists_ofTriples_exported (steps : List Step) :
    let m := (∅ : Association).run steps
    ∃ again, ofTriples (m.exported.map Datum.triple) = .ok again ∧ Restores again m ∧
      ∃ third, ofTriples (again.exported.map Datum.triple) = .ok third ∧
        third.rows = again.rows := by
  intro m
  have hconsistent : m.Consistent := consistent_empty.run steps
  have hagain : (ofList m.toList).Consistent := consistent_ofList _
  have hrows := hconsistent.rows_ofList_toList
  refine ⟨_, ofTriples_exported m, hconsistent.restores hagain hrows, _, ofTriples_exported _, ?_⟩
  rw [hagain.rows_ofList_toList, hrows, View.mapWeights_mapWeights]
  simp only [Number.unsigned_unsigned]

/-- The columns do not keep their order: row 2 was in column 10 before row 1, and comes after
it. -/
example :
    let m := (∅ : Association).run [.add 1 20 0.5, .add 2 10 1.5, .add 1 10 (-0.0)]
    (m.column 10).keys = [2, 1] ∧ ((ofList m.toList).column 10).keys = [1, 2] :=
  ⟨rfl, rfl⟩

end Association

end LeastSquares

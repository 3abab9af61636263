import LeastSquares.Association.Agreement
import LeastSquares.Proofs.Association.Lines

/-!
# The two views stay consistent

A matrix is `Consistent` when its views hold the same weights, each view is well
formed, and every weight has been narrowed.  The two views are written one after
the other, and each of them creates and drops lines on its own; what keeps them
together is that the weight written to one view is computed from the weight that
the other view has at the same place (`Consistent.add`).

`View.fault?_of_mirrored` says what the search for faults finds in a view whose
weights all stand in the other one: the first line without entries, and nothing
else.  A consistent matrix has no such line.

The main result is `consistent_run`: from the empty matrix, or from any matrix that
was built of triples, every sequence of changes leads to a consistent matrix, and no
fault is found in it.
-/

namespace LeastSquares

/-! ## Well-formed views -/

namespace View

/-- A view as changes keep it: no id has two lines or occurs twice in a line, no line is empty,
and every weight is the result of a narrowing. -/
structure WellFormed (v : View) : Prop where
  nodup_keys : v.lines.keys.Nodup
  nodup_line_keys : ∀ outer entries, v.lines.get? outer = some entries → entries.keys.Nodup
  tidy : v.Tidy
  narrowed : ∀ outer inner weight, v.get? outer inner = some weight →
    ∃ x, weight = Number.narrow x

variable {v : View}

theorem wellFormed_empty : WellFormed ∅ where
  nodup_keys := IdMap.keys_nodup _
  nodup_line_keys _ _ _ := IdMap.keys_nodup _
  tidy := tidy_empty
  narrowed := by simp

theorem WellFormed.add (h : v.WellFormed) (outer inner : Int) (amount : Float) :
    (v.add outer inner amount).WellFormed where
  nodup_keys := IdMap.keys_nodup _
  nodup_line_keys _ _ _ := IdMap.keys_nodup _
  tidy := h.tidy.add outer inner amount
  narrowed := by
    intro r c weight hweight
    rw [get?_add] at hweight
    split at hweight
    · exact ⟨_, (Option.some_inj.mp hweight).symm⟩
    · exact h.narrowed r c weight hweight

theorem WellFormed.erase (h : v.WellFormed) (outer inner : Int) :
    (v.erase outer inner).WellFormed where
  nodup_keys := IdMap.keys_nodup _
  nodup_line_keys _ _ _ := IdMap.keys_nodup _
  tidy := h.tidy.erase outer inner
  narrowed := by
    intro r c weight hweight
    rw [get?_erase] at hweight
    split at hweight
    · simp at hweight
    · exact h.narrowed r c weight hweight

/-! ## The search for faults -/

theorem findSome?_eq_map_find? {α β : Type*} {f : α → Option β} {p : α → Bool} {g : α → β}
    {l : List α} (h : ∀ x ∈ l, f x = if p x then some (g x) else none) :
    l.findSome? f = (l.find? p).map g := by
  induction l with
  | nil => rfl
  | cons x l ih =>
      have hx := h x List.mem_cons_self
      rw [List.findSome?_cons, List.find?_cons, hx, ih fun y hy => h y (List.mem_cons_of_mem _ hy)]
      cases p x <;> rfl

/-- An entry that stands in the other view as well is no fault. -/
theorem entryFault?_of_get? {other : View} {side : Side} {outer inner : Int} {weight : Float}
    (h : other.get? inner outer = some weight) :
    other.entryFault? side outer inner weight = none := by
  simp only [entryFault?, h, sameWeight_self, if_true]

/-- If all weights stand in the other view as well, the fault that is found is the first
line without entries. -/
theorem fault?_of_mirrored {other : View}
    (h : ∀ outer inner weight, v.get? outer inner = some weight →
      other.get? inner outer = some weight) (side : Side) :
    v.fault? other side =
      (v.lines.keys.find? fun outer => (v.line outer).isEmpty).map (Fault.emptyLine side) := by
  rw [IdMap.keys, List.find?_map, Option.map_map]
  refine findSome?_eq_map_find? ?_
  rintro ⟨outer, entries⟩ hmem
  -- No entry of the line is a fault, so what is left to find is that it has none.
  have hline : v.lines.get? outer = some entries := IdMap.mem_entries_iff.mp hmem
  have hentries : (entries.entries.findSome? fun entry =>
      other.entryFault? side outer entry.1 entry.2) = none := by
    rw [List.findSome?_eq_none_iff]
    rintro ⟨inner, weight⟩ hentry
    refine entryFault?_of_get? (h outer inner weight ?_)
    rw [get?_of_lines_get? hline]
    exact IdMap.mem_entries_iff.mp hentry
  simp only [lineFault?, hentries, Function.comp_apply, line_of_get? hline]

/-- Nor is there an empty line in a tidy view. -/
theorem fault?_eq_none_of_tidy {other : View} (htidy : v.Tidy)
    (h : ∀ outer inner weight, v.get? outer inner = some weight →
      other.get? inner outer = some weight) (side : Side) :
    v.fault? other side = none := by
  rw [fault?_of_mirrored h, Option.map_eq_none_iff, List.find?_eq_none]
  intro outer houter
  obtain ⟨entries, hline⟩ := IdMap.mem_keys_iff.mp houter
  rw [line_of_get? hline, htidy outer entries hline]
  exact Bool.false_ne_true

end View

/-! ## Consistent matrices -/

namespace Association

theorem get?_add (m : Association) (row column r c : Int) (amount : Float) :
    (m.add row column amount).get? r c =
      if r = row ∧ c = column then
        some (Number.narrow ((m.get? row column).getD 0.0 + amount))
      else m.get? r c :=
  View.get?_add m.rows row column r c amount

theorem get?_erase (m : Association) (row column r c : Int) :
    (m.erase row column).get? r c =
      if r = row ∧ c = column then none else m.get? r c :=
  View.get?_erase m.rows row column r c

/-- Both views are well formed and hold the same weights, down to the sign of a zero. -/
structure Consistent (m : Association) : Prop where
  rows : m.rows.WellFormed
  columns : m.columns.WellFormed
  mirrored : ∀ row column, m.rows.get? row column = m.columns.get? column row

variable {m : Association}

theorem consistent_empty : Consistent ∅ where
  rows := View.wellFormed_empty
  columns := View.wellFormed_empty
  mirrored _ _ := rfl

theorem Consistent.add (h : m.Consistent) (row column : Int) (amount : Float) :
    (m.add row column amount).Consistent where
  rows := h.rows.add row column amount
  columns := h.columns.add column row amount
  mirrored r c := by
    -- Both views add to the same old weight, so they narrow the same sum.
    have hold := h.mirrored row column
    simp only [Association.add, View.get?_add, hold, h.mirrored r c, and_comm]

theorem Consistent.erase (h : m.Consistent) (row column : Int) :
    (m.erase row column).Consistent where
  rows := h.rows.erase row column
  columns := h.columns.erase column row
  mirrored r c := by
    simp only [Association.erase, View.get?_erase, h.mirrored r c, and_comm]

theorem Consistent.apply (h : m.Consistent) (step : Step) : (m.apply step).Consistent := by
  cases step with
  | add row column amount => exact h.add row column amount
  | erase row column => exact h.erase row column

theorem Consistent.run (h : m.Consistent) (steps : List Step) : (m.run steps).Consistent := by
  induction steps generalizing m with
  | nil => exact h
  | cons step steps ih => exact ih (h.apply step)

/-- No fault is found in a consistent matrix. -/
theorem Consistent.fault?_eq_none (h : m.Consistent) : m.fault? = none := by
  have hrows : m.rows.fault? m.columns .row = none :=
    View.fault?_eq_none_of_tidy h.rows.tidy (fun r c _ hw => (h.mirrored r c).symm.trans hw) .row
  have hcolumns : m.columns.fault? m.rows .column = none :=
    View.fault?_eq_none_of_tidy h.columns.tidy (fun c r _ hw => (h.mirrored r c).trans hw) .column
  rw [fault?, hrows, hcolumns, Option.or_none]

/-- Erasing a pair of ids without a weight does not change a consistent matrix. -/
theorem Consistent.erase_of_get?_eq_none (h : m.Consistent) {row column : Int}
    (hnone : m.get? row column = none) : m.erase row column = m := by
  rw [Association.erase, h.rows.tidy.erase_of_get?_eq_none hnone,
    h.columns.tidy.erase_of_get?_eq_none ((h.mirrored row column).symm.trans hnone)]

/-! ## Matrices of triples -/

/-- Three parts that are all usable. -/
def usableTriple (triple : Int × Int × Float) : Except Failure Triple :=
  .ok (.ok triple.1, .ok triple.2.1, .ok triple.2.2)

/-- The addition that a triple stands for. -/
def Step.ofTriple (triple : Int × Int × Float) : Step := .add triple.1 triple.2.1 triple.2.2

theorem ofList_eq_run (triples : List (Int × Int × Float)) :
    ofList triples = (∅ : Association).run (triples.map Step.ofTriple) := by
  rw [run, List.foldl_map]
  rfl

/-- Adding succeeds for usable arguments only. -/
theorem tryAdd_eq_ok {row column : Except Failure Int} {amount : Except Failure Float}
    (h : (m.tryAdd row column amount).2 = .ok ()) :
    ∃ r c a, row = .ok r ∧ column = .ok c ∧ amount = .ok a := by
  rw [snd_tryAdd] at h
  unfold View.tryAdd at h
  split at h
  · simp at h
  · split at h
    · exact ⟨_, _, _, rfl, rfl, rfl⟩
    · simp at h
    · simp at h

/-- Building succeeds if all triples are usable, and then it is adding one after another. -/
theorem ofTriples_eq_ok_iff {triples : List (Except Failure Triple)} :
    ofTriples triples = .ok m ↔
      ∃ list, triples = list.map usableTriple ∧ m = ofList list := by
  unfold ofTriples ofList
  -- The matrix that the triples are added to changes along the list.
  generalize (∅ : Association) = start
  induction triples generalizing start with
  | nil =>
      rw [List.foldlM_nil]
      constructor
      · intro h
        exact ⟨[], rfl, (Except.ok.inj h).symm⟩
      · rintro ⟨list, hlist, rfl⟩
        rw [List.map_eq_nil_iff.mp hlist.symm]
        rfl
  | cons triple triples ih =>
      rw [List.foldlM_cons]
      constructor
      · intro h
        match triple, h with
        | .ok (row, column, amount), h =>
            cases hadd : (start.tryAdd row column amount).2 with
            | error failure => simp [hadd, Except.map, bind, Except.bind] at h
            | ok u =>
                obtain ⟨r, c, a, rfl, rfl, rfl⟩ := tryAdd_eq_ok hadd
                obtain ⟨list, rfl, rfl⟩ := (ih _).mp h
                exact ⟨(r, c, a) :: list, rfl, rfl⟩
      · rintro ⟨list, hlist, rfl⟩
        cases list with
        | nil => simp at hlist
        | cons entry list =>
            obtain ⟨rfl, rfl⟩ := List.cons.inj hlist
            exact (ih _).mpr ⟨list, rfl, rfl⟩

/-- **Changes keep the two views consistent.**  The sequence of changes starts from the empty
matrix or from one that was built of triples. -/
theorem consistent_run {start : Association}
    (hstart : start = ∅ ∨ ∃ triples, ofTriples triples = .ok start) (steps : List Step) :
    (start.run steps).Consistent ∧ (start.run steps).fault? = none := by
  have hconsistent : start.Consistent := by
    rcases hstart with rfl | ⟨triples, htriples⟩
    · exact consistent_empty
    · obtain ⟨list, _, rfl⟩ := ofTriples_eq_ok_iff.mp htriples
      rw [ofList_eq_run]
      exact consistent_empty.run _
  exact ⟨hconsistent.run steps, (hconsistent.run steps).fault?_eq_none⟩

/-- A matrix of two triples, a negative zero among them, after its last entry of a row was
removed and stored again as a NaN. -/
theorem consistent_run_negative_zero_and_nan :
    let start := ofList [(1, 10, -0.0), (2, 10, 1e300)]
    let steps := [Step.erase 1 10, .add 1 10 (0.0 / 0.0), .add 3 10 (-0.0), .erase 2 10]
    ofTriples [usableTriple (1, 10, -0.0), usableTriple (2, 10, 1e300)] = .ok start ∧
      (start.run steps).Consistent ∧ (start.run steps).fault? = none :=
  ⟨rfl, consistent_run (.inr ⟨[usableTriple (1, 10, -0.0), usableTriple (2, 10, 1e300)], rfl⟩) _⟩

end Association

end LeastSquares

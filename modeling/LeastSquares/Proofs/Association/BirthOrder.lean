import LeastSquares.Proofs.Association.FlatMap

/-!
# Entries are listed in the order of their births

A matrix does not record when something was stored in it.  Still the order in which it lists
its rows, and the entries of a row, is a function of its history: the order of the changes at
which they were born.  `onsets` are the changes at which a condition on the history comes to
hold, and `birth?` is the last of them.  A row is born with the first entry that it gets when
it has none, so it can be born again and again, and then it is its last birth that counts.

All that has to be known about a change is that each list of ids either loses ids or gets a
new one at its end (`GrowsAtEnd`).  Along a history of such changes the list stays in the order
of births (`inBirthOrder_of_growsAtEnd`): an id that stays keeps its birth, and one that is new
is born later than all the others.  Both levels of both views change in this way
(`View.Changed.keys`, `View.Changed.line_keys`).

The main result is `run_listsByBirth`.
-/

namespace LeastSquares

/-- A list from which ids are lost, or to which a new one is added at its end. -/
def GrowsAtEnd (before after : List Int) : Prop :=
  after.Sublist before ∨ ∃ id, id ∉ before ∧ after = before ++ [id]

/-! ## Births in a history -/

namespace Association

variable {p : List Step → Bool} {steps : List Step} {step : Step}

/-- The changes of a history, counted from zero, at which a condition comes to hold. -/
def onsets (p : List Step → Bool) (steps : List Step) : List ℕ :=
  (List.range steps.length).filter fun i => !p (steps.take i) && p (steps.take (i + 1))

/-- The last change of a history at which a condition came to hold. -/
def birth? (p : List Step → Bool) (steps : List Step) : Option ℕ := (onsets p steps).getLast?

theorem onsets_concat (p : List Step → Bool) (steps : List Step) (step : Step) :
    onsets p (steps ++ [step]) =
      onsets p steps ++ if !p steps && p (steps ++ [step]) then [steps.length] else [] := by
  rw [onsets, List.length_append, List.length_singleton, List.range_succ, List.filter_append]
  have hearlier : ∀ i ∈ List.range steps.length,
      (!p ((steps ++ [step]).take i) && p ((steps ++ [step]).take (i + 1))) =
        (!p (steps.take i) && p (steps.take (i + 1))) := by
    intro i hi
    have hlt := List.mem_range.mp hi
    rw [List.take_append_of_le_length (by omega), List.take_append_of_le_length (by omega)]
  rw [List.filter_congr hearlier, ← onsets]
  have hbefore : (steps ++ [step]).take steps.length = steps := List.take_left
  have hafter : (steps ++ [step]).take (steps.length + 1) = steps ++ [step] := by
    rw [List.take_of_length_le]
    simp
  rw [List.filter_cons, hbefore, hafter, List.filter_nil]

/-- What held already keeps its birth. -/
theorem birth?_concat_of_holds (h : p steps = true) :
    birth? p (steps ++ [step]) = birth? p steps := by
  rw [birth?, onsets_concat, h, Bool.not_true, Bool.false_and, if_neg Bool.false_ne_true,
    List.append_nil, birth?]

/-- What comes to hold is born. -/
theorem birth?_concat_of_onset (h : p steps = false) (h' : p (steps ++ [step]) = true) :
    birth? p (steps ++ [step]) = some steps.length := by
  rw [birth?, onsets_concat, h, h', Bool.not_false, Bool.true_and, if_pos rfl,
    List.getLast?_concat]

theorem lt_length_of_birth? {i : ℕ} (h : birth? p steps = some i) : i < steps.length :=
  List.mem_range.mp (List.mem_filter.mp (List.mem_of_getLast? h)).1

/-! ## Lists in the order of births -/

variable {present : Int → List Step → Bool} {ids ids' : List Int}

/-- A list of the ids that are present after a history, in the order of their births. -/
structure InBirthOrder (present : Int → List Step → Bool) (steps : List Step)
    (ids : List Int) : Prop where
  mem_iff : ∀ id, id ∈ ids ↔ present id steps = true
  born : ∀ id ∈ ids, ∃ i, birth? (present id) steps = some i
  ascending : ids.Pairwise fun id id' =>
    ∃ i i', birth? (present id) steps = some i ∧ birth? (present id') steps = some i' ∧ i < i'

/-- One more change. -/
theorem InBirthOrder.concat (h : InBirthOrder present steps ids) (hgrows : GrowsAtEnd ids ids')
    (hmem : ∀ id, id ∈ ids' ↔ present id (steps ++ [step]) = true) :
    InBirthOrder present (steps ++ [step]) ids' := by
  have hkept : ∀ id ∈ ids,
      birth? (present id) (steps ++ [step]) = birth? (present id) steps := by
    intro id hid
    exact birth?_concat_of_holds ((h.mem_iff id).mp hid)
  have hborn : ∀ id ∈ ids, ∃ i, birth? (present id) (steps ++ [step]) = some i := by
    intro id hid
    rw [hkept id hid]
    exact h.born id hid
  have hascending : ids.Pairwise fun id id' => ∃ i i',
      birth? (present id) (steps ++ [step]) = some i ∧
        birth? (present id') (steps ++ [step]) = some i' ∧ i < i' := by
    refine h.ascending.imp_of_mem fun {id id'} hid hid' hlt => ?_
    rw [hkept id hid, hkept id' hid']
    exact hlt
  rcases hgrows with hlost | ⟨new, hnew, rfl⟩
  · exact ⟨hmem, fun id hid => hborn id (hlost.subset hid), hascending.sublist hlost⟩
  · have habsent : present new steps = false := by
      rw [← Bool.not_eq_true, ← h.mem_iff]
      exact hnew
    have hpresent : present new (steps ++ [step]) = true :=
      (hmem new).mp (List.mem_append_right _ (List.mem_singleton_self new))
    have hbirth := birth?_concat_of_onset habsent hpresent
    refine ⟨hmem, ?_, ?_⟩
    · intro id hid
      rcases List.mem_append.mp hid with hold | hlast
      · exact hborn id hold
      · rw [List.mem_singleton.mp hlast]
        exact ⟨_, hbirth⟩
    · refine List.pairwise_append.mpr ⟨hascending, List.pairwise_singleton _ _, ?_⟩
      intro id hid last hlast
      rw [List.mem_singleton.mp hlast]
      -- The old one was born at an earlier change, since there was no later one.
      obtain ⟨i, hi⟩ := h.born id hid
      exact ⟨i, steps.length, (hkept id hid).trans hi, hbirth, lt_length_of_birth? hi⟩

/-- A list that starts without ids and grows at its end only stays in the order of births. -/
theorem inBirthOrder_of_growsAtEnd (ids : List Step → List Int) (hstart : ids [] = [])
    (hgrows : ∀ steps step, GrowsAtEnd (ids steps) (ids (steps ++ [step])))
    (hmem : ∀ steps id, id ∈ ids steps ↔ present id steps = true) (steps : List Step) :
    InBirthOrder present steps (ids steps) := by
  induction steps using List.reverseRecOn with
  | nil =>
      refine ⟨hmem [], ?_, ?_⟩
      · simp [hstart]
      · simp [hstart]
  | append_singleton steps step ih => exact ih.concat (hgrows steps step) (hmem _)

end Association

/-! ## How a view changes -/

namespace IdMap

variable {α : Type*}

theorem growsAtEnd_insert (m : IdMap α) (id : Int) (value : α) :
    GrowsAtEnd m.keys (m.insert id value).keys := by
  by_cases h : id ∈ m.keys
  · rw [keys_insert_of_mem h]
    exact Or.inl (List.Sublist.refl _)
  · exact Or.inr ⟨id, h, keys_insert_of_notMem h value⟩

theorem growsAtEnd_erase (m : IdMap α) (id : Int) :
    GrowsAtEnd m.keys (m.erase id).keys := by
  rw [keys_erase]
  exact Or.inl List.filter_sublist

end IdMap

namespace View

variable {v v' : View}

/-- A view after one change. -/
inductive Changed (v : View) : View → Prop
  /-- An amount is added. -/
  | add (outer inner : Int) (amount : Float) : Changed v (v.add outer inner amount)
  /-- An entry is removed. -/
  | erase (outer inner : Int) : Changed v (v.erase outer inner)

theorem Changed.keys (h : v.Changed v') :
    GrowsAtEnd v.lines.keys v'.lines.keys := by
  cases h with
  | add outer inner amount => exact v.lines.growsAtEnd_insert outer _
  | erase outer inner =>
      unfold View.erase
      cases hline : v.lines.get? outer with
      | none => exact Or.inl (List.Sublist.refl _)
      | some entries =>
          cases hempty : (entries.erase inner).isEmpty with
          | true => simpa [hempty] using v.lines.growsAtEnd_erase outer
          | false => simpa [hempty] using v.lines.growsAtEnd_insert outer (entries.erase inner)

theorem Changed.line_keys (h : v.Changed v') (outer : Int) :
    GrowsAtEnd (v.line outer).keys (v'.line outer).keys := by
  have hsame : GrowsAtEnd (v.line outer).keys (v.line outer).keys :=
    Or.inl (List.Sublist.refl _)
  cases h with
  | add o inner amount =>
      rw [line_add]
      split_ifs with ho
      · rw [ho]
        exact IdMap.growsAtEnd_insert _ inner _
      · exact hsame
  | erase o inner =>
      rw [line_erase]
      split_ifs with ho
      · rw [ho]
        exact IdMap.growsAtEnd_erase _ inner
      · exact hsame

/-- The pairs of ids of the entries, as they are listed. -/
def pairs (v : View) : List (Int × Int) := v.toList.map fun entry => (entry.1, entry.2.1)

theorem pairs_eq (v : View) :
    v.pairs = v.lines.keys.flatMap fun outer =>
      (v.line outer).keys.map fun inner => (outer, inner) := by
  rw [pairs, toList, List.map_flatMap, IdMap.keys, List.flatMap_map]
  refine List.flatMap_congr ?_
  rintro ⟨outer, entries⟩ hmem
  rw [line_of_get? (IdMap.mem_entries_iff.mp hmem), IdMap.keys, List.map_map, List.map_map]
  rfl

/-! ## What adding does to the order -/

theorem mem_keys_of_mem_line_keys {outer inner : Int} (h : inner ∈ (v.line outer).keys) :
    outer ∈ v.lines.keys := by
  by_contra hnone
  rw [line_of_get?_eq_none (IdMap.get?_eq_none_iff.mpr hnone)] at h
  simp at h

/-- Adding to an entry that is there moves nothing. -/
theorem pairs_add_of_mem {outer inner : Int} (h : inner ∈ (v.line outer).keys)
    (amount : Float) : (v.add outer inner amount).pairs = v.pairs := by
  have hkeys : (v.add outer inner amount).lines.keys = v.lines.keys :=
    IdMap.keys_insert_of_mem (mem_keys_of_mem_line_keys h) _
  have hline : ∀ id, ((v.add outer inner amount).line id).keys = (v.line id).keys := by
    intro id
    rw [line_add]
    split_ifs with hid
    · rw [hid, IdMap.keys_insert_of_mem h]
    · rfl
  rw [pairs_eq, pairs_eq, hkeys]
  simp only [hline]

theorem line_keys_add_of_notMem {outer inner : Int} (h : inner ∉ (v.line outer).keys)
    (amount : Float) :
    ((v.add outer inner amount).line outer).keys = (v.line outer).keys ++ [inner] := by
  rw [line_add, if_pos rfl, IdMap.keys_insert_of_notMem h]

theorem keys_add_of_notMem {outer : Int} (h : outer ∉ v.lines.keys) (inner : Int)
    (amount : Float) : (v.add outer inner amount).lines.keys = v.lines.keys ++ [outer] :=
  IdMap.keys_insert_of_notMem h _

end View

/-! ## The order of a matrix -/

namespace Association

variable {steps : List Step} {row column : Int}

/-- Whether a pair of ids has an entry after a history. -/
def cellLive (row column : Int) (steps : List Step) : Bool :=
  decide ((row, column) ∈ liveCells steps)

/-- Whether a row has an entry after a history. -/
def rowLive (row : Int) (steps : List Step) : Bool :=
  decide (row ∈ (liveCells steps).image Prod.fst)

/-- Whether a column has an entry after a history. -/
def columnLive (column : Int) (steps : List Step) : Bool :=
  decide (column ∈ (liveCells steps).image Prod.snd)

/-- A view lists its lines, and the entries of each line, in the order of their births.  `line`
and `entry` say which of them there are after a history. -/
structure ListsByBirth (steps : List Step) (v : View) (line : Int → List Step → Bool)
    (entry : Int → Int → List Step → Bool) : Prop where
  lines : InBirthOrder line steps v.lines.keys
  entries : ∀ outer, InBirthOrder (entry outer) steps (v.line outer).keys
  pairs : v.toList.map (fun entry => (entry.1, entry.2.1)) =
    v.lines.keys.flatMap fun outer => (v.line outer).keys.map fun inner => (outer, inner)

/-- A view that changes with its history lists by birth. -/
theorem listsByBirth_of_changed (view : List Step → View) {line : Int → List Step → Bool}
    {entry : Int → Int → List Step → Bool} (hstart : view [] = ∅)
    (hchanged : ∀ steps step, (view steps).Changed (view (steps ++ [step])))
    (hline : ∀ steps outer, outer ∈ (view steps).lines.keys ↔ line outer steps = true)
    (hentry : ∀ steps outer inner,
      inner ∈ ((view steps).line outer).keys ↔ entry outer inner steps = true)
    (steps : List Step) : ListsByBirth steps (view steps) line entry where
  lines := inBirthOrder_of_growsAtEnd (fun steps => (view steps).lines.keys)
    (by rw [hstart]; rfl) (fun steps step => (hchanged steps step).keys) hline steps
  entries outer := inBirthOrder_of_growsAtEnd (fun steps => ((view steps).line outer).keys)
    (by rw [hstart]; rfl) (fun steps step => (hchanged steps step).line_keys outer)
    (fun steps inner => hentry steps outer inner) steps
  pairs := View.pairs_eq _

theorem changed_rows_apply (m : Association) (step : Step) :
    m.rows.Changed (m.apply step).rows := by
  cases step with
  | add row column amount => exact .add row column amount
  | erase row column => exact .erase row column

theorem changed_columns_apply (m : Association) (step : Step) :
    m.columns.Changed (m.apply step).columns := by
  cases step with
  | add row column amount => exact .add column row amount
  | erase row column => exact .erase column row

theorem mem_row_keys_iff :
    column ∈ (((∅ : Association).run steps).row row).keys ↔ cellLive row column steps = true := by
  rw [cellLive, decide_eq_true_iff, mem_liveCells, ← get?_run, Option.isSome_iff_exists,
    IdMap.mem_keys_iff, Association.row, View.line_get?]
  rfl

theorem mem_column_keys_iff :
    row ∈ (((∅ : Association).run steps).column column).keys ↔
      cellLive row column steps = true := by
  rw [← mem_row_keys_iff, IdMap.mem_keys_iff, IdMap.mem_keys_iff, Association.row,
    Association.column, View.line_get?, View.line_get?, (consistent_empty.run steps).mirrored]

theorem mem_rows_keys_iff :
    row ∈ ((∅ : Association).run steps).rows.lines.keys ↔ rowLive row steps = true := by
  have htidy := (consistent_empty.run steps).rows.tidy
  rw [rowLive, decide_eq_true_iff]
  refine htidy.mem_keys_iff_mem_image fun outer inner => ?_
  rw [mem_liveCells, ← get?_run]
  rfl

theorem mem_columns_keys_iff :
    column ∈ ((∅ : Association).run steps).columns.lines.keys ↔
      columnLive column steps = true := by
  have htidy := (consistent_empty.run steps).columns.tidy
  rw [columnLive, decide_eq_true_iff, htidy.mem_keys_iff, Finset.mem_image]
  have hweight : ∀ row, (∃ weight,
      ((∅ : Association).run steps).columns.get? column row = some weight) ↔
        (row, column) ∈ liveCells steps := by
    intro row
    rw [← (consistent_empty.run steps).mirrored, mem_liveCells, ← get?_run,
      Option.isSome_iff_exists]
    rfl
  simp only [hweight, Prod.exists, exists_eq_right]

/-- **Entries are listed in the order of their births.**  After every sequence of changes of the
empty matrix the rows are listed by the change at which each of them last got a first entry, and
the entries of a row by the change at which each of them was last stored anew.  The view by
column is listed in the same way.  Adding to an entry moves nothing, and what is not there when
something is added to it goes last, whether it was there before or not. -/
theorem run_listsByBirth (steps : List Step) :
    ListsByBirth steps ((∅ : Association).run steps).rows rowLive cellLive ∧
      ListsByBirth steps ((∅ : Association).run steps).columns columnLive
        (fun column row => cellLive row column) ∧
      ∀ (row column : Int) (amount : Float),
        let m := (∅ : Association).run steps
        let m' := (∅ : Association).run (steps ++ [.add row column amount])
        (cellLive row column steps = true →
          m'.rows.pairs = m.rows.pairs ∧ m'.columns.pairs = m.columns.pairs) ∧
          (cellLive row column steps = false →
            (m'.row row).keys = (m.row row).keys ++ [column] ∧
              (m'.column column).keys = (m.column column).keys ++ [row]) ∧
          (rowLive row steps = false → m'.rows.lines.keys = m.rows.lines.keys ++ [row]) ∧
          (columnLive column steps = false →
            m'.columns.lines.keys = m.columns.lines.keys ++ [column]) := by
  refine ⟨?_, ?_, ?_⟩
  · refine listsByBirth_of_changed (fun steps => ((∅ : Association).run steps).rows) rfl
      (fun steps step => ?_) (fun _ _ => mem_rows_keys_iff) (fun _ _ _ => mem_row_keys_iff) steps
    simp only [run_concat]
    exact changed_rows_apply _ step
  · refine listsByBirth_of_changed (fun steps => ((∅ : Association).run steps).columns) rfl
      (fun steps step => ?_) (fun _ _ => mem_columns_keys_iff)
      (fun _ _ _ => mem_column_keys_iff) steps
    simp only [run_concat]
    exact changed_columns_apply _ step
  · intro row column amount m m'
    have hstep : m' = m.add row column amount := run_concat ∅ steps (.add row column amount)
    rw [hstep]
    refine ⟨fun hlive => ?_, fun hlive => ?_, fun hlive => ?_, fun hlive => ?_⟩
    · exact ⟨View.pairs_add_of_mem (mem_row_keys_iff.mpr hlive) amount,
        View.pairs_add_of_mem (mem_column_keys_iff.mpr hlive) amount⟩
    · have hdead : ¬ cellLive row column steps = true := Bool.not_eq_true _ ▸ hlive
      exact ⟨View.line_keys_add_of_notMem (mt mem_row_keys_iff.mp hdead) amount,
        View.line_keys_add_of_notMem (mt mem_column_keys_iff.mp hdead) amount⟩
    · have hdead : ¬ rowLive row steps = true := Bool.not_eq_true _ ▸ hlive
      exact View.keys_add_of_notMem (mt mem_rows_keys_iff.mp hdead) column amount
    · have hdead : ¬ columnLive column steps = true := Bool.not_eq_true _ ▸ hlive
      exact View.keys_add_of_notMem (mt mem_columns_keys_iff.mp hdead) row amount

/-- The row that was stored first lost its only entry and was born again, and so was the first
entry of the other row, which kept its place because it had a second one.  Column 10 was never
without an entry. -/
theorem run_listsByBirth_born_again :
    let steps := [Step.add 1 10 0.5, .add 2 10 1, .add 2 20 1, .erase 2 10, .add 2 10 4,
      .erase 1 10, .add 1 10 2]
    let m := (∅ : Association).run steps
    let moved := (∅ : Association).run (steps ++ [.add 2 20 (-1)])
    let next := (∅ : Association).run (steps ++ [.add 3 30 1])
    ListsByBirth steps m.rows rowLive cellLive ∧
      ListsByBirth steps m.columns columnLive (fun column row => cellLive row column) ∧
      m.rows.lines.keys = [2, 1] ∧ [2, 1].map (fun row => birth? (rowLive row) steps) =
        [some 1, some 6] ∧
      (m.row 2).keys = [20, 10] ∧ [20, 10].map (fun column => birth? (cellLive 2 column) steps) =
        [some 2, some 4] ∧
      m.columns.lines.keys = [10, 20] ∧ birth? (columnLive 10) steps = some 0 ∧
      moved.rows.pairs = m.rows.pairs ∧
      (next.row 3).keys = (m.row 3).keys ++ [30] ∧
      next.rows.lines.keys = m.rows.lines.keys ++ [3] ∧
      next.columns.lines.keys = m.columns.lines.keys ++ [30] := by
  intro steps m moved next
  obtain ⟨hrows, hcolumns, hadd⟩ := run_listsByBirth steps
  obtain ⟨hmoved, -, -, -⟩ := hadd 2 20 (-1)
  obtain ⟨-, hentry, hrow, hcolumn⟩ := hadd 3 30 1
  exact ⟨hrows, hcolumns, by decide, by decide, by decide, by decide, by decide, by decide,
    (hmoved (by decide)).1, (hentry (by decide)).1, hrow (by decide), hcolumn (by decide)⟩

end Association

end LeastSquares

import LeastSquares.Association.View
import Mathlib.Data.List.Nodup
import Mathlib.Data.List.Perm.Basic

/-!
# A view, line by line

What a change does to one view, stated on the lines: `lines_get?_add` and
`lines_get?_erase` say all that `add` and `erase` do to the line of every id, and
everything else about a changed view follows from them.

A view is *tidy* when each of its lines has an entry.  Both kinds of change keep a
view tidy, and in a tidy view an id has a line exactly when there is a weight under
it (`Tidy.mem_keys_iff`).

`mem_toList` and `nodup_map_toList` describe the list of all entries: it has every
weight of the view at its pair of ids, and no pair of ids twice.
-/

namespace LeastSquares

/-! ## Maps -/

namespace IdMap

variable {α : Type*} {m : IdMap α} {id : Int} {value : α}

/-- The entries are the pairs of an id and its value. -/
theorem mem_entries_iff : (id, value) ∈ m.entries ↔ m.get? id = some value :=
  (lookup_eq_some_iff_mem m.distinct).symm

theorem mem_sorted_iff : (id, value) ∈ m.sorted ↔ m.get? id = some value :=
  List.mem_mergeSort.trans mem_entries_iff

theorem mem_keys_iff : id ∈ m.keys ↔ ∃ value, m.get? id = some value := by
  rw [← not_iff_not, ← get?_eq_none_iff, ← Option.not_isSome_iff_eq_none, Option.isSome_iff_exists]

theorem isEmpty_eq_false_iff : m.isEmpty = false ↔ ∃ id value, m.get? id = some value := by
  constructor
  · intro h
    obtain ⟨⟨id, value⟩, hmem⟩ := List.exists_mem_of_ne_nil m.entries fun hnil => by
      simp [isEmpty, hnil] at h
    exact ⟨id, value, mem_entries_iff.mp hmem⟩
  · rintro ⟨id, value, h⟩
    rw [← Bool.not_eq_true]
    intro hempty
    rw [isEmpty_iff.mp hempty] at h
    simp at h

theorem isEmpty_insert (m : IdMap α) (id : Int) (value : α) :
    (m.insert id value).isEmpty = false :=
  isEmpty_eq_false_iff.mpr ⟨id, value, by rw [get?_insert, if_pos rfl]⟩

theorem insertEntry_of_lookup {l : List (Int × α)} (h : l.lookup id = some value) :
    insertEntry id value l = l := by
  induction l with
  | nil => simp at h
  | cons entry rest ih =>
      obtain ⟨k, v⟩ := entry
      rw [lookup_cons_eq_ite] at h
      by_cases hk : id = k
      · rw [if_pos hk] at h
        rw [insertEntry, if_pos hk.symm, ← Option.some_inj.mp h, hk]
      · rw [if_neg hk] at h
        rw [insertEntry, if_neg (Ne.symm hk), ih h]

/-- Writing a value that is there already changes nothing. -/
theorem insert_of_get?_eq_some (h : m.get? id = some value) : m.insert id value = m :=
  ext (insertEntry_of_lookup h)

/-- Erasing an id that is not there changes nothing. -/
theorem erase_of_get?_eq_none (h : m.get? id = none) : m.erase id = m := by
  refine ext (List.filter_eq_self.mpr ?_)
  intro entry hentry
  rw [decide_eq_true_eq]
  rintro rfl
  exact get?_eq_none_iff.mp h (List.mem_map.mpr ⟨entry, hentry, rfl⟩)

end IdMap

/-! ## Lines -/

namespace View

variable {v : View}

theorem line_of_get? {outer : Int} {entries : IdMap Float} (h : v.lines.get? outer = some entries) :
    v.line outer = entries := by
  rw [line, h, Option.getD_some]

theorem line_of_get?_eq_none {outer : Int} (h : v.lines.get? outer = none) :
    v.line outer = ∅ := by
  rw [line, h, Option.getD_none]

theorem get?_of_lines_get? {outer inner : Int} {entries : IdMap Float}
    (h : v.lines.get? outer = some entries) : v.get? outer inner = entries.get? inner := by
  rw [get?, h, Option.bind_some]

/-- What adding does to the line of an id. -/
theorem lines_get?_add (v : View) (outer inner id : Int) (amount : Float) :
    (v.add outer inner amount).lines.get? id =
      if id = outer then
        some ((v.line outer).insert inner
          (Number.narrow (((v.line outer).get? inner).getD 0.0 + amount)))
      else v.lines.get? id :=
  IdMap.get?_insert v.lines outer id _

/-- What erasing does to the line of an id. -/
theorem lines_get?_erase (v : View) (outer inner id : Int) :
    (v.erase outer inner).lines.get? id =
      if id = outer then
        ((v.lines.get? outer).map fun entries => entries.erase inner).filter
          fun entries => !entries.isEmpty
      else v.lines.get? id := by
  unfold erase
  cases h : v.lines.get? outer with
  | none =>
      simp only [Option.map_none, Option.filter_none]
      split
      · rename_i hid
        rw [hid, h]
      · rfl
  | some entries =>
      simp only [Option.map_some, Option.filter_some]
      cases hempty : (entries.erase inner).isEmpty with
      | true => simp [IdMap.get?_erase]
      | false => simp [IdMap.get?_insert]

theorem line_erase (v : View) (outer inner id : Int) :
    (v.erase outer inner).line id =
      if id = outer then (v.line outer).erase inner else v.line id := by
  simp only [line, lines_get?_erase]
  by_cases hid : id = outer
  · rw [if_pos hid, if_pos hid]
    cases h : v.lines.get? outer with
    | none => rfl
    | some entries =>
        rw [Option.map_some, Option.filter_some, Option.getD_some]
        cases hempty : (entries.erase inner).isEmpty with
        | true => exact (IdMap.isEmpty_iff.mp hempty).symm
        | false => rfl
  · rw [if_neg hid, if_neg hid]

theorem get?_erase (v : View) (outer inner r c : Int) :
    (v.erase outer inner).get? r c = if r = outer ∧ c = inner then none else v.get? r c := by
  rw [← line_get?, ← line_get?, line_erase]
  by_cases hr : r = outer
  · rw [if_pos hr, IdMap.get?_erase, hr]
    by_cases hc : c = inner <;> simp [hc]
  · rw [if_neg hr, if_neg fun h => hr h.1]

theorem isEmpty_line_iff {outer : Int} :
    (v.line outer).isEmpty = true ↔ ∀ inner, v.get? outer inner = none := by
  rw [← Bool.not_eq_false, IdMap.isEmpty_eq_false_iff]
  simp only [not_exists, line_get?, ← Option.not_isSome_iff_eq_none, Option.isSome_iff_exists]

/-- Erasing a pair of ids without a weight does nothing, unless it drops an empty line. -/
theorem erase_of_get?_eq_none {outer inner : Int} (hline : v.lines.get? outer ≠ some ∅)
    (hnone : v.get? outer inner = none) : v.erase outer inner = v := by
  unfold View.erase
  cases hentries : v.lines.get? outer with
  | none => rfl
  | some entries =>
      rw [get?_of_lines_get? hentries] at hnone
      have hkept : entries.isEmpty = false := by
        rw [← Bool.not_eq_true, IdMap.isEmpty_iff]
        rintro rfl
        exact hline hentries
      simp only [IdMap.erase_of_get?_eq_none hnone, hkept, IdMap.insert_of_get?_eq_some hentries,
        Bool.false_eq_true, if_false]

/-! ## Tidy views -/

/-- Every line has an entry. -/
def Tidy (v : View) : Prop :=
  ∀ outer entries, v.lines.get? outer = some entries → entries.isEmpty = false

theorem tidy_iff : v.Tidy ↔ ∀ outer, v.lines.get? outer ≠ some ∅ := by
  constructor
  · intro h outer hline
    exact absurd (h outer ∅ hline) (by decide)
  · intro h outer entries hline
    rw [← Bool.not_eq_true, IdMap.isEmpty_iff]
    rintro rfl
    exact h outer hline

theorem tidy_empty : Tidy ∅ := by
  intro outer entries h
  exact absurd h (by simp [show (∅ : View).lines = ∅ from rfl])

theorem Tidy.add (h : v.Tidy) (outer inner : Int) (amount : Float) :
    (v.add outer inner amount).Tidy := by
  intro id entries hid
  rw [lines_get?_add] at hid
  split at hid
  · obtain rfl := Option.some_inj.mp hid
    exact IdMap.isEmpty_insert _ _ _
  · exact h id entries hid

theorem Tidy.erase (h : v.Tidy) (outer inner : Int) : (v.erase outer inner).Tidy := by
  intro id entries hid
  rw [lines_get?_erase] at hid
  split at hid
  · obtain ⟨_, hkept⟩ := Option.filter_eq_some_iff.mp hid
    simpa using hkept
  · exact h id entries hid

/-- In a tidy view the ids with a line are those with a weight. -/
theorem Tidy.mem_keys_iff (h : v.Tidy) {outer : Int} :
    outer ∈ v.lines.keys ↔ ∃ inner weight, v.get? outer inner = some weight := by
  rw [IdMap.mem_keys_iff]
  constructor
  · rintro ⟨entries, hentries⟩
    obtain ⟨inner, weight, hweight⟩ := IdMap.isEmpty_eq_false_iff.mp (h outer entries hentries)
    exact ⟨inner, weight, (get?_of_lines_get? hentries).trans hweight⟩
  · rintro ⟨inner, weight, hweight⟩
    obtain ⟨entries, hentries, _⟩ := Option.bind_eq_some_iff.mp hweight
    exact ⟨entries, hentries⟩

/-- Erasing a pair of ids without a weight does not change a tidy view. -/
theorem Tidy.erase_of_get?_eq_none (h : v.Tidy) {outer inner : Int}
    (hnone : v.get? outer inner = none) : v.erase outer inner = v :=
  View.erase_of_get?_eq_none (tidy_iff.mp h outer) hnone

/-! ## All entries -/

theorem mem_toList {outer inner : Int} {weight : Float} :
    (outer, inner, weight) ∈ v.toList ↔ v.get? outer inner = some weight := by
  rw [toList, List.mem_flatMap]
  constructor
  · rintro ⟨⟨id, entries⟩, hline, hentry⟩
    obtain ⟨⟨i, w⟩, hmem, heq⟩ := List.mem_map.mp hentry
    obtain ⟨rfl, rfl, rfl⟩ : id = outer ∧ i = inner ∧ w = weight := by simpa using heq
    rw [get?_of_lines_get? (IdMap.mem_entries_iff.mp hline)]
    exact IdMap.mem_entries_iff.mp hmem
  · intro h
    obtain ⟨entries, hline, hentry⟩ := Option.bind_eq_some_iff.mp h
    exact ⟨(outer, entries), IdMap.mem_entries_iff.mpr hline,
      List.mem_map.mpr ⟨(inner, weight), IdMap.mem_entries_iff.mpr hentry, rfl⟩⟩

/-- No pair of ids is listed twice. -/
theorem nodup_map_toList (v : View) :
    (v.toList.map fun entry => (entry.1, entry.2.1)).Nodup := by
  have hlist : v.toList.map (fun entry => (entry.1, entry.2.1)) =
      v.lines.entries.flatMap fun line => line.2.keys.map fun inner => (line.1, inner) := by
    simp only [toList, List.map_flatMap, List.map_map, IdMap.keys]
    rfl
  rw [hlist, List.nodup_flatMap]
  refine ⟨?_, ?_⟩
  · rintro ⟨outer, entries⟩ _
    exact entries.keys_nodup.map fun i j h => (Prod.mk.inj h).2
  · refine (List.pairwise_map.mp v.lines.distinct).imp ?_
    rintro ⟨outer, entries⟩ ⟨outer', entries'⟩ hne pair hpair hpair'
    obtain ⟨i, _, rfl⟩ := List.mem_map.mp hpair
    obtain ⟨j, _, heq⟩ := List.mem_map.mp hpair'
    exact hne (Prod.mk.inj heq).1.symm

theorem length_toList (v : View) : v.toList.length = v.size := by
  unfold toList size IdMap.values
  induction v.lines.entries with
  | nil => rfl
  | cons entry rest ih =>
      rw [List.flatMap_cons, List.length_append, List.length_map, ih, List.map_cons,
        List.foldr_cons]
      rfl

end View

end LeastSquares

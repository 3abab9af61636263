import LeastSquares.Proofs.Association.Consistency
import Mathlib.Data.Option.Basic

/-!
# The check finds the first fault

Nothing is assumed about the two views here: they may have been damaged in any way.  A
matrix *agrees* when no line of either view is empty and the views hold the same weights.
`HasFault` says which faults a matrix has, wherever they stand, and `place` says where the
search comes across each of them.

The search stops at the first member of a list with a fault, inside a search of the same
kind.  What is known about a search that stops is `exists_first_of_findSome?`: the members
in front have no fault, so that every other fault is at a later member or at the same one.
This is applied to the lines of a view and to the entries of a line.

Each view is searched for the entries that the other one does not have.  An additional entry
of the column view is therefore met in the second search only, and a difference in both of
them, because the comparison of two weights is symmetric (`sameWeight_comm`).

The main result is `fault?_is_first`.
-/

namespace LeastSquares

/-! ## The first member with an image -/

theorem exists_first_of_findSome? {α β : Type*} (key : α → Int) {φ : α → Option β}
    {l : List α} (hdistinct : (l.map key).Nodup) {b : β} (h : l.findSome? φ = some b) :
    ∃ x ∈ l, φ x = some b ∧ ∀ y ∈ l, φ y ≠ none →
      y = x ∨ (l.map key).idxOf (key x) < (l.map key).idxOf (key y) := by
  induction l with
  | nil => cases h
  | cons z l ih =>
      obtain ⟨hz, hdistinct⟩ := List.nodup_cons.mp hdistinct
      have hlater : ∀ y ∈ l,
          (key z :: l.map key).idxOf (key y) = (l.map key).idxOf (key y) + 1 := by
        intro y hy
        refine List.idxOf_cons_ne _ fun heq => hz ?_
        rw [heq]
        exact List.mem_map_of_mem hy
      cases himage : φ z with
      | some c =>
          rw [List.findSome?_cons, himage] at h
          refine ⟨z, List.mem_cons_self, himage.trans h, fun y hy _ => ?_⟩
          rcases List.mem_cons.mp hy with rfl | hy
          · exact Or.inl rfl
          · right
            rw [List.map_cons, hlater y hy, List.idxOf_cons_self]
            omega
      | none =>
          rw [List.findSome?_cons, himage] at h
          obtain ⟨x, hx, hximage, hfirst⟩ := ih hdistinct h
          refine ⟨x, List.mem_cons_of_mem _ hx, hximage, fun y hy hyimage => ?_⟩
          rcases List.mem_cons.mp hy with rfl | hy
          · exact absurd himage hyimage
          · rw [List.map_cons, hlater x hx, hlater y hy, Nat.add_lt_add_iff_right]
            exact hfirst y hy hyimage

/-- The search through a map finds the value of the first id that has an image. -/
theorem IdMap.exists_first_of_findSome? {α β : Type*} {m : IdMap α} {φ : Int × α → Option β}
    {b : β} (h : m.entries.findSome? φ = some b) :
    ∃ id x, m.get? id = some x ∧ φ (id, x) = some b ∧
      ∀ id' x', m.get? id' = some x' → φ (id', x') ≠ none →
        (id' = id ∧ x' = x) ∨ m.keys.idxOf id < m.keys.idxOf id' := by
  obtain ⟨⟨id, x⟩, hmem, himage, hfirst⟩ :=
    LeastSquares.exists_first_of_findSome? Prod.fst m.distinct h
  refine ⟨id, x, mem_entries_iff.mp hmem, himage, fun id' x' hget himage' => ?_⟩
  rcases hfirst (id', x') (mem_entries_iff.mpr hget) himage' with heq | hlt
  · exact Or.inl (Prod.mk.inj heq)
  · exact Or.inr hlt

/-! ## The faults of a matrix -/

namespace Fault

/-- The view that a fault is in. -/
def side : Fault → Side
  | emptyLine side _ => side
  | missing side _ _ => side
  | differing side _ _ _ _ => side

/-- The line that a fault is in. -/
def outer : Fault → Int
  | emptyLine _ outer => outer
  | missing _ outer _ => outer
  | differing _ outer _ _ _ => outer

/-- Where the search through a line with these ids comes across a fault: that there is no entry is
seen first, and of an entry first whether it is missing. -/
def placeIn (ids : List Int) : Fault → List ℕ
  | emptyLine _ _ => []
  | missing _ _ inner => [ids.idxOf inner, 0]
  | differing _ _ inner _ _ => [ids.idxOf inner, 1]

end Fault

namespace View

/-- The faults of a line of the view `side` against the other view. -/
inductive LineFault (other : View) (side : Side) (outer : Int) (entries : IdMap Float) :
    Fault → Prop
  | emptyLine : entries = ∅ → LineFault other side outer entries (.emptyLine side outer)
  | missing {inner : Int} {weight : Float} : entries.get? inner = some weight →
      other.get? inner outer = none → LineFault other side outer entries (.missing side outer inner)
  | differing {inner : Int} {weight counterpart : Float} : entries.get? inner = some weight →
      other.get? inner outer = some counterpart → ¬ sameWeight counterpart weight →
      LineFault other side outer entries (.differing side outer inner weight counterpart)

variable {v other : View} {side : Side} {outer : Int} {entries : IdMap Float} {f : Fault}

theorem LineFault.side_eq (h : other.LineFault side outer entries f) : f.side = side := by
  cases h <;> rfl

theorem LineFault.outer_eq (h : other.LineFault side outer entries f) : f.outer = outer := by
  cases h <;> rfl

/-! ### One line -/

theorem entryFault?_eq_some_iff {inner : Int} {weight : Float} :
    other.entryFault? side outer inner weight = some f ↔
      (other.get? inner outer = none ∧ f = .missing side outer inner) ∨
      ∃ counterpart, other.get? inner outer = some counterpart ∧
        ¬ sameWeight counterpart weight ∧ f = .differing side outer inner weight counterpart := by
  unfold entryFault?
  cases other.get? inner outer with
  | none => simp [@eq_comm _ f]
  | some counterpart => cases hsame : sameWeight counterpart weight <;> simp [hsame, @eq_comm _ f]

theorem lineFault_of_entryFault? {inner : Int} {weight : Float}
    (hweight : entries.get? inner = some weight)
    (h : other.entryFault? side outer inner weight = some f) :
    other.LineFault side outer entries f := by
  rcases entryFault?_eq_some_iff.mp h with ⟨hnone, rfl⟩ | ⟨counterpart, hsome, hdiffers, rfl⟩
  · exact .missing hweight hnone
  · exact .differing hweight hsome hdiffers

/-- A fault of a line is that it has no entry, or the fault of one of its entries. -/
theorem LineFault.eq_or_exists_entry (h : other.LineFault side outer entries f) :
    (entries = ∅ ∧ f = .emptyLine side outer) ∨
      ∃ inner weight, entries.get? inner = some weight ∧
        other.entryFault? side outer inner weight = some f := by
  cases h with
  | emptyLine hempty => exact Or.inl ⟨hempty, rfl⟩
  | missing hweight hnone =>
      exact Or.inr ⟨_, _, hweight, entryFault?_eq_some_iff.mpr (Or.inl ⟨hnone, rfl⟩)⟩
  | differing hweight hsome hdiffers =>
      exact Or.inr ⟨_, _, hweight,
        entryFault?_eq_some_iff.mpr (Or.inr ⟨_, hsome, hdiffers, rfl⟩)⟩

theorem placeIn_of_entryFault? {inner : Int} {weight : Float} (ids : List Int)
    (h : other.entryFault? side outer inner weight = some f) :
    ∃ test, f.placeIn ids = [ids.idxOf inner, test] := by
  rcases entryFault?_eq_some_iff.mp h with ⟨-, rfl⟩ | ⟨counterpart, -, -, rfl⟩
  · exact ⟨0, rfl⟩
  · exact ⟨1, rfl⟩

theorem lineFault?_eq_none_iff :
    other.lineFault? side outer entries = none ↔ ∀ f, ¬ other.LineFault side outer entries f := by
  unfold lineFault?
  cases hempty : entries.isEmpty with
  | true =>
      rw [if_pos rfl]
      exact iff_of_false (Option.some_ne_none _)
        fun h => h _ (.emptyLine (IdMap.isEmpty_iff.mp hempty))
  | false =>
      rw [if_neg Bool.false_ne_true, List.findSome?_eq_none_iff]
      constructor
      · intro hnone f hf
        rcases hf.eq_or_exists_entry with ⟨rfl, -⟩ | ⟨inner, weight, hweight, hfault⟩
        · exact absurd hempty (by decide)
        · have hnone' : other.entryFault? side outer inner weight = none :=
            hnone (inner, weight) (IdMap.mem_entries_iff.mpr hweight)
          rw [hnone'] at hfault
          cases hfault
      · rintro hnone ⟨inner, weight⟩ hmem
        rw [Option.eq_none_iff_forall_ne_some]
        intro f hfault
        exact hnone f (lineFault_of_entryFault? (IdMap.mem_entries_iff.mp hmem) hfault)

/-- In a line, all other faults come after the one that is found. -/
theorem first_of_lineFault? (h : other.lineFault? side outer entries = some f) :
    other.LineFault side outer entries f ∧ ∀ g, other.LineFault side outer entries g →
      g = f ∨ f.placeIn entries.keys < g.placeIn entries.keys := by
  unfold lineFault? at h
  split at h
  · rename_i hempty
    obtain rfl := IdMap.isEmpty_iff.mp hempty
    obtain rfl := Option.some_inj.mp h
    refine ⟨.emptyLine rfl, fun g hg => ?_⟩
    rcases hg.eq_or_exists_entry with ⟨-, rfl⟩ | ⟨inner, weight, hweight, -⟩
    · exact Or.inl rfl
    · cases hweight
  · rename_i hempty
    obtain ⟨inner, weight, hweight, hfault, hfirst⟩ := IdMap.exists_first_of_findSome? h
    refine ⟨lineFault_of_entryFault? hweight hfault, fun g hg => ?_⟩
    rcases hg.eq_or_exists_entry with ⟨rfl, -⟩ | ⟨inner', weight', hweight', hfault'⟩
    · cases hweight
    · rcases hfirst inner' weight' hweight' (Option.ne_none_iff_exists'.mpr ⟨g, hfault'⟩) with
        ⟨rfl, rfl⟩ | hlt
      · exact Or.inl (Option.some_inj.mp (hfault'.symm.trans hfault))
      · obtain ⟨test, hplace⟩ := placeIn_of_entryFault? entries.keys hfault
        obtain ⟨test', hplace'⟩ := placeIn_of_entryFault? entries.keys hfault'
        rw [hplace, hplace']
        exact Or.inr (List.cons_lt_cons_iff.mpr (Or.inl hlt))

/-! ### One view -/

theorem fault?_eq_none_iff :
    v.fault? other side = none ↔
      ∀ outer entries, v.lines.get? outer = some entries →
        ∀ f, ¬ other.LineFault side outer entries f := by
  rw [fault?, List.findSome?_eq_none_iff]
  constructor
  · intro hnone outer entries hline
    exact lineFault?_eq_none_iff.mp (hnone (outer, entries) (IdMap.mem_entries_iff.mpr hline))
  · rintro hnone ⟨outer, entries⟩ hmem
    exact lineFault?_eq_none_iff.mpr (hnone outer entries (IdMap.mem_entries_iff.mp hmem))

/-- In a view, all other faults come after the one that is found. -/
theorem first_of_fault? (h : v.fault? other side = some f) :
    ∃ outer entries, v.lines.get? outer = some entries ∧ other.LineFault side outer entries f ∧
      ∀ outer' entries' g, v.lines.get? outer' = some entries' →
        other.LineFault side outer' entries' g →
          g = f ∨ v.lines.keys.idxOf outer < v.lines.keys.idxOf outer' ∨
            outer' = outer ∧ f.placeIn entries.keys < g.placeIn entries.keys := by
  obtain ⟨outer, entries, hline, hfault, hfirst⟩ := IdMap.exists_first_of_findSome? h
  obtain ⟨hf, hfirstOfLine⟩ := first_of_lineFault? hfault
  refine ⟨outer, entries, hline, hf, fun outer' entries' g hline' hg => ?_⟩
  have hfault' : other.lineFault? side outer' entries' ≠ none :=
    fun hnone => lineFault?_eq_none_iff.mp hnone g hg
  rcases hfirst outer' entries' hline' hfault' with ⟨rfl, rfl⟩ | hlt
  · exact (hfirstOfLine g hg).imp_right fun hlt => Or.inr ⟨rfl, hlt⟩
  · exact Or.inr (Or.inl hlt)

end View

namespace Side

/-- The side that is searched first comes first. -/
def rank : Side → ℕ
  | row => 0
  | column => 1

end Side

namespace Association

/-- The view of a side. -/
def view (m : Association) : Side → View
  | .row => m.rows
  | .column => m.columns

/-- The faults of a matrix, wherever they are. -/
inductive HasFault (m : Association) : Fault → Prop
  | emptyLine {side : Side} {outer : Int} : (m.view side).lines.get? outer = some ∅ →
      HasFault m (.emptyLine side outer)
  | missing {side : Side} {outer inner : Int} {weight : Float} :
      (m.view side).get? outer inner = some weight →
      (m.view side.opposite).get? inner outer = none → HasFault m (.missing side outer inner)
  | differing {side : Side} {outer inner : Int} {weight counterpart : Float} :
      (m.view side).get? outer inner = some weight →
      (m.view side.opposite).get? inner outer = some counterpart →
      ¬ sameWeight counterpart weight → HasFault m (.differing side outer inner weight counterpart)

/-- Where the search comes across a fault: the view, the line in it, and the place in the line. -/
def place (m : Association) (f : Fault) : List ℕ :=
  f.side.rank :: (m.view f.side).lines.keys.idxOf f.outer ::
    f.placeIn ((m.view f.side).line f.outer).keys

/-- No line is empty, and the two views hold the same weights: at each pair of ids either none,
or two that are numerically equal or both NaN. -/
structure Agrees (m : Association) : Prop where
  rows_tidy : m.rows.Tidy
  columns_tidy : m.columns.Tidy
  same : ∀ row column, Option.Rel (fun x y : Float => x == y ∨ x.isNaN ∧ y.isNaN)
    (m.rows.get? row column) (m.columns.get? column row)

variable {m : Association} {f g : Fault}

theorem hasFault_iff :
    m.HasFault f ↔ ∃ side outer entries, (m.view side).lines.get? outer = some entries ∧
      (m.view side.opposite).LineFault side outer entries f := by
  constructor
  · intro h
    cases h with
    | emptyLine hline => exact ⟨_, _, _, hline, .emptyLine rfl⟩
    | missing hweight hnone =>
        obtain ⟨entries, hline, hentry⟩ := Option.bind_eq_some_iff.mp hweight
        exact ⟨_, _, entries, hline, .missing hentry hnone⟩
    | differing hweight hsome hdiffers =>
        obtain ⟨entries, hline, hentry⟩ := Option.bind_eq_some_iff.mp hweight
        exact ⟨_, _, entries, hline, .differing hentry hsome hdiffers⟩
  · rintro ⟨side, outer, entries, hline, h⟩
    cases h with
    | emptyLine hempty => exact .emptyLine (hempty ▸ hline)
    | missing hentry hnone =>
        exact .missing ((View.get?_of_lines_get? hline).trans hentry) hnone
    | differing hentry hsome hdiffers =>
        exact .differing ((View.get?_of_lines_get? hline).trans hentry) hsome hdiffers

theorem fault?_view_eq_none_iff (m : Association) (side : Side) :
    (m.view side).fault? (m.view side.opposite) side = none ↔
      ∀ f, m.HasFault f → f.side ≠ side := by
  rw [View.fault?_eq_none_iff]
  constructor
  · rintro hnone f hf rfl
    obtain ⟨side, outer, entries, hline, hf⟩ := hasFault_iff.mp hf
    obtain rfl := hf.side_eq
    exact hnone outer entries hline f hf
  · intro hnone outer entries hline f hf
    exact hnone f (hasFault_iff.mpr ⟨side, outer, entries, hline, hf⟩) hf.side_eq

theorem first_of_fault?_view {side : Side}
    (h : (m.view side).fault? (m.view side.opposite) side = some f) :
    m.HasFault f ∧ f.side = side ∧
      ∀ g, m.HasFault g → g.side = side → g = f ∨ m.place f < m.place g := by
  obtain ⟨outer, entries, hline, hf, hfirst⟩ := View.first_of_fault? h
  refine ⟨hasFault_iff.mpr ⟨side, outer, entries, hline, hf⟩, hf.side_eq, fun g hg hside => ?_⟩
  obtain ⟨side', outer', entries', hline', hg⟩ := hasFault_iff.mp hg
  obtain rfl : side' = side := hg.side_eq.symm.trans hside
  rw [place, place, hf.side_eq, hg.side_eq, hf.outer_eq, hg.outer_eq]
  rcases hfirst outer' entries' g hline' hg with heq | hlt | ⟨rfl, hlt⟩
  · exact Or.inl heq
  · exact Or.inr (List.cons_lt_cons_iff.mpr (Or.inr ⟨rfl, List.cons_lt_cons_iff.mpr (Or.inl hlt)⟩))
  · rw [View.line_of_get? hline]
    exact Or.inr (List.cons_lt_cons_iff.mpr (Or.inr ⟨rfl, List.cons_lt_cons_iff.mpr
      (Or.inr ⟨rfl, hlt⟩)⟩))

theorem fault?_eq_or (m : Association) :
    m.fault? = ((m.view .row).fault? (m.view .column) .row).or
      ((m.view .column).fault? (m.view .row) .column) := rfl

theorem forall_not_hasFault_iff :
    (∀ f, ¬ m.HasFault f) ↔
      (∀ f, m.HasFault f → f.side ≠ .row) ∧ ∀ f, m.HasFault f → f.side ≠ .column := by
  constructor
  · exact fun h => ⟨fun f hf => absurd hf (h f), fun f hf => absurd hf (h f)⟩
  · rintro ⟨hrow, hcolumn⟩ f hf
    cases hside : f.side with
    | row => exact hrow f hf hside
    | column => exact hcolumn f hf hside

theorem fault?_eq_none_iff_forall : m.fault? = none ↔ ∀ f, ¬ m.HasFault f := by
  rw [fault?_eq_or, Option.or_eq_none_iff, forall_not_hasFault_iff]
  exact and_congr (fault?_view_eq_none_iff m .row) (fault?_view_eq_none_iff m .column)

theorem first_of_fault? (h : m.fault? = some f) :
    m.HasFault f ∧ ∀ g, m.HasFault g → g = f ∨ m.place f < m.place g := by
  rw [fault?_eq_or, Option.or_eq_some_iff] at h
  rcases h with hrow | ⟨hnone, hcolumn⟩
  · obtain ⟨hf, hside, hfirst⟩ := first_of_fault?_view hrow
    refine ⟨hf, fun g hg => ?_⟩
    cases hside' : g.side with
    | row => exact hfirst g hg hside'
    | column =>
        rw [place, place, hside, hside']
        exact Or.inr (List.cons_lt_cons_iff.mpr (Or.inl Nat.zero_lt_one))
  · obtain ⟨hf, hside, hfirst⟩ := first_of_fault?_view hcolumn
    refine ⟨hf, fun g hg => ?_⟩
    cases hside' : g.side with
    | row => exact absurd hside' ((fault?_view_eq_none_iff m .row).mp hnone g hg)
    | column => exact hfirst g hg hside'

/-! ## Agreement -/

/-- A view has no fault exactly if each of its lines has an entry and each of its entries stands in
the other view, with a weight that counts as the same. -/
theorem forall_side_ne_iff {side : Side} :
    (∀ f, m.HasFault f → f.side ≠ side) ↔
      (m.view side).Tidy ∧ ∀ outer inner weight, (m.view side).get? outer inner = some weight →
        ∃ counterpart, (m.view side.opposite).get? inner outer = some counterpart ∧
          sameWeight counterpart weight := by
  constructor
  · intro h
    refine ⟨View.tidy_iff.mpr fun outer hline => ?_, fun outer inner weight hweight => ?_⟩
    · exact h _ (.emptyLine hline) rfl
    · cases hcounterpart : (m.view side.opposite).get? inner outer with
      | none => exact absurd rfl (h _ (.missing hweight hcounterpart))
      | some counterpart =>
          refine ⟨counterpart, rfl, by_contra fun hdiffers => ?_⟩
          exact h _ (.differing hweight hcounterpart hdiffers) rfl
  · rintro ⟨htidy, hsame⟩ f hf rfl
    cases hf with
    | emptyLine hline => exact View.tidy_iff.mp htidy _ hline
    | missing hweight hnone =>
        obtain ⟨counterpart, hsome, -⟩ := hsame _ _ _ hweight
        cases hnone.symm.trans hsome
    | differing hweight hsome hdiffers =>
        obtain ⟨counterpart, hsome', hsame⟩ := hsame _ _ _ hweight
        obtain rfl := Option.some_inj.mp (hsome.symm.trans hsome')
        exact hdiffers hsame

/-- What the two searches ask for at one pair of ids. -/
theorem rel_iff {weight? counterpart? : Option Float} :
    Option.Rel (fun x y : Float => x == y ∨ x.isNaN ∧ y.isNaN) weight? counterpart? ↔
      (∀ x, weight? = some x → ∃ y, counterpart? = some y ∧ sameWeight y x) ∧
        ∀ y, counterpart? = some y → ∃ x, weight? = some x ∧ sameWeight x y := by
  cases weight? with
  | none => cases counterpart? <;> simp
  | some x =>
      cases counterpart? with
      | none => simp
      | some y =>
          rw [Option.rel_some_some, ← sameWeight_iff]
          simp only [Option.some.injEq, forall_eq', exists_eq_left', sameWeight_comm y x, and_self]

/-- No fault is found exactly if the views agree. -/
theorem fault?_eq_none_iff : m.fault? = none ↔ m.Agrees := by
  rw [fault?_eq_none_iff_forall, forall_not_hasFault_iff, forall_side_ne_iff, forall_side_ne_iff]
  constructor
  · rintro ⟨⟨hrows, hrowsSame⟩, hcolumns, hcolumnsSame⟩
    exact ⟨hrows, hcolumns, fun row column =>
      rel_iff.mpr ⟨hrowsSame row column, hcolumnsSame column row⟩⟩
  · intro h
    have hsame := fun row column => rel_iff.mp (h.same row column)
    exact ⟨⟨h.rows_tidy, fun row column => (hsame row column).1⟩,
      h.columns_tidy, fun column row => (hsame row column).2⟩

/-! ## Messages -/

section Messages

variable {outer inner first second tail : String}

/-- How a message names an entry, with the names of the two views put in. -/
theorem entryText_eq (hfirst : "entry (" ++ outer ++ "=" = first)
    (hsecond : ", " ++ inner ++ "=" = second) (x y : String) :
    "entry (" ++ outer ++ "=" ++ x ++ ", " ++ inner ++ "=" ++ y = first ++ x ++ second ++ y := by
  rw [← hfirst, ← hsecond, ← String.append_assoc, ← String.append_assoc]

theorem missingText_eq (hfirst : "entry (" ++ outer ++ "=" = first)
    (hsecond : ", " ++ inner ++ "=" = second)
    (htail : ") is missing from the " ++ inner ++ " view" = tail) (x y : String) :
    "entry (" ++ outer ++ "=" ++ x ++ ", " ++ inner ++ "=" ++ y ++ ") is missing from the " ++
        inner ++ " view" = first ++ x ++ second ++ y ++ tail := by
  rw [entryText_eq hfirst hsecond, ← htail, ← String.append_assoc, ← String.append_assoc]

end Messages

/-- **The check finds the first fault.**  Whatever the two views of a matrix are, no fault is found
exactly if they agree.  A fault is found exactly if the matrix has it and comes across all its other
faults later, and it is what the report is about: the view that it was found in, the ids, that of
this view first, and the two weights, that of this view first. -/
theorem fault?_is_first (m : Association) :
    (m.fault? = none ↔ m.Agrees) ∧
      (∀ f, m.fault? = some f ↔
        m.HasFault f ∧ ∀ g, m.HasFault g → g = f ∨ m.place f < m.place g) ∧
      ∀ f, m.fault? = some f → m.fault?.map Fault.report = some ⟨.invariant,
        match f with
        | .emptyLine .row row => "row " ++ Decimal.ofInt row ++ " is present with no entries"
        | .emptyLine .column column =>
            "column " ++ Decimal.ofInt column ++ " is present with no entries"
        | .missing .row row column =>
            "entry (row=" ++ Decimal.ofInt row ++ ", column=" ++ Decimal.ofInt column ++
              ") is missing from the column view"
        | .missing .column column row =>
            "entry (column=" ++ Decimal.ofInt column ++ ", row=" ++ Decimal.ofInt row ++
              ") is missing from the row view"
        | .differing .row row column weight counterpart =>
            "entry (row=" ++ Decimal.ofInt row ++ ", column=" ++ Decimal.ofInt column ++
              ") has value " ++ Decimal.ofFloat weight ++ " but mirror holds " ++
              Decimal.ofFloat counterpart
        | .differing .column column row weight counterpart =>
            "entry (column=" ++ Decimal.ofInt column ++ ", row=" ++ Decimal.ofInt row ++
              ") has value " ++ Decimal.ofFloat weight ++ " but mirror holds " ++
              Decimal.ofFloat counterpart,
        some .invariantViolation, none⟩ := by
  refine ⟨fault?_eq_none_iff, fun f => ⟨first_of_fault?, ?_⟩, fun f hf => ?_⟩
  · rintro ⟨hf, hfirst⟩
    cases hfound : m.fault? with
    | none => exact absurd hf (fault?_eq_none_iff_forall.mp hfound f)
    | some g =>
        obtain ⟨hg, hfirst'⟩ := first_of_fault? hfound
        -- Each of the two would come before the other one.
        rcases hfirst g hg with rfl | hlt
        · rfl
        · rcases hfirst' f hf with rfl | hlt'
          · rfl
          · exact absurd hlt' (List.lt_asymm hlt)
  · rw [hf, Option.map_some, Fault.report]
    refine congrArg (fun text =>
      some (Report.mk .invariant text (some .invariantViolation) none)) ?_
    cases f with
    | emptyLine side outer => cases side <;> rfl
    | missing side outer inner =>
        cases side with
        | row => exact missingText_eq (by decide) (by decide) (by decide) _ _
        | column => exact missingText_eq (by decide) (by decide) (by decide) _ _
    | differing side outer inner weight counterpart =>
        let values (entry : String) := entry ++ ") has value " ++ Decimal.ofFloat weight ++
          " but mirror holds " ++ Decimal.ofFloat counterpart
        cases side with
        | row => exact congrArg values (entryText_eq (by decide) (by decide) _ _)
        | column => exact congrArg values (entryText_eq (by decide) (by decide) _ _)

/-- A weight that differs comes before a line without entries in the same view, and before an
entry that only the view by column has. -/
theorem fault?_is_first_damaged :
    let rows := ((∅ : View).put 4 10 0.5).clear 1
    let columns := ((∅ : View).put 20 1 1.0).put 10 4 0.25
    let m : Association := ⟨rows, columns⟩
    let f : Fault := .differing .row 4 10 0.5 0.25
    m.HasFault f ∧ (∀ g, m.HasFault g → g = f ∨ m.place f < m.place g) ∧
      m.fault?.map Fault.report = some ⟨.invariant,
        "entry (row=4, column=10) has value 0.5 but mirror holds 0.25",
        some .invariantViolation, none⟩ := by
  intro rows columns m f
  obtain ⟨-, hfirst, hreport⟩ := fault?_is_first m
  have hfound : m.fault? = some f := rfl
  obtain ⟨hf, hlater⟩ := (hfirst f).mp hfound
  exact ⟨hf, hlater, (hreport f hfound).trans rfl⟩

end Association

end LeastSquares

import LeastSquares.Proofs.Dense.Sharing
import Mathlib

/-!
# Entries addressed from either end

An index counts from the front or, if it is negative, from the end, so that a place of a matrix
has up to four addresses.  Whether two indices address a place is decided for each axis by
itself, before the place is looked up (`place_of_inRange`): an index beyond its own axis is never
made up for by the other one.

Two indices that address no place fail.  The failure is about the word that an index has to fit
if the first one that fits no word with a sign fits one without (`Overflows`), and about the
bounds otherwise.

A matrix may keep an array that can only be read.  Its entries are read as any others; replacing
one is refused before the indices are looked at, and adding to one after the entry has been read
(`Access.Forbidden`).

Reading, replacing and adding are one operation, which changes the entry at a place by a function
(`step_of_inRange`).  So what is at a place after a run is what was there, changed by those
accesses that reached it (`get?_after`).

The main result is `access_laws`.
-/

namespace LeastSquares

/-! ## Places -/

section Places

variable {rows columns : Nat} {row column : Int}

/-- Two indices that address a place of a matrix of this shape, each of them from either end. -/
def InRange (rows columns : Nat) (row column : Int) : Prop :=
  (-(rows : Int) ≤ row ∧ row < rows) ∧ -(columns : Int) ≤ column ∧ column < columns

instance : Decidable (InRange rows columns row column) := inferInstanceAs (Decidable (_ ∧ _))

/-- The place that two indices address. -/
def spot (rows columns : Nat) (row column : Int) : Nat × Nat :=
  ((row % rows).toNat, (column % columns).toNat)

/-- Of two indices the first one that is not between `-2 ^ 63` and `2 ^ 63` is less than `2 ^ 64`
and not negative. -/
def Overflows (row column : Int) : Prop :=
  (2 ^ 63 ≤ row ∧ row < 2 ^ 64) ∨
    (-2 ^ 63 ≤ row ∧ row < 2 ^ 63) ∧ 2 ^ 63 ≤ column ∧ column < 2 ^ 64

instance : Decidable (Overflows row column) := inferInstanceAs (Decidable (_ ∨ _))

theorem position?_eq (length : Nat) (index : Int) :
    position? length index =
      if -(length : Int) ≤ index ∧ index < length then some (index % length).toNat else none := by
  unfold position?
  split_ifs with hfront hback hrange hnone
  · rw [Int.emod_eq_of_lt hfront.1 hfront.2]
  · omega
  · rw [← Int.add_emod_right, Int.emod_eq_of_lt (by omega) (by omega)]
  · omega
  · omega
  · rfl

theorem spot_lt (h : InRange rows columns row column) :
    (spot rows columns row column).1 < rows ∧ (spot rows columns row column).2 < columns := by
  have hremainder : ∀ {length : Nat} {index : Int}, -(length : Int) ≤ index ∧ index < length →
      (index % length).toNat < length := by
    intro length index hindex
    have hpos : (0 : Int) < length := by omega
    have hnonneg := Int.emod_nonneg index (Int.ne_of_gt hpos)
    have hlt := Int.emod_lt_of_pos index hpos
    omega
  exact ⟨hremainder h.1, hremainder h.2⟩

theorem fitsInt64_iff {index : Int} :
    Number.fitsInt64 index = true ↔ -2 ^ 63 ≤ index ∧ index < 2 ^ 63 := by
  simp only [Number.fitsInt64, Bool.and_eq_true, decide_eq_true_eq]
  omega

/-- Two indices that fit a word with a sign are compared with the shape. -/
theorem place_eq (hrow : Number.fitsInt64 row = true) (hcolumn : Number.fitsInt64 column = true) :
    place rows columns row column =
      if InRange rows columns row column then .ok (spot rows columns row column)
      else .error .outOfBounds := by
  simp only [place, indicesFailure?, indexFailure?, hrow, hcolumn, if_true, Option.or_none,
    position?_eq]
  by_cases hrow : -(rows : Int) ≤ row ∧ row < rows
  · by_cases hcolumn : -(columns : Int) ≤ column ∧ column < columns
    · simp only [if_pos hrow, if_pos hcolumn]
      rw [if_pos ⟨hrow, hcolumn⟩]
      rfl
    · simp only [if_pos hrow, if_neg hcolumn]
      rw [if_neg fun h => hcolumn h.2]
  · simp only [if_neg hrow]
    rw [if_neg fun h => hrow h.1]

theorem place_of_inRange (hrows : rows ≤ 2 ^ 63) (hcolumns : columns ≤ 2 ^ 63)
    (h : InRange rows columns row column) :
    place rows columns row column = .ok (spot rows columns row column) := by
  obtain ⟨hrow, hcolumn⟩ := id h
  rw [place_eq (fitsInt64_iff.mpr (by omega)) (fitsInt64_iff.mpr (by omega)), if_pos h]

theorem indexFailure?_of_not_fits {index : Int} (h : Number.fitsInt64 index = false) :
    indexFailure? index =
      some (if 2 ^ 63 ≤ index ∧ index < 2 ^ 64 then .idRange else .outOfBounds) := by
  have hbeyond : ¬ (-2 ^ 63 ≤ index ∧ index < 2 ^ 63) := by
    rw [← fitsInt64_iff, h]
    exact Bool.false_ne_true
  rw [indexFailure?, h, if_neg Bool.false_ne_true]
  split_ifs <;> first | rfl | omega

/-- Indices that address no place fail, and the first one that fits no word says how. -/
theorem place_of_not_inRange (h : ¬ InRange rows columns row column) :
    place rows columns row column =
      .error (if Overflows row column then .idRange else .outOfBounds) := by
  cases hrow : Number.fitsInt64 row with
  | false =>
      have hbeyond : ¬ (-2 ^ 63 ≤ row ∧ row < 2 ^ 63) := by
        rw [← fitsInt64_iff, hrow]
        exact Bool.false_ne_true
      have hoverflows : Overflows row column ↔ 2 ^ 63 ≤ row ∧ row < 2 ^ 64 := by
        unfold Overflows
        omega
      simp only [place, indicesFailure?, indexFailure?_of_not_fits hrow, Option.some_or,
        hoverflows]
  | true =>
      have hfits := fitsInt64_iff.mp hrow
      cases hcolumn : Number.fitsInt64 column with
      | false =>
          have hnone : indexFailure? row = none := by rw [indexFailure?, if_pos hrow]
          have hoverflows : Overflows row column ↔ 2 ^ 63 ≤ column ∧ column < 2 ^ 64 := by
            unfold Overflows
            omega
          simp only [place, indicesFailure?, hnone, indexFailure?_of_not_fits hcolumn,
            Option.none_or, hoverflows]
      | true =>
          have hoverflows : ¬ Overflows row column := by
            have := fitsInt64_iff.mp hcolumn
            unfold Overflows
            omega
          rw [place_eq hrow hcolumn, if_neg h, if_neg hoverflows]

end Places

/-! ## Accesses -/

/-- A matrix none of whose axes is longer than words with a sign can count, as in every array. -/
structure Dense.Addressable (m : Dense Float) : Prop where
  rows_le : m.rows ≤ 2 ^ 63
  columns_le : m.columns ≤ 2 ^ 63

theorem Dense.Addressable.of_shape_eq {m m' : Dense Float} (h : m.Addressable)
    (hrows : m'.rows = m.rows) (hcolumns : m'.columns = m.columns) : m'.Addressable :=
  ⟨hrows ▸ h.rows_le, hcolumns ▸ h.columns_le⟩

theorem Dense.modify_id (m : Dense Float) (i j : Nat) : m.modify i j id = m := by
  have hrow : (fun row : List Float => row.modify j id) = id := by
    funext row
    exact List.modify_id j row
  exact Dense.ext rfl rfl ((congrArg (m.entries.modify i) hrow).trans (List.modify_id i m.entries))

namespace Buffer

variable {b : Buffer} {m : Dense Float}

theorem readAt_eq (h : b.toDense = .ok m) (row column : Int) :
    b.readAt row column = m.readAt row column := by
  rw [readAt, table?_of_toDense h]

theorem edit_write (h : b.toDense = .ok m) (row column : Int) (x : Float) :
    b.edit (.write row column (.float x)) =
      if b.writable then (m.writeAt row column (.ok x)).map b.withEntries
      else .error .readOnly := by
  rw [edit, table?_of_toDense h, (toDense_eq_ok_iff.mp h).1]
  rfl

theorem edit_add (h : b.toDense = .ok m) (row column : Int) (x : Float) :
    b.edit (.add row column (.float x)) =
      (m.addAt row column (.ok x)).bind fun changed =>
        if b.writable then .ok (b.withEntries changed) else .error .readOnly := by
  have hamount : (Datum.float x).addend = .ok x := rfl
  simp only [edit, table?_of_toDense h, hamount]
  cases m.addAt row column (.ok x) <;> rfl

end Buffer

namespace Workspace

variable {w : Workspace} {e : Buffer.Edit}

theorem edit_eq_failed {failure : Failure} (h : w.storage.edit e = .error failure) :
    w.edit w.data e = (w, .failed failure) := by
  unfold edit
  split
  · rename_i mem hmem
    rw [Memory.edit_eq w.get?_data, h] at hmem
    cases hmem
  · rename_i failure' hfailure
    rw [Memory.edit_eq w.get?_data, h] at hfailure
    cases hfailure
    rfl

/-- What a step leaves behind and answers. -/
structure Leaves (w : Workspace) (m : Dense Float) (answer : Answer)
    (next : Workspace × Answer) : Prop where
  matrix_eq : next.1.matrix = m
  writable_eq : next.1.storage.writable = w.storage.writable
  answer_eq : next.2 = answer

theorem leaves_edit {m : Dense Float} (h : w.storage.edit e = .ok (w.storage.withEntries m))
    (hshape : w.matrix.SameShape m) : Leaves w m .done (w.edit w.data e) := by
  obtain ⟨hstorage, hanswer⟩ := storage_edit w e
  have houtcome : outcome w.storage e = (w.storage.withEntries m, .done) := by
    rw [outcome, h]
  rw [houtcome] at hstorage hanswer
  refine ⟨?_, (congrArg Buffer.writable hstorage).trans rfl, hanswer⟩
  have hdense := Buffer.toDense_withEntries w.toDense_storage hshape
  exact Except.ok.inj ((w.edit w.data e).1.toDense_storage.symm.trans (hstorage ▸ hdense))

end Workspace

/-- What is done with an entry. -/
inductive Access.Kind where
  /-- It is read. -/
  | get
  /-- It is replaced by a value. -/
  | put (value : Float)
  /-- An amount is added to it. -/
  | add (amount : Float)

/-- An access to the entry that two indices address. -/
structure Access where
  /-- The index of the row. -/
  row : Int
  /-- The index of the column. -/
  column : Int
  /-- What is done with the entry. -/
  kind : Access.Kind

namespace Access

/-- What becomes of the entry. -/
def Kind.change : Kind → Float → Float
  | get, x => x
  | put value, _ => value
  | add amount, x => x + amount

/-- What is answered about the entry. -/
def Kind.answer : Kind → Float → Workspace.Answer
  | get, x => .number x
  | put _, _ | add _, _ => .done

/-- The access as a step. -/
def step (a : Access) : Workspace.Step :=
  match a.kind with
  | .get => .get a.row a.column
  | .put value => .set a.row a.column (.float value)
  | .add amount => .add a.row a.column (.float amount)

/-- An access that reaches a place of a matrix. -/
def InRange (a : Access) (m : Dense Float) : Prop :=
  LeastSquares.InRange m.rows m.columns a.row a.column

instance (a : Access) (m : Dense Float) : Decidable (a.InRange m) :=
  inferInstanceAs (Decidable (LeastSquares.InRange _ _ _ _))

/-- The place that an access reaches. -/
def spot (a : Access) (m : Dense Float) : Nat × Nat :=
  LeastSquares.spot m.rows m.columns a.row a.column

variable {rows columns i j : Nat}

/-- An access that reaches a given place of a matrix of this shape. -/
def Reaches (rows columns i j : Nat) (a : Access) : Prop :=
  LeastSquares.InRange rows columns a.row a.column ∧
    (i, j) = LeastSquares.spot rows columns a.row a.column

instance : DecidablePred (Reaches rows columns i j) :=
  fun _ => inferInstanceAs (Decidable (_ ∧ _))

variable {a : Access} {w : Workspace}

/-- An access that the storage of a matrix forbids: replacing an entry, or adding to one that there
is, where the array may only be read. -/
def Forbidden (a : Access) (w : Workspace) : Prop :=
  w.storage.writable = false ∧
    match a.kind with
    | .get => False
    | .put _ => True
    | .add _ => a.InRange w.matrix

/-- What becomes of an entry, which may be writable or not. -/
def Kind.effect (writable : Bool) (kind : Kind) : Float → Float :=
  if writable then kind.change else id

theorem Kind.effect_get (writable : Bool) : Kind.get.effect writable = id := by
  cases writable <;> rfl

theorem writable_of_not_forbidden {value : Float} (hkind : a.kind = .put value)
    (h : ¬ a.Forbidden w) : w.storage.writable = true := by
  refine Bool.eq_true_of_not_eq_false fun hreadOnly => h ⟨hreadOnly, ?_⟩
  rw [hkind]
  trivial

/-- An access that is forbidden fails and changes nothing. -/
theorem step_of_forbidden (hw : w.matrix.Addressable) (h : a.Forbidden w) :
    w.step a.step = (w, .failed .readOnly) := by
  obtain ⟨row, column, kind⟩ := a
  obtain ⟨hreadOnly, hkind⟩ := h
  cases kind with
  | get => exact absurd hkind id
  | put value =>
      refine Workspace.edit_eq_failed ?_
      rw [Buffer.edit_write w.toDense_storage, hreadOnly, if_neg Bool.false_ne_true]
  | add amount =>
      have hplace : place w.matrix.rows w.matrix.columns row column = _ :=
        place_of_inRange hw.rows_le hw.columns_le hkind
      refine Workspace.edit_eq_failed ?_
      simp only [Buffer.edit_add w.toDense_storage, Dense.addAt, hplace, hreadOnly]
      rfl

/-- An access that is not forbidden and reaches no place fails and changes nothing. -/
theorem step_of_not_inRange (hallowed : ¬ a.Forbidden w) (h : ¬ a.InRange w.matrix) :
    w.step a.step =
      (w, .failed (if Overflows a.row a.column then .idRange else .outOfBounds)) := by
  have hplace := place_of_not_inRange h
  obtain ⟨row, column, kind⟩ := a
  cases kind with
  | get =>
      have hread : w.memory.readAt w.data row column = w.matrix.readAt row column := by
        rw [Memory.readAt_eq w.get?_data, Buffer.readAt_eq w.toDense_storage]
      simp only [step, Workspace.step, hread, Dense.readAt, hplace]
      rfl
  | put value =>
      refine Workspace.edit_eq_failed ?_
      simp only [Buffer.edit_write w.toDense_storage, Dense.writeAt, hplace,
        writable_of_not_forbidden rfl hallowed]
      rfl
  | add amount =>
      refine Workspace.edit_eq_failed ?_
      simp only [Buffer.edit_add w.toDense_storage, Dense.addAt, hplace]
      rfl

/-- An access that is not forbidden and reaches a place changes the entry there by a function. -/
theorem step_of_inRange (hw : w.matrix.Addressable) (hallowed : ¬ a.Forbidden w)
    (h : a.InRange w.matrix) :
    w.Leaves (w.matrix.modify (a.spot w.matrix).1 (a.spot w.matrix).2
        (a.kind.effect w.storage.writable))
      (a.kind.answer (w.matrix.entry (a.spot w.matrix).1 (a.spot w.matrix).2))
      (w.step a.step) := by
  have hplace := place_of_inRange hw.rows_le hw.columns_le h
  obtain ⟨row, column, kind⟩ := a
  cases kind with
  | get =>
      have hread : w.step (.get row column) = (w, .number (w.matrix.entry
          (LeastSquares.spot w.matrix.rows w.matrix.columns row column).1
          (LeastSquares.spot w.matrix.rows w.matrix.columns row column).2)) := by
        simp only [Workspace.step, Memory.readAt_eq w.get?_data,
          Buffer.readAt_eq w.toDense_storage, Dense.readAt, hplace]
        rfl
      rw [Kind.effect_get, w.matrix.modify_id, step, hread]
      exact ⟨rfl, rfl, rfl⟩
  | put value =>
      have hwritable := writable_of_not_forbidden rfl hallowed
      rw [Kind.effect, if_pos hwritable]
      refine Workspace.leaves_edit ?_ ⟨rfl, rfl⟩
      simp only [Buffer.edit_write w.toDense_storage, Dense.writeAt, hplace, hwritable]
      rfl
  | add amount =>
      have hwritable : w.storage.writable = true :=
        Bool.eq_true_of_not_eq_false fun hreadOnly => hallowed ⟨hreadOnly, h⟩
      rw [Kind.effect, if_pos hwritable]
      refine Workspace.leaves_edit ?_ ⟨rfl, rfl⟩
      simp only [Buffer.edit_add w.toDense_storage, Dense.addAt, hplace, hwritable]
      rfl

/-! ## One access -/

/-- What one access does.  It fails exactly if it is forbidden or reaches no place, and then
nothing changes.  Otherwise it changes the entry at its place and no other one. -/
structure Lawful (a : Access) (w : Workspace) : Prop where
  failed_iff : (∃ failure, (w.step a.step).2 = .failed failure) ↔
    a.Forbidden w ∨ ¬ a.InRange w.matrix
  readOnly_iff : (w.step a.step).2 = .failed .readOnly ↔ a.Forbidden w
  idRange_iff : (w.step a.step).2 = .failed .idRange ↔
    ¬ a.Forbidden w ∧ ¬ a.InRange w.matrix ∧ Overflows a.row a.column
  outOfBounds_iff : (w.step a.step).2 = .failed .outOfBounds ↔
    ¬ a.Forbidden w ∧ ¬ a.InRange w.matrix ∧ ¬ Overflows a.row a.column
  unchanged : a.Forbidden w ∨ ¬ a.InRange w.matrix → (w.step a.step).1 = w
  rows_eq : (w.step a.step).1.matrix.rows = w.matrix.rows
  columns_eq : (w.step a.step).1.matrix.columns = w.matrix.columns
  writable_eq : (w.step a.step).1.storage.writable = w.storage.writable
  get?_eq : ∀ i j, (w.step a.step).1.matrix.get? i j =
    if a.Reaches w.matrix.rows w.matrix.columns i j then
      (w.matrix.get? i j).map (a.kind.effect w.storage.writable)
    else w.matrix.get? i j
  answer_eq : ¬ a.Forbidden w → a.InRange w.matrix → (w.step a.step).2 =
    a.kind.answer (w.matrix.entry (a.spot w.matrix).1 (a.spot w.matrix).2)

theorem Kind.answer_ne_failed (kind : Kind) (x : Float) (failure : Failure) :
    kind.answer x ≠ .failed failure := by
  cases kind <;> exact fun h => by cases h

/-- Where an access is forbidden, it would change nothing. -/
theorem effect_of_forbidden (h : a.Forbidden w) : a.kind.effect w.storage.writable = id := by
  rw [Kind.effect, h.1, if_neg Bool.false_ne_true]

theorem lawful (hw : w.matrix.Addressable) (a : Access) : a.Lawful w := by
  by_cases hforbidden : a.Forbidden w
  · have hstep := step_of_forbidden hw hforbidden
    refine ⟨?_, ?_, ?_, ?_, fun _ => by rw [hstep], by rw [hstep], by rw [hstep], by rw [hstep],
      fun i j => ?_, fun hallowed => absurd hforbidden hallowed⟩
    · simp [hstep, hforbidden]
    · simp [hstep, hforbidden]
    · simp [hstep, hforbidden]
    · simp [hstep, hforbidden]
    · rw [hstep, effect_of_forbidden hforbidden, Option.map_id_apply, ite_self]
  · by_cases h : a.InRange w.matrix
    · obtain ⟨hmatrix, hwritable, hanswer⟩ := step_of_inRange hw hforbidden h
      have hne := fun failure => a.kind.answer_ne_failed
        (w.matrix.entry (a.spot w.matrix).1 (a.spot w.matrix).2) failure
      refine ⟨?_, ?_, ?_, ?_, fun hnone => (hnone.elim hforbidden (absurd h)).elim, ?_, ?_,
        hwritable, fun i j => ?_, fun _ _ => hanswer⟩
      · simp [hanswer, hne, h, hforbidden]
      · simp [hanswer, hne, hforbidden]
      · simp [hanswer, hne, h]
      · simp [hanswer, hne, h]
      · rw [hmatrix]
        rfl
      · rw [hmatrix]
        rfl
      · have hreaches : a.Reaches w.matrix.rows w.matrix.columns i j ↔
            i = (a.spot w.matrix).1 ∧ j = (a.spot w.matrix).2 :=
          (and_iff_right h).trans Prod.ext_iff
        rw [hmatrix, Dense.get?_modify]
        simp only [hreaches]
    · have hstep := step_of_not_inRange hforbidden h
      refine ⟨?_, ?_, ?_, ?_, fun _ => by rw [hstep], by rw [hstep], by rw [hstep], by rw [hstep],
        fun i j => ?_, fun _ hreached => absurd hreached h⟩
      · simp [hstep, h]
      · by_cases hoverflows : Overflows a.row a.column <;> simp [hstep, hforbidden, hoverflows]
      · by_cases hoverflows : Overflows a.row a.column <;> simp [hstep, h, hforbidden, hoverflows]
      · by_cases hoverflows : Overflows a.row a.column <;> simp [hstep, h, hforbidden, hoverflows]
      · have hmisses : ¬ a.Reaches w.matrix.rows w.matrix.columns i j := fun hreaches =>
          h hreaches.1
        rw [hstep, if_neg hmisses]

/-- The least index that fits no word with a sign is out of range, but it is not reported as out of
bounds.  Nor is an index that misses, where the array may only be read, and there an entry that
there is cannot be replaced. -/
theorem step_get_beyond_word :
    let w : Workspace := .alone (.zeros 1 1)
    let answer := (w.step (.get 9223372036854775808 0)).2
    (answer = .failed .idRange ∧ ¬ (answer = .failed .outOfBounds ↔
      ¬ LeastSquares.InRange w.matrix.rows w.matrix.columns 9223372036854775808 0)) ∧
    ∃ w', Workspace.wrap { (Dense.zeros 1 1).storage with writable := false } = .ok w' ∧
      (w'.step (.set 1 0 (.float 2))).2 = .failed .readOnly ∧
      (w'.step (.set 0 0 (.float 2))).2 = .failed .readOnly := by
  intro w answer
  have hanswer : answer = .failed .idRange := rfl
  refine ⟨⟨hanswer, fun h => ?_⟩, _, rfl, rfl, rfl⟩
  have hbounds : answer = .failed .outOfBounds := h.mpr (by decide)
  rw [hanswer] at hbounds
  cases hbounds

/-! ## Runs of accesses -/

section Runs

variable {accesses : List Access} {writable : Bool}

/-- What accesses make of an entry: those that reach its place change it, one after another. -/
def changeAt (writable : Bool) (rows columns i j : Nat) (accesses : List Access) (x : Float) :
    Float :=
  (accesses.filter (Reaches rows columns i j)).foldl (fun x a => a.kind.effect writable x) x

theorem changeAt_cons (a : Access) (accesses : List Access) (x : Float) :
    changeAt writable rows columns i j (a :: accesses) x =
      changeAt writable rows columns i j accesses
        (if a.Reaches rows columns i j then a.kind.effect writable x else x) := by
  unfold changeAt
  by_cases h : a.Reaches rows columns i j <;> simp [h]

/-- Only reading leaves an entry as it is. -/
theorem changeAt_of_get (h : ∀ a ∈ accesses, a.Reaches rows columns i j → a.kind = .get)
    (x : Float) : changeAt writable rows columns i j accesses x = x := by
  induction accesses with
  | nil => rfl
  | cons a accesses ih =>
      obtain ⟨hfirst, hrest⟩ := List.forall_mem_cons.mp h
      rw [changeAt_cons]
      split_ifs with hreaches
      · rw [hfirst hreaches, Kind.effect_get]
        exact ih hrest
      · exact ih hrest

variable (hw : w.matrix.Addressable)

include hw

theorem shape_after (accesses : List Access) :
    (w.after (accesses.map step)).matrix.rows = w.matrix.rows ∧
      (w.after (accesses.map step)).matrix.columns = w.matrix.columns ∧
      (w.after (accesses.map step)).storage.writable = w.storage.writable := by
  induction accesses generalizing w with
  | nil => exact ⟨rfl, rfl, rfl⟩
  | cons a accesses ih =>
      have hstep := lawful hw a
      obtain ⟨hrows, hcolumns, hwritable⟩ :=
        ih (hw.of_shape_eq hstep.rows_eq hstep.columns_eq)
      rw [List.map_cons, Workspace.after_cons]
      exact ⟨hrows.trans hstep.rows_eq, hcolumns.trans hstep.columns_eq,
        hwritable.trans hstep.writable_eq⟩

theorem addressable_after (accesses : List Access) :
    (w.after (accesses.map step)).matrix.Addressable :=
  hw.of_shape_eq (shape_after hw accesses).1 (shape_after hw accesses).2.1

/-- What is at a place after a run is what was there, changed by the accesses that reached it. -/
theorem get?_after (accesses : List Access) (i j : Nat) :
    (w.after (accesses.map step)).matrix.get? i j =
      (w.matrix.get? i j).map
        (changeAt w.storage.writable w.matrix.rows w.matrix.columns i j accesses) := by
  induction accesses generalizing w with
  | nil => exact (Option.map_id_apply).symm
  | cons a accesses ih =>
      have hstep := lawful hw a
      rw [List.map_cons, Workspace.after_cons, ih (hw.of_shape_eq hstep.rows_eq hstep.columns_eq),
        hstep.rows_eq, hstep.columns_eq, hstep.writable_eq, hstep.get?_eq,
        funext (changeAt_cons a accesses)]
      split_ifs
      · rw [Option.map_map]
        rfl
      · rfl

/-- What was put is read, by whatever address, as long as the entry has only been read since. -/
theorem answer_of_put {put read : Access} {value : Float} {between : List Access}
    (hwritable : w.storage.writable = true) (hput : put.kind = .put value)
    (hread : read.kind = .get) (hputs : put.InRange w.matrix)
    (hreads : read.InRange w.matrix) (hspot : read.spot w.matrix = put.spot w.matrix)
    (hbetween : ∀ a ∈ between, a.InRange w.matrix → a.spot w.matrix = put.spot w.matrix →
      a.kind = .get) :
    ((w.after ((put :: between).map step)).step read.step).2 = .number value := by
  obtain ⟨hrows, hcolumns, -⟩ := shape_after hw (put :: between)
  let now := w.after ((put :: between).map step)
  have hspot' : read.spot now.matrix = put.spot w.matrix := by
    rw [← hspot, spot, spot, hrows, hcolumns]
  have hreads' : read.InRange now.matrix := by
    rw [InRange, hrows, hcolumns]
    exact hreads
  have hallowed : ¬ read.Forbidden now := by
    rintro ⟨-, hkind⟩
    rw [hread] at hkind
    exact hkind
  -- The entry is what the put has made of the old one, whatever that was.
  obtain ⟨old, hold⟩ : ∃ old,
      w.matrix.get? (put.spot w.matrix).1 (put.spot w.matrix).2 = some old :=
    Option.isSome_iff_exists.mp
      (w.matrix.get?_isSome (spot_lt hputs).1 (spot_lt hputs).2)
  have hchange : changeAt w.storage.writable w.matrix.rows w.matrix.columns (put.spot w.matrix).1
      (put.spot w.matrix).2 (put :: between) old = value := by
    rw [changeAt_cons, if_pos ⟨hputs, rfl⟩, hput, hwritable]
    exact changeAt_of_get (fun a ha hreaches => hbetween a ha hreaches.1 hreaches.2.symm) value
  have hentry : now.matrix.entry (put.spot w.matrix).1 (put.spot w.matrix).2 = value := by
    rw [Dense.entry, get?_after hw, hold, Option.map_some, hchange]
    rfl
  rw [(lawful (addressable_after hw _) read).answer_eq hallowed hreads', hread, hspot']
  exact congrArg Workspace.Answer.number hentry

/-- **Access laws.**  Along every run of accesses with whatever indices, the shape and the number
of entries stay the same, and an entry is changed by those accesses that address it.  After the
run an access fails exactly if one of its indices is out of range or the storage forbids it, in
which case nothing changes; else it changes the one entry that it addresses.  What was put last is
read by every address. -/
theorem access_laws (accesses : List Access) :
    let now := w.after (accesses.map step)
    (now.matrix.rows = w.matrix.rows ∧ now.matrix.columns = w.matrix.columns ∧
        now.matrix.toNArray.entries.length = w.matrix.rows * w.matrix.columns ∧
        now.storage.writable = w.storage.writable) ∧
      (∀ i j, now.matrix.get? i j = (w.matrix.get? i j).map
        (changeAt w.storage.writable w.matrix.rows w.matrix.columns i j accesses)) ∧
      (∀ a : Access, a.Lawful now) ∧
      ∀ (put read : Access) (value : Float) (between : List Access),
        w.storage.writable = true →
        put.kind = .put value → read.kind = .get → put.InRange now.matrix →
        read.InRange now.matrix → read.spot now.matrix = put.spot now.matrix →
        (∀ a ∈ between, a.InRange now.matrix → a.spot now.matrix = put.spot now.matrix →
          a.kind = .get) →
          ((now.after ((put :: between).map step)).step read.step).2 = .number value := by
  intro now
  obtain ⟨hrows, hcolumns, hwritable⟩ := shape_after hw accesses
  have hlength : now.matrix.toNArray.entries.length = now.matrix.rows * now.matrix.columns := by
    rw [now.matrix.toNArray.length_entries]
    exact Nesting.volume_pair _ _
  refine ⟨⟨hrows, hcolumns, ?_, hwritable⟩, get?_after hw accesses,
    lawful (addressable_after hw accesses), ?_⟩
  · rw [hlength, hrows, hcolumns]
  · intro put read value between hnow
    exact answer_of_put (addressable_after hw accesses) (hwritable.trans hnow)

end Runs

/-- The last entry of a matrix and the first one, each by two of its addresses, and an access that
is out of range by one row. -/
theorem access_laws_both_ends :
    let w : Workspace := .alone (.zeros 2 3)
    let beyond : Access := ⟨-3, 0, .put 7⟩
    let now := w.after ([⟨-1, -1, .put 1.5⟩, ⟨1, 2, .add 0.25⟩, beyond].map step)
    now.matrix.get? 1 2 = some 1.75 ∧ (now.step beyond.step).2 = .failed .outOfBounds ∧
      ((now.after ([⟨-2, 0, .put 4⟩, ⟨0, -3, .get⟩].map step)).step (.get 0 0)).2 =
        .number 4 := by
  have hlast : ((Dense.zeros 2 3).get? 1 2).map (changeAt true 2 3 1 2
      [⟨-1, -1, .put 1.5⟩, ⟨1, 2, .add 0.25⟩, ⟨-3, 0, .put 7⟩]) = some 1.75 := rfl
  intro w beyond now
  have hlaws := access_laws (w := w) ⟨by decide, by decide⟩
    [⟨-1, -1, .put 1.5⟩, ⟨1, 2, .add 0.25⟩, beyond]
  refine ⟨(hlaws.2.1 1 2).trans hlast, ?_, ?_⟩
  · refine (hlaws.2.2.1 beyond).outOfBounds_iff.mpr ⟨?_, by decide, by decide⟩
    rintro ⟨hreadOnly, -⟩
    cases hreadOnly
  · exact hlaws.2.2.2 ⟨-2, 0, .put 4⟩ ⟨0, 0, .get⟩ 4 [⟨0, -3, .get⟩] rfl rfl rfl (by decide)
      (by decide) (by decide) (by simp)

end Access

end LeastSquares

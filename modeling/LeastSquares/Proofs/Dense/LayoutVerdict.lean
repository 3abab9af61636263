import LeastSquares.Kernel.Operand
import LeastSquares.Proofs.Dense.Sharing
import LeastSquares.Proofs.Dense.Storage
import LeastSquares.Proofs.Linear.Answers
import LeastSquares.Proofs.Store.Traversal

/-!
# One verdict on the layout

A value is looked at as a matrix in five places: where a matrix is wrapped around it, where
its storage is asked for, where it is applied to an operand, and by a solver that judges or
factorizes it.  Each place has more to check, but what it says about the layout is the same
everywhere, and it is said first.

A refused layout is reported by every place with one message.  The obstacle is the converse:
where the layout is accepted, nothing that goes wrong later may be reported as one of the
layout.  For an operand that is so because its scalars are read one by one and none of them
fails that way (`NArray.kind?_of_read`); for a solver it follows from the three cases of its
answers.
-/

namespace LeastSquares

universe u

/-- What a result reports about the layout, if it does. -/
def layoutReport? {α : Type u} : Except Failure α → Option Report
  | .ok _ => none
  | .error failure => failure.report?.filter fun report => report.kind == .layout

theorem layoutReport?_eq_none {α : Type u} {result : Except Failure α}
    (h : ∀ failure, result = .error failure → failure.kind? ≠ some .layout) :
    layoutReport? result = none := by
  cases result with
  | ok x => rfl
  | error failure =>
      refine Option.filter_eq_none_iff.mpr fun report hreport hlayout => ?_
      refine h failure rfl ?_
      rw [Failure.kind?, hreport, Option.map_some, eq_of_beq hlayout]

/-! ## Operands -/

theorem Datum.kind?_of_entry {d : Datum} {failure : Failure} (h : d.entry = .error failure) :
    failure.kind? = none := by
  cases d with
  | null => cases h
  | bool b => cases h
  | float x => cases h
  | int n =>
      simp only [entry, Number.ofInt] at h
      split at h
      · cases h
      · cases h
        rfl
  | text s =>
      simp only [entry, ofText] at h
      split at h
      · cases h
      · cases h
        rfl
  | list items =>
      cases h
      rfl
  | record fields =>
      cases h
      rfl

section Reading

variable {α β : Type} {f : β → Except Failure α} {failure : Failure}

theorem exists_of_readEach_eq_error {l : List β} (h : readEach f l = .error failure) :
    ∃ x ∈ l, f x = .error failure := by
  induction l with
  | nil => cases h
  | cons x rest ih =>
      rw [readEach] at h
      cases hx : f x with
      | error failure' =>
          rw [hx] at h
          obtain rfl := Except.error.inj h
          exact ⟨x, List.mem_cons_self, hx⟩
      | ok y =>
          cases hrest : readEach f rest with
          | ok ys => simp [hx, hrest] at h
          | error failure' =>
              simp only [hx, hrest, Except.error.injEq] at h
              subst h
              obtain ⟨x', hx', hfails⟩ := ih hrest
              exact ⟨x', List.mem_cons_of_mem x hx', hfails⟩

/-- A nesting that is no array is reported under the library's own name only if one of its
scalars is. -/
theorem NArray.kind?_of_read (hf : ∀ x failure, f x = .error failure → failure.kind? = none)
    {n : Nesting β} (h : NArray.read f n = .error failure) : failure.kind? = none := by
  unfold NArray.read at h
  split at h
  · cases h
    rfl
  · rename_i shape hshape
    split at h
    · cases h
      rfl
    · cases hleaves : readEach f n.leaves with
      | ok r => simp [hleaves] at h
      | error failure' =>
          simp only [hleaves, Except.error.injEq] at h
          subst h
          obtain ⟨x, -, hx⟩ := exists_of_readEach_eq_error hleaves
          exact hf x _ hx

end Reading

namespace Dense

variable {m : Dense Float} {failure : Failure}

theorem kind?_of_applyArray {a : NArray Float} (h : m.applyArray a = .error failure) :
    failure.kind? = none := by
  have hoperand : m.operand a = .error failure := map_eq_error_iff.mp h
  unfold operand at hoperand
  split at hoperand
  · split at hoperand
    · cases hoperand
    · cases hoperand
      rfl
  · cases hoperand
    rfl

theorem kind?_of_project {v : Nesting Datum} (h : m.project Datum.entry v = .error failure) :
    failure.kind? = none := by
  unfold project at h
  cases hread : NArray.read Datum.entry v with
  | error failure' =>
      simp only [hread, Except.error.injEq] at h
      subst h
      exact NArray.kind?_of_read (fun _ _ => Datum.kind?_of_entry) hread
  | ok a =>
      simp only [hread] at h
      exact kind?_of_applyArray h

/-- No operand is reported as a matrix. -/
theorem kind?_of_applyTo {o : Operand} (h : m.applyTo o = .error failure) :
    failure.kind? = none := by
  cases o with
  | store s =>
      have hstore := map_eq_error_iff.mp h
      obtain ⟨before, id, v, after, -, -, hv⟩ := IdMap.traverse_eq_error_iff.mp hstore
      exact kind?_of_project (map_eq_error_iff.mp hv)
  | nesting v => exact kind?_of_project (map_eq_error_iff.mp h)
  | array a => exact kind?_of_applyArray (map_eq_error_iff.mp h)
  | other d =>
      cases h
      rfl

end Dense

/-! ## Solvers -/

namespace LinearSolver

variable {s : LinearSolver} {v : MatrixValue} {m : Dense Float} {failure : Failure}

theorem kind?_ne_layout_of_isNonSingular (haccess : v.access = .ok m)
    (h : s.isNonSingular v = .error failure) : failure.kind? ≠ some .layout := by
  rw [isNonSingular_of_access haccess] at h
  rw [Threshold.kind?_of_isNonSingular h]
  simp

theorem kind?_ne_layout_of_factorize (haccess : v.access = .ok m)
    (h : s.factorize v = .error failure) : failure.kind? ≠ some .layout := by
  by_cases hkind : failure.kind? = some .singular
  · simp [hkind]
  · have hverdict : s.isNonSingular v = .error failure :=
      ((s.sameAnswer v).failed failure).mpr ⟨h, hkind⟩
    exact kind?_ne_layout_of_isNonSingular haccess hverdict

end LinearSolver

/-! ## The five places -/

namespace MatrixValue

/-- A value that is no matrix yet: a bare array, or anything else. -/
def IsBare : MatrixValue → Prop
  | dense _ => False
  | buffer _ | other _ => True

/-- A bare array that can be the storage of a matrix. -/
def IsStorage : MatrixValue → Prop
  | buffer b => b.kind = .float64 ∧ ∃ rows columns, b.array.shape = [rows, columns] ∧
      (b.columnMajor = true → rows ≤ 1 ∨ columns ≤ 1)
  | _ => False

variable {v : MatrixValue} {failure : Failure}

theorem exists_access_iff (hbare : v.IsBare) : (∃ m, v.access = .ok m) ↔ v.IsStorage := by
  cases v with
  | dense m => exact absurd hbare id
  | buffer b => exact Buffer.exists_toDense_iff
  | other d =>
      refine iff_of_false ?_ id
      rintro ⟨m, hm⟩
      cases hm

theorem eq_layout_of_access (h : v.access = .error failure) :
    failure = .layout expectedStorage (.text v.description) := by
  cases v with
  | dense m => cases h
  | buffer b => exact Buffer.toDense_eq_error h
  | other d => exact (Except.error.inj h).symm

/-- Wrapping a matrix around a value and asking for its storage find the same entries. -/
theorem map_matrix_wrapValue (hbare : v.IsBare) :
    (Workspace.wrapValue v).map Workspace.matrix = v.access := by
  cases v with
  | dense m => exact absurd hbare id
  | buffer b =>
      cases hb : b.toDense with
      | ok m =>
          obtain ⟨w, hw, hmatrix, -⟩ := Workspace.exists_wrap hb
          rw [Workspace.wrapValue, access, hw, hb]
          exact congrArg Except.ok hmatrix
      | error failure =>
          rw [Workspace.wrapValue, access, Workspace.wrap_eq_error hb, hb]
          rfl
  | other d => rfl

end MatrixValue

namespace Memory

/-- The value that is offered as a matrix, with what is in the arrays that are offered. -/
def value? (mem : Memory) : Offer → Option MatrixValue
  | .matrix data => (mem.dense? data).map .dense
  | .array r => (mem.get? r).map .buffer
  | .other d => some (.other d)

/-- The array that is handed out holds the entries of the value, and is refused as the value is. -/
theorem map_dense?_access {mem : Memory} {offer : Offer} {v : MatrixValue}
    (h : mem.value? offer = some v) : (mem.access offer).map mem.dense? = v.access.map some := by
  cases offer with
  | matrix data =>
      obtain ⟨m, hm, rfl⟩ := Option.map_eq_some_iff.mp h
      exact congrArg Except.ok hm
  | array r =>
      obtain ⟨b, hb, rfl⟩ := Option.map_eq_some_iff.mp h
      rw [access, wrap_eq hb, MatrixValue.access]
      cases hm : b.toDense with
      | ok m =>
          have hdense : mem.dense? r = some m := by
            rw [dense?, hb, Option.bind_some, hm]
            rfl
          exact congrArg Except.ok hdense
      | error failure => rfl
  | other d =>
      obtain rfl := Option.some.inj h
      rfl

end Memory

/-- The places that take a matrix accept a value, whatever they say about it later. -/
structure Admitted (v : MatrixValue) (m : Dense Float) (o : Operand) (s : LinearSolver) :
    Prop where
  access_eq : v.access = .ok m
  applyTo_eq : layoutReport? (v.applyTo o) = none
  isNonSingular_eq : layoutReport? (s.isNonSingular v) = none
  factorize_eq : layoutReport? (s.factorize v) = none

/-- All places say the same about the layout of a value. -/
structure OneVerdict (v : MatrixValue) (o : Operand) (s : LinearSolver) : Prop where
  wrapValue_eq : layoutReport? (Workspace.wrapValue v) = layoutReport? v.access
  applyTo_eq : layoutReport? (v.applyTo o) = layoutReport? v.access
  isNonSingular_eq : layoutReport? (s.isNonSingular v) = layoutReport? v.access
  factorize_eq : layoutReport? (s.factorize v) = layoutReport? v.access

section Places

variable {v : MatrixValue} {m : Dense Float}

theorem MatrixValue.admitted (h : v.access = .ok m) (o : Operand) (s : LinearSolver) :
    Admitted v m o s where
  access_eq := h
  applyTo_eq := by
    refine layoutReport?_eq_none fun failure hfailure => ?_
    rw [MatrixValue.applyTo, h] at hfailure
    rw [Dense.kind?_of_applyTo hfailure]
    exact nofun
  isNonSingular_eq := layoutReport?_eq_none fun _ => LinearSolver.kind?_ne_layout_of_isNonSingular h
  factorize_eq := layoutReport?_eq_none fun _ => LinearSolver.kind?_ne_layout_of_factorize h

theorem MatrixValue.oneVerdict (hbare : v.IsBare) (o : Operand) (s : LinearSolver) :
    OneVerdict v o s := by
  have hwrap : layoutReport? (Workspace.wrapValue v) = layoutReport? v.access := by
    rw [← v.map_matrix_wrapValue hbare]
    cases Workspace.wrapValue v with
    | ok w => rfl
    | error failure => rfl
  cases haccess : v.access with
  | ok m =>
      have hnone : layoutReport? v.access = none := by rw [haccess]; rfl
      have hadmitted := MatrixValue.admitted haccess o s
      exact ⟨hwrap, hadmitted.applyTo_eq.trans hnone.symm,
        hadmitted.isNonSingular_eq.trans hnone.symm, hadmitted.factorize_eq.trans hnone.symm⟩
  | error failure =>
      refine ⟨hwrap, ?_, ?_, ?_⟩
      · rw [MatrixValue.applyTo, haccess]
        rfl
      · rw [LinearSolver.isNonSingular, haccess]
        rfl
      · rw [LinearSolver.factorize, haccess]
        rfl

/-- **One verdict on the layout.**  Whatever else is wrong, a value that is no matrix is refused
by all places with one report, or by none for its layout.  It is accepted exactly if it is an
array of 64-bit floating-point numbers with two axes, row after row.  Every matrix has that layout,
whatever has made it: it is accepted everywhere, and so is its storage.  Where a value is offered
by reference, the array that is handed out is refused or holds the entries accordingly. -/
theorem one_layout_verdict (o : Operand) (s : LinearSolver) :
    (∀ v : MatrixValue, v.IsBare → OneVerdict v o s ∧
      (v.IsStorage → layoutReport? v.access = none) ∧
      (¬ v.IsStorage → layoutReport? v.access =
        some ⟨.layout, "Dense matrix does not expose the expected storage. Expected " ++
          "a C-contiguous 2D float64 ndarray or DenseMatrix. Got: " ++
          Text.quoted v.description ++ ".", some .matrixLayout, none⟩)) ∧
      (∀ m : Dense Float,
        (∃ w, Workspace.wrapValue (.buffer m.storage) = .ok w ∧ w.matrix = m ∧ w.IsShared) ∧
        Admitted (.buffer m.storage) m o s ∧ Admitted (.dense m) m o s) ∧
      ∀ (mem : Memory) (offer : Memory.Offer) (v : MatrixValue), mem.value? offer = some v →
        (mem.access offer).map mem.dense? = v.access.map some := by
  refine ⟨?_, ?_, fun _ _ _ => Memory.map_dense?_access⟩
  · intro v hbare
    refine ⟨v.oneVerdict hbare o s, fun hstorage => ?_, fun hnot => ?_⟩
    · obtain ⟨m, hm⟩ := (v.exists_access_iff hbare).mpr hstorage
      rw [hm]
      rfl
    · cases haccess : v.access with
      | ok m => exact absurd ((v.exists_access_iff hbare).mp ⟨m, haccess⟩) hnot
      | error failure =>
          rw [v.eq_layout_of_access haccess]
          rfl
  · intro m
    have hstorage : (MatrixValue.buffer m.storage).access = .ok m := m.toDense_storage
    exact ⟨Workspace.exists_wrap m.toDense_storage, MatrixValue.admitted hstorage o s,
      MatrixValue.admitted rfl o s⟩

/-- Two rows of three numbers that are stored column after column are refused everywhere, for
an operand that is none and by a solver whose threshold is beyond all numbers.  The identity
matrix is accepted. -/
theorem one_layout_verdict_column_major :
    let v : MatrixValue := .buffer ⟨.float64, true, ⟨[2, 3], [5, 0, 1, 2.5, 8, 9], rfl⟩, true⟩
    let o : Operand := .other (.text "vector")
    let s : LinearSolver := ⟨.native, .whole (Int.pow 10 400)⟩
    let m : Dense Float := Dense.identity 3
    (v.IsBare ∧ ¬ v.IsStorage ∧ OneVerdict v o s ∧ (layoutReport? v.access).isSome = true) ∧
      Dense.identity? 3 = .ok m ∧ Admitted (.dense m) m o s := by
  intro v o s m
  have hnot : ¬ v.IsStorage := by
    rintro ⟨-, rows, columns, hshape, hshort⟩
    cases hshape
    have hfalse : 2 ≤ 1 ∨ 3 ≤ 1 := hshort rfl
    omega
  have hverdict := (one_layout_verdict o s).1 v trivial
  have hmade : Dense.identity? 3 = .ok m := rfl
  refine ⟨⟨trivial, hnot, hverdict.1, ?_⟩, hmade, ((one_layout_verdict o s).2.1 m).2.2⟩
  rw [hverdict.2.2 hnot]
  rfl

end Places

end LeastSquares

import LeastSquares.Dense.Memory

/-!
# Matrices and the arrays they were made from

A `Workspace` is a matrix among the arrays in memory, together with the array that it was made
from.  A `Workspace.Step` reads or writes one entry: through the matrix, through the storage that
it hands out, through the array that it was made from, or through a copy of its entries.

The array of a matrix has the right layout in every workspace, and no step takes that away
(`Memory.Keeps`), so that a matrix can always be read.
-/

namespace LeastSquares

/-- A matrix and the array it was made from, among the arrays in memory. -/
structure Workspace where
  /-- The arrays in memory. -/
  memory : Memory
  /-- The array that the matrix keeps. -/
  data : Reference
  /-- The array that the matrix was made from, if there is one. -/
  origin? : Option Reference
  /-- The array of the matrix has the layout that it has to have. -/
  isSome_dense? : (memory.dense? data).isSome = true
  /-- The array that the matrix was made from is in memory. -/
  isSome_origin : ∀ r, origin? = some r → (memory.get? r).isSome = true

namespace Workspace

/-! ## Making -/

theorem isSome_of_wrap {mem : Memory} {r data : Reference} (h : mem.wrap r = .ok data) :
    data = r ∧ (mem.dense? data).isSome = true := by
  unfold Memory.wrap at h
  split at h
  · rename_i b hb
    obtain ⟨m, hm, rfl⟩ := map_eq_ok_iff.mp h
    refine ⟨rfl, ?_⟩
    rw [Memory.dense?, hb, Option.bind_some, hm]
    rfl
  · cases h

theorem exists_of_copy {mem mem' : Memory} {r data : Reference}
    (h : mem.copy r = .ok (data, mem')) :
    ∃ b, mem.get? r = some b ∧ (data, mem') = mem.allocate (.plain b.array.padded) ∧
      (mem'.dense? data).isSome = true := by
  unfold Memory.copy at h
  split at h
  · rename_i b hb
    obtain ⟨made, hmade, heq⟩ := map_eq_ok_iff.mp h
    obtain ⟨rfl, hdense⟩ := isSome_of_wrap hmade
    cases heq
    exact ⟨b, hb, rfl, hdense⟩
  · cases h

/-- A matrix around an array in memory. -/
def wrapIn (mem : Memory) (source : Reference) : Except Failure Workspace :=
  match h : mem.wrap source with
  | .ok data => .ok {
      memory := mem
      data := data
      origin? := some source
      isSome_dense? := (isSome_of_wrap h).2
      isSome_origin := by
        rintro _ ⟨⟩
        obtain ⟨rfl, hdense⟩ := isSome_of_wrap h
        exact Memory.isSome_get?_of_dense? hdense }
  | .error failure => .error failure

/-- A matrix with a copy of the entries of an array in memory. -/
def copyIn (mem : Memory) (source : Reference) : Except Failure Workspace :=
  match h : mem.copy source with
  | .ok (data, mem') => .ok {
      memory := mem'
      data := data
      origin? := some source
      isSome_dense? := (exists_of_copy h).choose_spec.2.2
      isSome_origin := by
        rintro _ ⟨⟩
        obtain ⟨b, hb, hmade, -⟩ := exists_of_copy h
        cases hmade
        exact Option.isSome_iff_exists.mpr ⟨b, Memory.get?_allocate hb _⟩ }
  | .error failure => .error failure

/-- A matrix around an array that is the only one in memory. -/
def wrap (b : Buffer) : Except Failure Workspace :=
  let made := Memory.empty.allocate b
  wrapIn made.2 made.1

/-- A matrix around a value, which has to be a bare array: a matrix is no storage. -/
def wrapValue : MatrixValue → Except Failure Workspace
  | .buffer b => wrap b
  | v => .error (.layout expectedStorage (.text v.description))

/-- A matrix with a copy of the entries of an array that is the only one in memory. -/
def copy (b : Buffer) : Except Failure Workspace :=
  let made := Memory.empty.allocate b
  copyIn made.2 made.1

/-- A matrix that was made without an array. -/
def alone (m : Dense Float) : Workspace where
  memory := (Memory.empty.allocate m.storage).2
  data := (Memory.empty.allocate m.storage).1
  origin? := none
  isSome_dense? := by
    rw [Memory.dense?, Memory.get?_allocate_self, Option.bind_some, Dense.toDense_storage]
    rfl
  isSome_origin := nofun

/-! ## Reading and writing -/

/-- The array that the matrix keeps. -/
def storage (w : Workspace) : Buffer :=
  (w.memory.get? w.data).get (Memory.isSome_get?_of_dense? w.isSome_dense?)

/-- The entries of the matrix. -/
def matrix (w : Workspace) : Dense Float := (w.memory.dense? w.data).get w.isSome_dense?

/-- The workspace with the arrays as they are in another memory. -/
def withMemory (w : Workspace) (mem : Memory) (h : w.memory.Keeps mem) : Workspace where
  memory := mem
  data := w.data
  origin? := w.origin?
  isSome_dense? := h.isSome_dense? w.isSome_dense?
  isSome_origin r hr := h.isSome_get? (w.isSome_origin r hr)

/-- One access to a workspace. -/
inductive Step where
  /-- Reads an entry of the matrix. -/
  | get (row column : Int)
  /-- Replaces an entry of the matrix. -/
  | set (row column : Int) (value : Datum)
  /-- Adds to an entry of the matrix. -/
  | add (row column : Int) (amount : Datum)
  /-- Writes into the storage of the matrix. -/
  | write (row column : Int) (value : Datum)
  /-- Writes into a copy of the entries. -/
  | writeCopy (row column : Int) (value : Datum)
  /-- Writes into the array that the matrix was made from. -/
  | writeSource (row column : Int) (value : Datum)
  /-- Reads the shape. -/
  | shape
  /-- Reads the matrix in one line. -/
  | summary

/-- What a step answers. -/
inductive Answer where
  /-- Nothing. -/
  | done
  /-- A number. -/
  | number (x : Float)
  /-- A shape. -/
  | shape (rows columns : Nat)
  /-- A text. -/
  | text (s : String)
  /-- The step failed. -/
  | failed (failure : Failure)

/-- Changes an array.  If that fails all arrays are as before. -/
def edit (w : Workspace) (r : Reference) (e : Buffer.Edit) : Workspace × Answer :=
  match h : w.memory.edit r e with
  | .ok mem => (w.withMemory mem (Memory.keeps_edit h), .done)
  | .error failure => (w, .failed failure)

theorem keeps_toArray {mem mem' : Memory} {data r : Reference}
    (h : mem.toArray data = .ok (r, mem')) : mem.Keeps mem' := by
  unfold Memory.toArray at h
  split at h
  · cases h
    exact Memory.keeps_allocate _ _
  · cases h

/-- Copies the entries into a new array and changes that one. -/
def editCopy (w : Workspace) (e : Buffer.Edit) : Workspace × Answer :=
  match h : w.memory.toArray w.data with
  | .ok (r, mem) => (w.withMemory mem (keeps_toArray h)).edit r e
  | .error failure => (w, .failed failure)

/-- One step: the workspace after it, and its answer. -/
def step (w : Workspace) : Step → Workspace × Answer
  | .get row column =>
      match w.memory.readAt w.data row column with
      | .ok x => (w, .number x)
      | .error failure => (w, .failed failure)
  | .set row column value => w.edit w.data (.write row column value)
  | .add row column amount => w.edit w.data (.add row column amount)
  | .write row column value =>
      match w.memory.access (.matrix w.data) with
      | .ok r => w.edit r (.write row column value)
      | .error failure => (w, .failed failure)
  | .writeCopy row column value => w.editCopy (.write row column value)
  | .writeSource row column value =>
      match w.origin? with
      | some r => w.edit r (.write row column value)
      | none => (w, .failed .noParts)
  | .shape => (w, .shape w.matrix.rows w.matrix.columns)
  | .summary => (w, .text w.matrix.summary)

/-- The workspaces and answers along a sequence of steps. -/
def run (w : Workspace) : List Step → List (Workspace × Answer)
  | [] => []
  | s :: rest =>
      let next := w.step s
      next :: run next.1 rest

end Workspace

end LeastSquares

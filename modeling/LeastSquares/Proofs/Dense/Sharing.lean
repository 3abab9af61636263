import LeastSquares.Dense.Workspace
import LeastSquares.Proofs.Dense.Storage

/-!
# Copies are isolated and wraps are shared

A matrix that was made from an array can be written to in four ways: by its own operations,
through the storage that it hands out, through the array, and through a copy of its entries.
Each of these changes the array behind one reference (`target?`), or a new array, and what is
behind all other references stays as it is (`get?_step`).  So who sees whose writes depends on
which references are equal, which is decided when the matrix is made.

* A `copyIn` keeps an array that was not there before, so its reference is not that of the
  source (`hasCopy_of_copyIn`).  What is written into the source or into a copy of the entries can
  be left out of a run, and nothing else that the run shows is different.  The other direction
  holds too: the source ends up as if only it had been written to.
* A `wrapIn` keeps the reference that it was given (`isShared_of_wrapIn`).  Writing into the source
  is writing into the storage of the matrix, step by step, and both hold the same entries after
  every step.

Both are statements about two runs of different length.  `Unwinding` relates the workspaces
of two such runs, and `Unwinding.observe_eq` carries the relation along them: a step that
both runs make has one answer, and a step that only the first run makes keeps the relation.

The main result is `run_isolated_or_shared`.
-/

namespace LeastSquares.Workspace

/-! ## What a workspace shows -/

section Views

variable {w w' : Workspace} {b : Buffer}

theorem get?_data (w : Workspace) : w.memory.get? w.data = some w.storage :=
  (Option.some_get _).symm

theorem storage_eq (h : w.memory.get? w.data = some b) : w.storage = b :=
  Option.some.inj (w.get?_data.symm.trans h)

/-- The storage of a matrix holds its entries. -/
theorem toDense_storage (w : Workspace) : w.storage.toDense = .ok w.matrix := by
  have hdense : w.memory.dense? w.data = some w.matrix := (Option.some_get _).symm
  rw [Memory.dense?, w.get?_data, Option.bind_some] at hdense
  cases hm : w.storage.toDense with
  | error failure =>
      rw [hm] at hdense
      cases hdense
  | ok m =>
      rw [hm] at hdense
      rw [← Option.some.inj hdense]

theorem exists_matrix_eq (b : Buffer) : ∃ m, ∀ w : Workspace, w.storage = b → w.matrix = m := by
  cases hm : b.toDense with
  | ok m =>
      refine ⟨m, fun w hb => ?_⟩
      subst hb
      exact Except.ok.inj (w.toDense_storage.symm.trans hm)
  | error failure =>
      refine ⟨.zeros 0 0, fun w hb => ?_⟩
      subst hb
      cases w.toDense_storage.symm.trans hm

theorem matrix_eq (h : w.storage = w'.storage) : w.matrix = w'.matrix := by
  obtain ⟨m, hm⟩ := exists_matrix_eq w'.storage
  rw [hm w h, hm w' rfl]

/-- The entries of the array that the matrix was made from. -/
def source? (w : Workspace) : Option (NArray Float) :=
  (w.origin?.bind w.memory.get?).map Buffer.array

/-- The entries of the array that a copy of the matrix is. -/
def copied? (w : Workspace) : Option (NArray Float) :=
  match w.memory.toArray w.data with
  | .ok (r, mem) => (mem.get? r).map Buffer.array
  | .error _ => none

theorem toArray_eq (w : Workspace) :
    w.memory.toArray w.data = .ok (w.memory.allocate w.matrix.storage) := by
  rw [Memory.toArray, w.get?_data, Dense.storage, Buffer.toNArray_of_toDense w.toDense_storage]

theorem copied?_eq (w : Workspace) : w.copied? = some w.matrix.toNArray := by
  rw [copied?, w.toArray_eq]
  exact congrArg (Option.map Buffer.array) (Memory.get?_allocate_self _ _)

end Views

/-! ## Runs -/

/-- The workspace that a sequence of steps leaves. -/
def after (w : Workspace) (steps : List Step) : Workspace :=
  ((w.run steps).getLast?.map Prod.fst).getD w

/-- What a run shows at the steps that are looked at: their answers, and a view of the
workspace after each of them. -/
def observe {β : Type} (view : Workspace → β) (look : Step → Bool) (w : Workspace)
    (steps : List Step) : List (Answer × β) :=
  ((steps.zip (w.run steps)).filter fun entry => look entry.1).map fun entry =>
    (entry.2.2, view entry.2.1)

section Runs

variable {β : Type} {view : Workspace → β} {look : Step → Bool}

theorem after_cons (w : Workspace) (s : Step) (rest : List Step) :
    w.after (s :: rest) = (w.step s).1.after rest := by
  rw [after, run, List.getLast?_cons, after]
  cases ((w.step s).1.run rest).getLast? with
  | none => rfl
  | some last => rfl

theorem observe_cons (w : Workspace) (s : Step) (rest : List Step) :
    w.observe view look (s :: rest) =
      (if look s then [((w.step s).2, view (w.step s).1)] else []) ++
        (w.step s).1.observe view look rest := by
  rw [observe, run, List.zip_cons_cons, List.filter_cons]
  cases look s with
  | false => rfl
  | true => rfl

end Runs

/-- Two runs can be compared when the second one leaves out the steps that are not looked at. -/
structure Unwinding {β : Type} (view : Workspace → β) (look : Step → Bool)
    (related : Workspace → Workspace → Prop) : Prop where
  view_eq : ∀ w w', related w w' → view w = view w'
  answer_eq : ∀ w w' s, related w w' → look s = true → (w.step s).2 = (w'.step s).2
  both : ∀ w w' s, related w w' → look s = true → related (w.step s).1 (w'.step s).1
  first : ∀ w w' s, related w w' → look s = false → related (w.step s).1 w'

namespace Unwinding

variable {β : Type} {view : Workspace → β} {look : Step → Bool}
  {related : Workspace → Workspace → Prop} {w w' : Workspace}

theorem after (h : Unwinding view look related) (hrelated : related w w') (steps : List Step) :
    related (w.after steps) (w'.after (steps.filter look)) := by
  induction steps generalizing w w' with
  | nil => exact hrelated
  | cons s rest ih =>
      rw [after_cons]
      cases hlook : look s with
      | true =>
          rw [List.filter_cons_of_pos hlook, after_cons]
          exact ih (h.both w w' s hrelated hlook)
      | false =>
          rw [List.filter_cons_of_neg (by simp [hlook])]
          exact ih (h.first w w' s hrelated hlook)

/-- The steps that are looked at show the same in the shorter run. -/
theorem observe_eq (h : Unwinding view look related) (hrelated : related w w')
    (steps : List Step) :
    w.observe view look steps = w'.observe view (fun _ => true) (steps.filter look) := by
  induction steps generalizing w w' with
  | nil => rfl
  | cons s rest ih =>
      rw [observe_cons]
      cases hlook : look s with
      | true =>
          have hnext := h.both w w' s hrelated hlook
          rw [List.filter_cons_of_pos hlook, observe_cons, h.answer_eq w w' s hrelated hlook,
            h.view_eq _ _ hnext, ih hnext, if_pos rfl]
      | false =>
          rw [List.filter_cons_of_neg (by simp [hlook])]
          exact ih (h.first w w' s hrelated hlook)

end Unwinding

/-! ## Steps -/

namespace Step

/-- Whether a step writes into the array that the matrix was made from. -/
def isSourceWrite : Step → Bool
  | writeSource .. => true
  | _ => false

/-- Whether a step writes into a copy of the entries. -/
def isCopyWrite : Step → Bool
  | writeCopy .. => true
  | _ => false

/-- Whether a step goes through the matrix or its storage. -/
def isInner (s : Step) : Bool := !s.isSourceWrite && !s.isCopyWrite

/-- A write into the source as the same write into the storage of the matrix. -/
def inward : Step → Step
  | writeSource row column value => write row column value
  | s => s

/-- The array that a step changes.  A write into a copy changes a new array only. -/
def target? (w : Workspace) : Step → Option Reference
  | set .. | add .. | write .. => some w.data
  | writeSource .. => w.origin?
  | get .. | writeCopy .. | shape | summary => none

end Step

section Steps

variable {w : Workspace} {s : Step} {b : Buffer} {r : Reference} {e : Buffer.Edit}

/-- What a change makes of an array, and what is answered. -/
def outcome (b : Buffer) (e : Buffer.Edit) : Buffer × Answer :=
  match b.edit e with
  | .ok changed => (changed, .done)
  | .error failure => (b, .failed failure)

/-- A change reads nothing but the array that it changes. -/
theorem edit_eq (h : w.memory.get? r = some b) (e : Buffer.Edit) :
    (w.edit r e).1.memory = w.memory.put r (outcome b e).1 ∧ (w.edit r e).2 = (outcome b e).2 := by
  unfold edit outcome
  split
  · rename_i mem hmem
    rw [Memory.edit_eq h] at hmem
    obtain ⟨changed, hchanged, rfl⟩ := map_eq_ok_iff.mp hmem
    rw [hchanged]
    exact ⟨rfl, rfl⟩
  · rename_i failure hfailure
    rw [Memory.edit_eq h, map_eq_error_iff] at hfailure
    rw [hfailure]
    exact ⟨(Memory.put_self h).symm, rfl⟩

theorem get?_edit (h : w.memory.get? r = some b) {r' : Reference} (hne : r ≠ r') :
    (w.edit r' e).1.memory.get? r = some b := by
  unfold edit
  split
  · rename_i mem hmem
    exact (Memory.get?_edit_of_ne hmem hne).trans h
  · exact h

theorem get?_editCopy (h : w.memory.get? r = some b) :
    (w.editCopy e).1.memory.get? r = some b := by
  unfold editCopy
  split
  · rename_i r' mem hmem
    cases w.toArray_eq.symm.trans hmem
    exact get?_edit (Memory.get?_allocate h _) (Memory.ne_of_get? h w.matrix.storage)
  · exact h

theorem data_edit (w : Workspace) (r : Reference) (e : Buffer.Edit) :
    (w.edit r e).1.data = w.data ∧ (w.edit r e).1.origin? = w.origin? := by
  unfold edit
  split <;> exact ⟨rfl, rfl⟩

/-- The matrix keeps its array, and was made from the one that it was made from. -/
theorem data_step (w : Workspace) (s : Step) :
    (w.step s).1.data = w.data ∧ (w.step s).1.origin? = w.origin? := by
  cases s with
  | get row column =>
      simp only [step]
      split <;> exact ⟨rfl, rfl⟩
  | set row column value => exact data_edit w _ _
  | add row column amount => exact data_edit w _ _
  | write row column value => exact data_edit w _ _
  | writeCopy row column value =>
      simp only [step, editCopy]
      split
      · exact data_edit _ _ _
      · exact ⟨rfl, rfl⟩
  | writeSource row column value =>
      simp only [step]
      split
      · exact data_edit w _ _
      · exact ⟨rfl, rfl⟩
  | shape => exact ⟨rfl, rfl⟩
  | summary => exact ⟨rfl, rfl⟩

/-- A step leaves all arrays as they are but the one that it changes. -/
theorem get?_step (h : w.memory.get? r = some b) (htarget : s.target? w ≠ some r) :
    (w.step s).1.memory.get? r = some b := by
  cases s with
  | get row column =>
      simp only [step]
      split <;> exact h
  | set row column value => exact get?_edit h fun hsame => htarget (congrArg some hsame.symm)
  | add row column amount => exact get?_edit h fun hsame => htarget (congrArg some hsame.symm)
  | write row column value => exact get?_edit h fun hsame => htarget (congrArg some hsame.symm)
  | writeCopy row column value => exact get?_editCopy h
  | writeSource row column value =>
      simp only [step]
      split
      · rename_i r' hr'
        exact get?_edit h fun hsame => htarget (hr'.trans (congrArg some hsame.symm))
      · exact h
  | shape => exact h
  | summary => exact h

theorem storage_edit (w : Workspace) (e : Buffer.Edit) :
    (w.edit w.data e).1.storage = (outcome w.storage e).1 ∧
      (w.edit w.data e).2 = (outcome w.storage e).2 := by
  obtain ⟨hmemory, hanswer⟩ := edit_eq w.get?_data e
  refine ⟨storage_eq ?_, hanswer⟩
  rw [hmemory, (data_edit w w.data e).1]
  exact Memory.get?_put_self w.get?_data _

/-- A step through the matrix reads and changes nothing but the storage of the matrix. -/
theorem exists_step_eq (hs : s.isInner = true) (b : Buffer) :
    ∃ b' answer, ∀ w : Workspace, w.storage = b →
      (w.step s).1.storage = b' ∧ (w.step s).2 = answer := by
  cases s with
  | get row column =>
      cases hread : b.readAt row column with
      | ok x =>
          refine ⟨b, .number x, fun w hb => ?_⟩
          subst hb
          simp only [step, Memory.readAt_eq w.get?_data, hread, and_self]
      | error failure =>
          refine ⟨b, .failed failure, fun w hb => ?_⟩
          subst hb
          simp only [step, Memory.readAt_eq w.get?_data, hread, and_self]
  | set row column value => exact ⟨_, _, fun w hb => hb ▸ storage_edit w _⟩
  | add row column amount => exact ⟨_, _, fun w hb => hb ▸ storage_edit w _⟩
  | write row column value => exact ⟨_, _, fun w hb => hb ▸ storage_edit w _⟩
  | shape =>
      obtain ⟨m, hm⟩ := exists_matrix_eq b
      exact ⟨b, .shape m.rows m.columns, fun w hb => ⟨hb, by rw [step, hm w hb]⟩⟩
  | summary =>
      obtain ⟨m, hm⟩ := exists_matrix_eq b
      exact ⟨b, .text m.summary, fun w hb => ⟨hb, by rw [step, hm w hb]⟩⟩
  | writeCopy row column value => exact absurd hs Bool.false_ne_true
  | writeSource row column value => exact absurd hs Bool.false_ne_true

/-- A step changes the array of the matrix, or the one that it was made from, or none. -/
theorem target?_ne (hdata : r ≠ w.data) (horigin : s.isSourceWrite = true → w.origin? ≠ some r) :
    s.target? w ≠ some r := by
  cases s with
  | writeSource row column value => exact horigin rfl
  | set row column value => exact fun h => hdata (Option.some.inj h).symm
  | add row column amount => exact fun h => hdata (Option.some.inj h).symm
  | write row column value => exact fun h => hdata (Option.some.inj h).symm
  | _ => exact nofun

/-- A step that does not change the array of the matrix leaves its entries. -/
theorem storage_step (h : s.target? w ≠ some w.data) : (w.step s).1.storage = w.storage := by
  refine storage_eq ?_
  rw [(data_step w s).1]
  exact get?_step w.get?_data h

end Steps

/-! ## Copies -/

section Copies

variable {w w' : Workspace} {source : Reference} {b b' : Buffer}

/-- A matrix that keeps another array than the one that it was made from. -/
structure HasCopy (source : Reference) (w : Workspace) : Prop where
  origin?_eq : w.origin? = some source
  ne : source ≠ w.data

theorem HasCopy.step (h : w.HasCopy source) (s : Step) : (w.step s).1.HasCopy source where
  origin?_eq := (data_step w s).2.trans h.origin?_eq
  ne := (data_step w s).1 ▸ h.ne

theorem HasCopy.target?_ne_data (h : w.HasCopy source) {s : Step} (hs : s.isInner = false) :
    s.target? w ≠ some w.data := by
  cases s with
  | writeCopy row column value => exact nofun
  | writeSource row column value =>
      exact fun hdata => h.ne (Option.some.inj (h.origin?_eq.symm.trans hdata))
  | _ => exact absurd hs.symm Bool.false_ne_true

/-- Two runs whose matrices keep the same entries, apart from the source. -/
structure SameMatrix (source : Reference) (w w' : Workspace) : Prop where
  hasCopy : w.HasCopy source
  hasCopy' : w'.HasCopy source
  storage_eq : w'.storage = w.storage

/-- Two runs whose sources have the same entries, apart from the matrix. -/
structure SameSource (source : Reference) (w w' : Workspace) : Prop where
  hasCopy : w.HasCopy source
  hasCopy' : w'.HasCopy source
  source : ∃ b, w.memory.get? source = some b ∧ w'.memory.get? source = some b

theorem unwinding_matrix (source : Reference) :
    Unwinding matrix Step.isInner (SameMatrix source) where
  view_eq := by
    rintro w w' ⟨-, -, hsame⟩
    exact matrix_eq hsame.symm
  answer_eq := by
    rintro w w' s ⟨-, -, hsame⟩ hs
    obtain ⟨b', answer, h⟩ := exists_step_eq hs w.storage
    exact (h w rfl).2.trans (h w' hsame).2.symm
  both := by
    rintro w w' s ⟨hw, hw', hsame⟩ hs
    obtain ⟨b', answer, h⟩ := exists_step_eq hs w.storage
    exact ⟨hw.step s, hw'.step s, (h w' hsame).1.trans (h w rfl).1.symm⟩
  first := by
    rintro w w' s ⟨hw, hw', hsame⟩ hs
    exact ⟨hw.step s, hw', hsame.trans (storage_step (hw.target?_ne_data hs)).symm⟩

/-- A write into the source reads and changes nothing but the source. -/
theorem exists_step_writeSource_eq {s : Step} (hs : s.isSourceWrite = true) (b : Buffer) :
    ∃ b' answer, ∀ w : Workspace, w.origin? = some source → w.memory.get? source = some b →
      (w.step s).1.memory = w.memory.put source b' ∧ (w.step s).2 = answer := by
  cases s with
  | writeSource row column value =>
      let done := outcome b (.write row column value)
      refine ⟨done.1, done.2, fun w hsource hb => ?_⟩
      rw [step, hsource]
      exact edit_eq hb _
  | _ => exact absurd hs Bool.false_ne_true

theorem source?_eq (h : w.HasCopy source) (hb : w.memory.get? source = some b) :
    w.source? = some b.array := by
  rw [source?, h.origin?_eq, Option.bind_some, hb]
  rfl

theorem unwinding_source (source : Reference) :
    Unwinding source? Step.isSourceWrite (SameSource source) where
  view_eq := by
    rintro w w' ⟨hw, hw', b, hb, hb'⟩
    rw [source?_eq hw hb, source?_eq hw' hb']
  answer_eq := by
    rintro w w' s ⟨hw, hw', b, hb, hb'⟩ hs
    obtain ⟨changed, answer, h⟩ := exists_step_writeSource_eq hs b
    exact (h w hw.origin?_eq hb).2.trans (h w' hw'.origin?_eq hb').2.symm
  both := by
    rintro w w' s ⟨hw, hw', b, hb, hb'⟩ hs
    obtain ⟨changed, answer, h⟩ := exists_step_writeSource_eq hs b
    refine ⟨hw.step s, hw'.step s, changed, ?_, ?_⟩
    · rw [(h w hw.origin?_eq hb).1]
      exact Memory.get?_put_self hb changed
    · rw [(h w' hw'.origin?_eq hb').1]
      exact Memory.get?_put_self hb' changed
  first := by
    rintro w w' s ⟨hw, hw', b, hb, hb'⟩ hs
    have htarget : s.target? w ≠ some source :=
      target?_ne hw.ne fun hwrite => absurd (hs.symm.trans hwrite) Bool.false_ne_true
    exact ⟨hw.step s, hw', b, get?_step hb htarget, hb'⟩

/-- A copy keeps an array that was not there before, and all others are as they were. -/
theorem hasCopy_of_copyIn {mem : Memory} (h : copyIn mem source = .ok w) :
    w.HasCopy source ∧
      (∀ r b, mem.get? r = some b → w.memory.get? r = some b ∧ r ≠ w.data) ∧
      ∃ b, mem.get? source = some b ∧ Dense.ofNArray b.array = .ok w.matrix := by
  unfold copyIn at h
  split at h
  · rename_i data mem' hcopy
    obtain ⟨b, hb, hmade, -⟩ := exists_of_copy hcopy
    obtain ⟨rfl, rfl⟩ := Prod.mk.inj hmade
    have hkept : ∀ r b', mem.get? r = some b' →
        (mem.allocate (.plain b.array.padded)).2.get? r = some b' ∧
          r ≠ (mem.allocate (.plain b.array.padded)).1 :=
      fun r b' hr => ⟨Memory.get?_allocate hr _, Memory.ne_of_get? hr _⟩
    cases h
    refine ⟨⟨rfl, (hkept source b hb).2⟩, hkept, b, hb, ?_⟩
    rw [← Buffer.toDense_plain_padded, ← toDense_storage]
    exact congrArg Buffer.toDense (storage_eq (Memory.get?_allocate_self _ _)).symm
  · cases h

/-- An array is copied if there is a matrix with its entries. -/
theorem exists_copyIn {mem : Memory} {m : Dense Float} (hb : mem.get? source = some b)
    (hm : Dense.ofNArray b.array = .ok m) : ∃ w, copyIn mem source = .ok w ∧ w.matrix = m := by
  have hcopy : mem.copy source = .ok (mem.allocate (.plain b.array.padded)) := by
    simp only [Memory.copy, hb, Memory.wrap, Memory.get?_allocate_self,
      Buffer.toDense_plain_padded, hm]
    rfl
  have hmade : ∃ w, copyIn mem source = .ok w := by
    unfold copyIn
    split
    · exact ⟨_, rfl⟩
    · rename_i failure hfailure
      cases hcopy.symm.trans hfailure
  obtain ⟨w, hw⟩ := hmade
  obtain ⟨-, -, b', hb', hm'⟩ := hasCopy_of_copyIn hw
  cases hb.symm.trans hb'
  exact ⟨w, hw, Except.ok.inj (hm'.symm.trans hm)⟩

/-- An array that is alone in memory is left as it is when it is copied. -/
theorem exists_copy {m : Dense Float} (hm : Dense.ofNArray b.array = .ok m) :
    ∃ w, copy b = .ok w ∧ w.matrix = m ∧ w.source? = some b.array := by
  have hb := Memory.empty.get?_allocate_self b
  obtain ⟨w, hw, hmatrix⟩ := exists_copyIn hb hm
  obtain ⟨hcopy, hkept, -⟩ := hasCopy_of_copyIn hw
  exact ⟨w, hw, hmatrix, source?_eq hcopy (hkept _ b hb).1⟩

end Copies

/-! ## Wraps -/

section Wraps

variable {w w' : Workspace} {source : Reference}

/-- A matrix that keeps the very array that it was made from. -/
def IsShared (w : Workspace) : Prop := w.origin? = some w.data

theorem IsShared.step_inward (h : w.IsShared) (s : Step) : w.step s.inward = w.step s := by
  cases s with
  | writeSource row column value =>
      have hsource : w.step (.writeSource row column value) =
          w.edit w.data (.write row column value) := by
        rw [step, h]
      exact hsource.symm
  | _ => rfl

theorem IsShared.step (h : w.IsShared) (s : Step) : (w.step s).1.IsShared := by
  rw [IsShared, (data_step w s).1, (data_step w s).2]
  exact h

/-- Writes into the source and writes into the storage of the matrix make the same run. -/
theorem IsShared.run_inward (h : w.IsShared) (steps : List Step) :
    w.run (steps.map Step.inward) = w.run steps := by
  induction steps generalizing w with
  | nil => rfl
  | cons s rest ih =>
      rw [List.map_cons]
      simp only [run]
      rw [h.step_inward, ih (h.step s)]

theorem IsShared.of_mem_run (h : w.IsShared) {steps : List Step} {entry : Workspace × Answer}
    (hentry : entry ∈ w.run steps) : entry.1.IsShared := by
  induction steps generalizing w with
  | nil => exact absurd hentry List.not_mem_nil
  | cons s rest ih =>
      simp only [run] at hentry
      rcases List.mem_cons.mp hentry with rfl | hrest
      · exact h.step s
      · exact ih (h.step s) hrest

theorem IsShared.source?_eq (h : w.IsShared) : w.source? = some w.matrix.toNArray := by
  rw [source?, h, Option.bind_some, w.get?_data, Buffer.toNArray_of_toDense w.toDense_storage]
  rfl

/-- Two runs whose matrices share the same entries with their sources. -/
structure SameShared (w w' : Workspace) : Prop where
  isShared : w.IsShared
  isShared' : w'.IsShared
  storage_eq : w'.storage = w.storage

theorem isInner_inward {s : Step} (hs : (!s.isCopyWrite) = true) : s.inward.isInner = true := by
  cases s with
  | writeCopy row column value => exact absurd hs Bool.false_ne_true
  | _ => rfl

/-- Writes into copies can be left out of a run. -/
theorem unwinding_copies : Unwinding matrix (fun s => !s.isCopyWrite) SameShared where
  view_eq := by
    rintro w w' ⟨-, -, hsame⟩
    exact matrix_eq hsame.symm
  answer_eq := by
    rintro w w' s ⟨hw, hw', hsame⟩ hs
    obtain ⟨b', answer, h⟩ := exists_step_eq (isInner_inward hs) w.storage
    rw [← hw.step_inward, ← hw'.step_inward]
    exact (h w rfl).2.trans (h w' hsame).2.symm
  both := by
    rintro w w' s ⟨hw, hw', hsame⟩ hs
    obtain ⟨b', answer, h⟩ := exists_step_eq (isInner_inward hs) w.storage
    refine ⟨hw.step s, hw'.step s, ?_⟩
    rw [← hw.step_inward, ← hw'.step_inward]
    exact (h w' hsame).1.trans (h w rfl).1.symm
  first := by
    rintro w w' s ⟨hw, hw', hsame⟩ hs
    refine ⟨hw.step s, hw', hsame.trans (Eq.symm (storage_step ?_))⟩
    cases s with
    | writeCopy row column value => exact nofun
    | _ => exact absurd hs.symm Bool.false_ne_true

/-- A wrap keeps the array that it is given. -/
theorem isShared_of_wrapIn {mem : Memory} (h : wrapIn mem source = .ok w) :
    w.IsShared ∧ w.memory = mem ∧ w.data = source := by
  unfold wrapIn at h
  split at h
  · rename_i data hwrap
    obtain ⟨rfl, -⟩ := isSome_of_wrap hwrap
    cases h
    exact ⟨rfl, rfl, rfl⟩
  · cases h

/-- An array is wrapped if it is the storage of a matrix. -/
theorem exists_wrapIn {mem : Memory} {b : Buffer} {m : Dense Float}
    (hb : mem.get? source = some b) (hm : b.toDense = .ok m) :
    ∃ w, wrapIn mem source = .ok w ∧ w.matrix = m := by
  have hwrap : mem.wrap source = .ok source := by
    rw [Memory.wrap_eq hb, hm]
    rfl
  have hmade : ∃ w, wrapIn mem source = .ok w := by
    unfold wrapIn
    split
    · exact ⟨_, rfl⟩
    · rename_i failure hfailure
      cases hwrap.symm.trans hfailure
  obtain ⟨w, hw⟩ := hmade
  obtain ⟨-, rfl, rfl⟩ := isShared_of_wrapIn hw
  exact ⟨w, hw, Except.ok.inj (w.toDense_storage.symm.trans (storage_eq hb ▸ hm))⟩

/-- An array that is no storage of a matrix is refused. -/
theorem wrapIn_eq_error {mem : Memory} {b : Buffer} {failure : Failure}
    (hb : mem.get? source = some b) (hfailure : b.toDense = .error failure) :
    wrapIn mem source = .error failure := by
  have hwrap : mem.wrap source = .error failure := by
    rw [Memory.wrap_eq hb, hfailure]
    rfl
  unfold wrapIn
  split
  · rename_i data hdata
    cases hwrap.symm.trans hdata
  · rename_i failure' hfailure'
    exact congrArg Except.error (Except.error.inj (hfailure'.symm.trans hwrap))

theorem exists_wrap {b : Buffer} {m : Dense Float} (hm : b.toDense = .ok m) :
    ∃ w, wrap b = .ok w ∧ w.matrix = m ∧ w.IsShared := by
  obtain ⟨w, hw, hmatrix⟩ := exists_wrapIn (Memory.empty.get?_allocate_self b) hm
  exact ⟨w, hw, hmatrix, (isShared_of_wrapIn hw).1⟩

theorem wrap_eq_error {b : Buffer} {failure : Failure} (hfailure : b.toDense = .error failure) :
    wrap b = .error failure :=
  wrapIn_eq_error (Memory.empty.get?_allocate_self b) hfailure

end Wraps

/-! ## The two kinds of runs -/

/-- A run changes no array but that of the matrix and the one that it was made from. -/
theorem get?_after {w : Workspace} {r : Reference} {b : Buffer}
    (hb : w.memory.get? r = some b) (hdata : r ≠ w.data) (horigin : w.origin? ≠ some r)
    (steps : List Step) : (w.after steps).memory.get? r = some b := by
  induction steps generalizing w with
  | nil => exact hb
  | cons s rest ih =>
      rw [after_cons]
      obtain ⟨hsame, horigin'⟩ := data_step w s
      exact ih (get?_step hb (target?_ne hdata fun _ => horigin)) (hsame ▸ hdata) (horigin' ▸ horigin)

/-- A run on a matrix that has an array of its own. -/
structure RunsIsolated (w : Workspace) (steps : List Step) : Prop where
  /-- Without the writes from outside, every other step has its answer and leaves its entries. -/
  observe_eq : w.observe matrix Step.isInner steps =
    w.observe matrix (fun _ => true) (steps.filter Step.isInner)
  matrix_eq : (w.after steps).matrix = (w.after (steps.filter Step.isInner)).matrix
  copied?_eq : (w.after steps).copied? = (w.after (steps.filter Step.isInner)).copied?
  /-- The source is written to by the writes into the source only. -/
  observe_source_eq : w.observe source? Step.isSourceWrite steps =
    w.observe source? (fun _ => true) (steps.filter Step.isSourceWrite)
  source_eq : (w.after steps).source? = (w.after (steps.filter Step.isSourceWrite)).source?

/-- A run on a matrix that has the array of its source. -/
structure RunsShared (w : Workspace) (steps : List Step) : Prop where
  /-- It does not matter through which of the two the array is written to. -/
  run_inward : w.run (steps.map Step.inward) = w.run steps
  source_eq : ∀ entry ∈ w.run steps, entry.1.source? = some entry.1.matrix.toNArray
  /-- Without the writes into copies, every other step has its answer and leaves its entries. -/
  observe_eq : w.observe matrix (fun s => !s.isCopyWrite) steps =
    w.observe matrix (fun _ => true) (steps.filter fun s => !s.isCopyWrite)
  matrix_eq : (w.after steps).matrix = (w.after (steps.filter fun s => !s.isCopyWrite)).matrix
  copied?_eq : (w.after steps).copied? = (w.after (steps.filter fun s => !s.isCopyWrite)).copied?

theorem HasCopy.runsIsolated {w : Workspace} {source : Reference} (h : w.HasCopy source)
    (steps : List Step) : RunsIsolated w steps := by
  obtain ⟨b, hb⟩ := Option.isSome_iff_exists.mp (w.isSome_origin source h.origin?_eq)
  have hmatrix : SameMatrix source w w := ⟨h, h, rfl⟩
  have hsource : SameSource source w w := ⟨h, h, b, hb, hb⟩
  have hafter := (unwinding_matrix source).view_eq _ _
    ((unwinding_matrix source).after hmatrix steps)
  exact {
    observe_eq := (unwinding_matrix source).observe_eq hmatrix steps
    matrix_eq := hafter
    copied?_eq := by rw [Workspace.copied?_eq, Workspace.copied?_eq, hafter]
    observe_source_eq := (unwinding_source source).observe_eq hsource steps
    source_eq := (unwinding_source source).view_eq _ _
      ((unwinding_source source).after hsource steps) }

theorem IsShared.runsShared {w : Workspace} (h : w.IsShared) (steps : List Step) :
    RunsShared w steps := by
  have hsame : SameShared w w := ⟨h, h, rfl⟩
  have hafter := unwinding_copies.view_eq _ _ (unwinding_copies.after hsame steps)
  exact {
    run_inward := h.run_inward steps
    source_eq := fun _ hentry => (h.of_mem_run hentry).source?_eq
    observe_eq := unwinding_copies.observe_eq hsame steps
    matrix_eq := hafter
    copied?_eq := by rw [Workspace.copied?_eq, Workspace.copied?_eq, hafter] }

/-- **Copies are isolated, wraps are shared.**  Whatever array in memory a matrix is made from,
and whatever is done with it, its source and copies of its entries: if the matrix was made as a
copy, the writes into the source and into copies can be left out of the run, and if it wraps
the array, writing into the array is writing into the storage of the matrix.  All other arrays
stay as they are. -/
theorem run_isolated_or_shared (mem : Memory) (source : Reference) (steps : List Step) :
    (∀ w, copyIn mem source = .ok w →
      w.source? = (mem.get? source).map Buffer.array ∧ RunsIsolated w steps) ∧
    (∀ w, wrapIn mem source = .ok w →
      w.source? = (mem.get? source).map Buffer.array ∧ RunsShared w steps) ∧
    ∀ w, copyIn mem source = .ok w ∨ wrapIn mem source = .ok w → ∀ r b, r ≠ source →
      mem.get? r = some b → (w.after steps).memory.get? r = some b := by
  refine ⟨?_, ?_, ?_⟩
  · intro w hw
    obtain ⟨hcopy, hkept, b, hb, -⟩ := hasCopy_of_copyIn hw
    rw [source?_eq hcopy (hkept source b hb).1, hb]
    exact ⟨rfl, hcopy.runsIsolated steps⟩
  · intro w hw
    obtain ⟨hshared, rfl, rfl⟩ := isShared_of_wrapIn hw
    refine ⟨?_, hshared.runsShared steps⟩
    rw [source?, hshared, Option.bind_some]
  · rintro w (hw | hw) r b hne hb
    · obtain ⟨hcopy, hkept, -⟩ := hasCopy_of_copyIn hw
      obtain ⟨hstill, hdata⟩ := hkept r b hb
      refine get?_after hstill hdata (fun hsource => hne ?_) steps
      exact (Option.some.inj (hcopy.origin?_eq.symm.trans hsource)).symm
    · obtain ⟨hshared, rfl, rfl⟩ := isShared_of_wrapIn hw
      refine get?_after hb hne (fun hsource => hne ?_) steps
      exact (Option.some.inj (hshared.symm.trans hsource)).symm

/-- An array of one column, which is stored column after column as well, next to another array.
One write misses it, one reaches its last entry from the end. -/
theorem run_isolated_or_shared_column :
    let b : Buffer := ⟨.float64, true, ⟨[3, 1], [41.5, -0.0, 6], rfl⟩, true⟩
    let mem : Memory := ⟨[.plain ⟨[2], [3, 4.25], rfl⟩, b]⟩
    let steps : List Step := [.writeSource 0 0 (.int 7), .set 3 0 (.float 2.5), .get 0 (-1),
      .writeCopy 1 0 (.float 8), .writeSource (-1) 0 (.float 0.25), .add 2 0 (.bool true), .summary]
    let m := Dense.ofArray 3 1 [41.5, -0.0, 6] rfl
    (∃ w, copyIn mem ⟨1⟩ = .ok w ∧ w.matrix = m ∧ RunsIsolated w steps) ∧
      ∃ w, wrapIn mem ⟨1⟩ = .ok w ∧ w.matrix = m ∧ RunsShared w steps ∧
        (w.after steps).memory.get? ⟨0⟩ = mem.get? ⟨0⟩ := by
  intro b mem steps m
  obtain ⟨copied, hcopied, hm⟩ : ∃ w, copyIn mem ⟨1⟩ = .ok w ∧ w.matrix = m :=
    exists_copyIn (b := b) rfl rfl
  obtain ⟨wrapped, hwrapped, hm'⟩ : ∃ w, wrapIn mem ⟨1⟩ = .ok w ∧ w.matrix = m :=
    exists_wrapIn (b := b) rfl rfl
  obtain ⟨hisolated, hshared, hothers⟩ := run_isolated_or_shared mem ⟨1⟩ steps
  exact ⟨⟨copied, hcopied, hm, (hisolated copied hcopied).2⟩, wrapped, hwrapped, hm',
    (hshared wrapped hwrapped).2, hothers wrapped (.inr hwrapped) ⟨0⟩ _ (by decide) rfl⟩

end LeastSquares.Workspace

import LeastSquares.Dense.Place

/-!
# Which arrays are the storage of a matrix

An array is taken as the storage of a matrix if it has two axes, 64-bit floating-point
entries, and these row after row (`Buffer.exists_toDense_iff`).  The matrix has the entries of
the array (`Buffer.toNArray_of_toDense`), and every matrix has such an array for its storage
(`Dense.toDense_storage`), so that nothing is refused that the library itself has made.

The order in which an array is stored matters only where both axes are longer than one
(`Buffer.rowMajor_pair_iff`): otherwise the two orders are the same.
-/

namespace LeastSquares

universe u

theorem NArray.eq_of_shape_eq {α : Type u} {a : NArray α} {shape : List Nat}
    (h : a.shape = shape) (hlength : a.entries.length = Nesting.volume shape) :
    a = ⟨shape, a.entries, hlength⟩ := by
  subst h
  rfl

theorem Dense.toNArray_ofArray {α : Type u} (m n : Nat) (entries : List α)
    (h : entries.length = Nesting.volume [m, n]) :
    (ofArray m n entries h).toNArray = ⟨[m, n], entries, h⟩ := by
  have hlength : entries.length = m * n := h.trans (Nesting.volume_pair m n)
  have hflatten : (NArray.splitRows n m entries).flatten = entries :=
    NArray.flatten_splitRows (Nat.le_of_eq hlength)
  simp only [toNArray, ofArray, hflatten]

namespace Buffer

variable {b : Buffer} {m : Dense Float}

/-- Two axes are stored row after row unless they are stored column after column and both are
longer than one. -/
theorem rowMajor_pair_iff {rows columns : Nat} (h : b.array.shape = [rows, columns]) :
    b.rowMajor = true ↔ (b.columnMajor = true → rows ≤ 1 ∨ columns ≤ 1) := by
  have hlong : ([rows, columns].filter fun n => decide (1 < n)).length ≤ 1 ↔
      rows ≤ 1 ∨ columns ≤ 1 := by
    rw [← List.countP_eq_length_filter, List.countP_cons, List.countP_singleton]
    simp only [decide_eq_true_eq]
    split <;> split <;> omega
  have hempty : [rows, columns].any (· == 0) = true → rows ≤ 1 ∨ columns ≤ 1 := by
    simp only [List.any_cons, List.any_nil, Bool.or_false, Bool.or_eq_true, beq_iff_eq]
    omega
  unfold rowMajor
  rw [h, Bool.or_eq_true, Bool.or_eq_true, Bool.not_eq_true', decide_eq_true_iff, hlong]
  cases b.columnMajor with
  | false => simp
  | true =>
      constructor
      · rintro ((hfalse | hzero) | hshort) -
        · exact absurd hfalse.symm Bool.false_ne_true
        · exact hempty hzero
        · exact hshort
      · intro hshort
        exact Or.inr (hshort rfl)

/-- An array is the storage of the matrix with its entries. -/
theorem toDense_eq_ok_iff : b.toDense = .ok m ↔
    b.kind = .float64 ∧ b.rowMajor = true ∧ b.array = m.toNArray := by
  obtain ⟨kind, columnMajor, array, writable⟩ := b
  constructor
  · intro h
    unfold toDense at h
    split at h
    · rename_i rows columns entries hlength harray
      split at h
      · rename_i hstored
        obtain rfl := Except.ok.inj h
        rw [Dense.toNArray_ofArray]
        exact ⟨hstored.1, hstored.2, harray⟩
      · cases h
    · cases h
  · rintro ⟨hkind, hrow, harray⟩
    simp only at hkind harray
    subst hkind harray
    have hsame : Dense.ofArray m.rows m.columns m.entries.flatten m.toNArray.length_entries = m :=
      Option.some.inj m.ofNArray?_toNArray
    exact (if_pos ⟨rfl, hrow⟩).trans (congrArg Except.ok hsame)

theorem toNArray_of_toDense (h : b.toDense = .ok m) : m.toNArray = b.array :=
  (toDense_eq_ok_iff.mp h).2.2.symm

/-- The entries of the storage of a matrix are those of the matrix. -/
theorem table?_of_toDense (h : b.toDense = .ok m) : b.table? = some m := by
  obtain ⟨kind, columnMajor, array, writable⟩ := b
  obtain ⟨-, -, harray⟩ := toDense_eq_ok_iff.mp h
  simp only at harray
  subst harray
  exact m.ofNArray?_toNArray

theorem toDense_withEntries {m' : Dense Float} (h : b.toDense = .ok m) (hshape : m.SameShape m') :
    (b.withEntries m').toDense = .ok m' := by
  obtain ⟨hkind, hrow, -⟩ := toDense_eq_ok_iff.mp h
  have hlayout := sameLayout_withEntries (table?_of_toDense h) hshape
  exact toDense_eq_ok_iff.mpr ⟨hkind, hlayout.rowMajor_eq.trans hrow, rfl⟩

/-- Which arrays are accepted. -/
theorem exists_toDense_iff : (∃ m, b.toDense = .ok m) ↔
    b.kind = .float64 ∧ ∃ rows columns, b.array.shape = [rows, columns] ∧
      (b.columnMajor = true → rows ≤ 1 ∨ columns ≤ 1) := by
  constructor
  · rintro ⟨m, hm⟩
    obtain ⟨hkind, hrow, harray⟩ := toDense_eq_ok_iff.mp hm
    have hshape : b.array.shape = [m.rows, m.columns] := by
      rw [harray]
      rfl
    exact ⟨hkind, m.rows, m.columns, hshape, (rowMajor_pair_iff hshape).mp hrow⟩
  · rintro ⟨hkind, rows, columns, hshape, hshort⟩
    have hrow := (rowMajor_pair_iff hshape).mpr hshort
    have hlength : b.array.entries.length = Nesting.volume [rows, columns] :=
      hshape ▸ b.array.length_entries
    refine ⟨Dense.ofArray rows columns b.array.entries hlength, ?_⟩
    refine toDense_eq_ok_iff.mpr ⟨hkind, hrow, ?_⟩
    rw [Dense.toNArray_ofArray]
    exact NArray.eq_of_shape_eq hshape hlength

theorem toDense_eq_error {failure : Failure} (h : b.toDense = .error failure) :
    failure = b.refusal := by
  unfold toDense at h
  split at h
  · split at h
    · cases h
    · exact (Except.error.inj h).symm
  · exact (Except.error.inj h).symm

end Buffer

end LeastSquares

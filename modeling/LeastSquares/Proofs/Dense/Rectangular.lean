import LeastSquares.Proofs.Dense.Sharing
import LeastSquares.Proofs.Store.Reading

/-!
# Which nestings are matrices

A nesting of numbers is made into a matrix if it is rectangular and lists are nested at most twice
in it.  What rectangular means is said here level by level, without reference to a shape: any two
nestings at one level have the same depth and the same length (`Nesting.IsRectangular`).

The shape that is looked for from the inside out exists exactly for these
(`Nesting.exists_shape?_iff`).  A shape describes all levels at once, because the nestings at level
`k` have what is left of it without the first `k` lengths (`Nesting.shape?_of_mem_level`).
Conversely, members of a rectangular nesting that have shapes have one shape.  That cannot be seen
from their scalars, as there may be none; it is seen from the lengths at each level
(`Nesting.shape_eq_of_level`).

The number of axes is the depth, so a nesting that is deeper than two is refused as an array of so
many axes, and of the others the rows can be written down.  The main result is
`Dense.ofNesting_accepts_rectangular`.
-/

namespace LeastSquares

variable {α β : Type*}

namespace Nesting

/-! ## Levels -/

/-- The members of a list.  A scalar has none. -/
def children : Nesting α → List (Nesting α)
  | leaf _ => []
  | node children => children

/-- The number of members of a list.  A scalar has no length. -/
def length? : Nesting α → Option ℕ
  | leaf _ => none
  | node children => some children.length

mutual

/-- How deep lists are nested: not at all in a scalar, and once in the empty list. -/
def depth : Nesting α → ℕ
  | leaf _ => 0
  | node children => maxDepth children + 1

/-- The greatest depth of nestings, zero if there are none. -/
def maxDepth : List (Nesting α) → ℕ
  | [] => 0
  | n :: rest => max (depth n) (maxDepth rest)

end

/-- The nestings at a level: at level zero the nesting itself, and at the next one the members of
what is there. -/
def level : ℕ → Nesting α → List (Nesting α)
  | 0, n => [n]
  | k + 1, n => n.children.flatMap (level k)

/-- Siblings agree: any two nestings at one level have the same depth and the same length. -/
def IsRectangular (n : Nesting α) : Prop :=
  ∀ k, ∀ a ∈ n.level k, ∀ b ∈ n.level k, a.depth = b.depth ∧ a.length? = b.length?

variable {n a b c : Nesting α} {ns : List (Nesting α)} {s t : List ℕ} {k : ℕ}

theorem mem_level_succ : a ∈ n.level (k + 1) ↔ ∃ c ∈ n.children, a ∈ c.level k :=
  List.mem_flatMap

theorem IsRectangular.of_mem (h : n.IsRectangular) (hc : c ∈ n.children) : c.IsRectangular :=
  fun k a ha b hb => h (k + 1) a (mem_level_succ.mpr ⟨c, hc, ha⟩) b (mem_level_succ.mpr ⟨c, hc, hb⟩)

/-! ## Shapes -/

/-- The shape of a list: its length, followed by the shape that all members have. -/
theorem shape?_node_eq_some_iff :
    (node ns).shape? = some s ↔
      ns = [] ∧ s = [0] ∨ ns ≠ [] ∧ ∃ t, s = ns.length :: t ∧ ∀ c ∈ ns, c.shape? = some t := by
  rw [shape?, Option.bind_eq_some_iff]
  simp only [shapes?_eq_some_iff]
  constructor
  · rintro ⟨shapes, hshapes, hstack⟩
    cases hshapes with
    | nil => exact .inl ⟨rfl, (Option.some.inj hstack).symm⟩
    | @cons c first ns rest hc hrest =>
        rw [stackShapes, Option.ite_none_right_eq_some] at hstack
        obtain ⟨hsame, hs⟩ := hstack
        obtain rfl := Option.some.inj hs
        refine .inr ⟨List.cons_ne_nil c ns, first, by rw [List.length_cons, hrest.length_eq], ?_⟩
        refine List.forall_mem_cons.mpr ⟨hc, fun d hd => ?_⟩
        obtain ⟨u, hu, hdu⟩ := exists_of_forall₂ hrest hd
        rw [hdu, eq_of_beq (List.all_eq_true.mp hsame u hu)]
  · rintro (⟨rfl, rfl⟩ | ⟨hne, t, rfl, hall⟩)
    · exact ⟨[], .nil, rfl⟩
    · refine ⟨List.replicate ns.length t, ?_, ?_⟩
      · rwa [← List.map_const', List.forall₂_map_right_iff, List.forall₂_same]
      · exact stackShapes_replicate (mt List.length_eq_zero_iff.mp hne) t

/-- The nestings at a level have what is left of the shape. -/
theorem shape?_of_mem_level (hn : n.shape? = some s) (ha : a ∈ n.level k) :
    a.shape? = some (s.drop k) := by
  induction k generalizing n s with
  | zero =>
      obtain rfl := List.mem_singleton.mp ha
      exact hn
  | succ k ih =>
      obtain ⟨c, hc, hac⟩ := mem_level_succ.mp ha
      cases n with
      | leaf x => cases hc
      | node ns =>
          rcases shape?_node_eq_some_iff.mp hn with ⟨rfl, -⟩ | ⟨-, t, rfl, hall⟩
          · cases hc
          · exact ih (hall c hc) hac

theorem maxDepth_eq {d : ℕ} (hne : ns ≠ []) (h : ∀ c ∈ ns, c.depth = d) : maxDepth ns = d := by
  induction ns with
  | nil => exact absurd rfl hne
  | cons c ns ih =>
      obtain ⟨hc, hrest⟩ := List.forall_mem_cons.mp h
      rw [maxDepth, hc]
      cases ns with
      | nil => exact Nat.max_zero d
      | cons c' ns => rw [ih (List.cons_ne_nil c' ns) hrest, Nat.max_self]

/-- There is one axis for each depth. -/
theorem depth_eq_length (h : n.shape? = some s) : n.depth = s.length := by
  induction s generalizing n with
  | nil =>
      cases n with
      | leaf x => rfl
      | node ns => rcases shape?_node_eq_some_iff.mp h with ⟨-, heq⟩ | ⟨-, t, heq, -⟩ <;> cases heq
  | cons l s ih =>
      cases n with
      | leaf x => cases h
      | node ns =>
          rcases shape?_node_eq_some_iff.mp h with ⟨rfl, heq⟩ | ⟨hne, t, heq, hall⟩
          · cases heq
            rfl
          · cases heq
            rw [depth, maxDepth_eq hne fun c hc => ih (hall c hc), List.length_cons]

theorem length?_eq_head? (h : n.shape? = some s) : n.length? = s.head? := by
  cases n with
  | leaf x =>
      obtain rfl := Option.some.inj h
      rfl
  | node ns =>
      rcases shape?_node_eq_some_iff.mp h with ⟨rfl, rfl⟩ | ⟨-, t, rfl, -⟩
      · rfl
      · rfl

theorem IsRectangular.of_shape? (h : n.shape? = some s) : n.IsRectangular := by
  intro k a ha b hb
  have hsa := shape?_of_mem_level h ha
  have hsb := shape?_of_mem_level h hb
  exact ⟨(depth_eq_length hsa).trans (depth_eq_length hsb).symm,
    (length?_eq_head? hsa).trans (length?_eq_head? hsb).symm⟩

/-- A list without members has no further axis, and any other one a member with the others. -/
theorem exists_child_of_shape? {l : ℕ} (h : n.shape? = some (l :: s)) :
    l = 0 ∧ s = [] ∨ l ≠ 0 ∧ ∃ c ∈ n.children, c.shape? = some s := by
  cases n with
  | leaf x => cases h
  | node ns =>
      rcases shape?_node_eq_some_iff.mp h with ⟨-, heq⟩ | ⟨hne, t, heq, hall⟩
      · cases heq
        exact .inl ⟨rfl, rfl⟩
      · cases heq
        obtain ⟨c, hc⟩ := List.exists_mem_of_ne_nil ns hne
        exact .inr ⟨mt List.length_eq_zero_iff.mp hne, c, hc, hall c hc⟩

theorem head?_eq_of_length? (ha : a.shape? = some s) (hb : b.shape? = some t)
    (h : a.length? = b.length?) : t.head? = s.head? := by
  rw [← length?_eq_head? ha, ← length?_eq_head? hb, h]

/-- Nestings that agree in length at each level have the same shape, if they have one. -/
theorem shape_eq_of_level (ha : a.shape? = some s) (hb : b.shape? = some t)
    (h : ∀ k, ∀ a' ∈ a.level k, ∀ b' ∈ b.level k, a'.length? = b'.length?) : s = t := by
  induction s generalizing a b t with
  | nil =>
      have hhead := head?_eq_of_length? ha hb (h 0 a List.mem_cons_self b List.mem_cons_self)
      exact (List.head?_eq_none_iff.mp hhead).symm
  | cons l s ih =>
      have hhead := head?_eq_of_length? ha hb (h 0 a List.mem_cons_self b List.mem_cons_self)
      obtain ⟨t, rfl⟩ := List.head?_eq_some_iff.mp hhead
      -- The list without members has no level below it in which to look for a difference.
      rcases exists_child_of_shape? ha with ⟨hl, rfl⟩ | ⟨hl, c, hc, hcs⟩
      · rcases exists_child_of_shape? hb with ⟨-, rfl⟩ | ⟨hl', -⟩
        · rfl
        · exact absurd hl hl'
      · rcases exists_child_of_shape? hb with ⟨hl', -⟩ | ⟨-, d, hd, hds⟩
        · exact absurd hl' hl
        · rw [ih hcs hds fun k a' ha' b' hb' => h (k + 1) a' (mem_level_succ.mpr ⟨c, hc, ha'⟩)
            b' (mem_level_succ.mpr ⟨d, hd, hb'⟩)]

theorem exists_shape?_of_isRectangular : ∀ n : Nesting α, n.IsRectangular → ∃ s, n.shape? = some s
  | leaf x, _ => ⟨[], rfl⟩
  | node ns, h => by
      have hshapes : ∀ c ∈ ns, ∃ s, c.shape? = some s :=
        fun c hc => exists_shape?_of_isRectangular c (h.of_mem hc)
      by_cases hne : ns = []
      · exact ⟨[0], shape?_node_eq_some_iff.mpr (.inl ⟨hne, rfl⟩)⟩
      · obtain ⟨first, hfirst⟩ := List.exists_mem_of_ne_nil ns hne
        obtain ⟨t, ht⟩ := hshapes first hfirst
        refine ⟨ns.length :: t, shape?_node_eq_some_iff.mpr (.inr ⟨hne, t, rfl, fun c hc => ?_⟩)⟩
        obtain ⟨t', ht'⟩ := hshapes c hc
        rw [ht', shape_eq_of_level ht' ht fun k a ha b hb => (h (k + 1)
          a (mem_level_succ.mpr ⟨c, hc, ha⟩) b (mem_level_succ.mpr ⟨first, hfirst, hb⟩)).2]

theorem exists_shape?_iff : (∃ s, n.shape? = some s) ↔ n.IsRectangular :=
  ⟨fun ⟨_, h⟩ => .of_shape? h, exists_shape?_of_isRectangular n⟩

instance (n : Nesting α) : Decidable n.IsRectangular :=
  decidable_of_iff (n.shape?.isSome = true) (Option.isSome_iff_exists.trans exists_shape?_iff)

end Nesting

/-! ## Arrays -/

section Reading

variable {f : β → Except Failure α} {n : Nesting β}

theorem NArray.read_of_not_isRectangular (h : ¬ n.IsRectangular) :
    NArray.read f n = .error .ragged := by
  unfold NArray.read
  split
  · rfl
  · rename_i s hs
    exact absurd (Nesting.IsRectangular.of_shape? hs) h

/-- A rectangular nesting whose scalars can be read is an array with an axis for each level of
lists. -/
theorem NArray.exists_read (h : n.IsRectangular) (hdepth : n.depth ≤ maxRank)
    (hread : ∀ x ∈ n.leaves, ∃ y, f x = .ok y) :
    ∃ a, NArray.read f n = .ok a ∧ a.rank = n.depth := by
  obtain ⟨s, hs⟩ := Nesting.exists_shape?_iff.mpr h
  obtain ⟨entries, hentries⟩ := exists_forall₂ hread
  have hlength : entries.length = Nesting.volume s :=
    hentries.length_eq.symm.trans (Nesting.length_leaves n s hs)
  have hrank : n.depth = s.length := Nesting.depth_eq_length hs
  exact ⟨⟨s, entries, hlength⟩, read_eq_ok_iff.mpr ⟨hs, hrank ▸ hdepth, hentries⟩, hrank.symm⟩

end Reading

/-! ## Matrices -/

namespace Dense

theorem exists_ofNArray {a : NArray α} (h : a.rank ≤ 2) : ∃ m, ofNArray a = .ok m := by
  obtain ⟨shape, entries, hlength⟩ := a
  match shape, hlength, h with
  | [], _, _ => exact ⟨_, rfl⟩
  | [n], _, _ => exact ⟨_, rfl⟩
  | [m, n], _, _ => exact ⟨_, rfl⟩
  | _ :: _ :: _ :: rest, _, h =>
      rw [NArray.rank, List.length_cons, List.length_cons, List.length_cons] at h
      omega

theorem ofNArray_of_two_lt_rank {a : NArray α} (h : 2 < a.rank) :
    ofNArray a = .error (rankRefusal a.rank) := by
  obtain ⟨shape, entries, hlength⟩ := a
  match shape, hlength, h with
  | [], _, h => simp [NArray.rank] at h
  | [n], _, h => simp [NArray.rank] at h
  | [m, n], _, h => simp [NArray.rank] at h
  | _ :: _ :: _ :: rest, _, _ => rfl

/-- The matrix with these rows of so many entries each. -/
structure HasRows (m : Dense α) (rows : List (List α)) (columns : ℕ) : Prop where
  rows_eq : m.rows = rows.length
  columns_eq : m.columns = columns
  get?_eq : ∀ i j, m.get? i j = rows[i]?.bind fun row => row[j]?

theorem hasRows_ofArray (rows : List (List α)) {columns : ℕ} {entries : List α}
    (hentries : rows.flatten = entries) (hcolumns : ∀ row ∈ rows, row.length = columns)
    (h : entries.length = Nesting.volume [rows.length, columns]) :
    (ofArray rows.length columns entries h).HasRows rows columns where
  rows_eq := rfl
  columns_eq := rfl
  get?_eq i j := by
    subst hentries
    exact congrArg (fun l => l[i]?.bind fun row => row[j]?) (NArray.splitRows_flatten hcolumns)

/-! ### What becomes of a nesting -/

section Outcome

variable {f : β → Except Failure α} {n : Nesting β}

theorem ofNesting_of_read {a : NArray α} (h : NArray.read f n = .ok a) :
    ofNesting f n = ofNArray a := by
  rw [ofNesting, h]

theorem ofNesting_of_not_isRectangular (h : ¬ n.IsRectangular) :
    ofNesting f n = .error .ragged := by
  rw [ofNesting, NArray.read_of_not_isRectangular h]

theorem exists_ofNesting (h : n.IsRectangular) (hdepth : n.depth ≤ 2)
    (hread : ∀ x ∈ n.leaves, ∃ y, f x = .ok y) : ∃ m, ofNesting f n = .ok m := by
  have hmax : n.depth ≤ NArray.maxRank := Nat.le_trans hdepth (by decide)
  obtain ⟨a, ha, hrank⟩ := NArray.exists_read h hmax hread
  rw [ofNesting_of_read ha]
  exact exists_ofNArray (hrank ▸ hdepth)

theorem ofNesting_of_two_lt_depth (h : n.IsRectangular) (hdepth : 2 < n.depth)
    (hmax : n.depth ≤ NArray.maxRank) (hread : ∀ x ∈ n.leaves, ∃ y, f x = .ok y) :
    ofNesting f n = .error (rankRefusal n.depth) := by
  obtain ⟨a, ha, hrank⟩ := NArray.exists_read h hmax hread
  rw [ofNesting_of_read ha, ← hrank]
  exact ofNArray_of_two_lt_rank (hrank ▸ hdepth)

end Outcome

/-! ### Numbers -/

theorem isVector_floats (xs : List Float) :
    (Nesting.vector (xs.map Datum.float)).IsVector Datum.entry xs.length xs where
  shape := by rw [Nesting.shape?_vector, List.length_map]
  entries := by
    rw [Nesting.leaves_vector, List.forall₂_map_left_iff]
    exact List.forall₂_same.mpr fun _ _ => rfl

theorem ofNesting_scalar (x : Float) :
    ∃ m, ofNesting Datum.entry (.leaf (.float x)) = .ok m ∧ m.HasRows [[x]] 1 :=
  ⟨_, rfl, hasRows_ofArray [[x]] rfl (by simp) rfl⟩

theorem ofNesting_vector (xs : List Float) :
    ∃ m, ofNesting Datum.entry (.vector (xs.map Datum.float)) = .ok m ∧
      m.HasRows [xs] xs.length := by
  obtain ⟨⟨shape, entries, hlength⟩, hread, hshape, hentries⟩ := (isVector_floats xs).exists_read
  simp only at hshape hentries
  subst hshape hentries
  exact ⟨_, ofNesting_of_read hread, hasRows_ofArray [entries] (List.append_nil entries)
    (by simp) (hlength.trans (Nesting.volume_single entries.length))⟩

theorem ofNesting_table {rows : List (List Float)} {columns : ℕ} (hne : rows ≠ [])
    (hcolumns : ∀ row ∈ rows, row.length = columns) :
    ∃ m, ofNesting Datum.entry (.table (rows.map fun row => row.map Datum.float)) = .ok m ∧
      m.HasRows rows columns := by
  have hvectors : List.Forall₂ (Nesting.IsVector Datum.entry columns)
      ((rows.map fun row => row.map Datum.float).map Nesting.vector) rows := by
    rw [List.map_map, List.forall₂_map_left_iff, List.forall₂_same]
    intro row hrow
    exact hcolumns row hrow ▸ isVector_floats row
  obtain ⟨hlength, hread⟩ := block_of_forall₂ hvectors (by simpa using hne)
  exact ⟨_, ofNesting_of_read hread, hasRows_ofArray rows rfl hcolumns hlength⟩

/-- **Rectangular nestings of at most two levels of lists are matrices, and no others.**  Within the
limit on axes, a nesting of numbers is refused as ragged if it is not rectangular, and by its depth
if that is three or more.  Else it is a matrix: a number is one entry, a list of numbers is one row,
and of a list of lists each one is a row.  A matrix that is copied into an array and made from it
again is the same. -/
theorem ofNesting_accepts_rectangular :
    (∀ n : Nesting Datum, (∀ d ∈ n.leaves, ∃ x, d = .float x) → n.depth ≤ NArray.maxRank →
      (ofNesting Datum.entry n = .error .ragged ↔ ¬ n.IsRectangular) ∧
      ((∃ m, ofNesting Datum.entry n = .ok m) ↔ n.IsRectangular ∧ n.depth ≤ 2) ∧
      (n.IsRectangular → 3 ≤ n.depth → ∃ failure, ofNesting Datum.entry n = .error failure ∧
        failure.report? = some ⟨.layout,
          "Dense matrix does not expose the expected storage. Expected a C-contiguous 2D " ++
            "float64 ndarray or DenseMatrix. Got: " ++ Text.quoted ("ndarray(ndim=" ++
              Decimal.ofInt n.depth ++ ", dtype=float64, c_contiguous=True)") ++ ".",
          some .matrixLayout, none⟩)) ∧
    (∀ x : Float, ∃ m, ofNesting Datum.entry (.leaf (.float x)) = .ok m ∧ m.HasRows [[x]] 1) ∧
    (∀ xs : List Float, ∃ m, ofNesting Datum.entry (.vector (xs.map .float)) = .ok m ∧
      m.HasRows [xs] xs.length) ∧
    (∀ (rows : List (List Float)) (columns : ℕ), rows ≠ [] →
      (∀ row ∈ rows, row.length = columns) →
        ∃ m, ofNesting Datum.entry (.table (rows.map fun row => row.map .float)) = .ok m ∧
          m.HasRows rows columns) ∧
    ∀ m : Dense Float,
      ∃ w, Workspace.copy (.plain m.toNArray) = .ok w ∧ w.matrix = m ∧
        w.source? = some m.toNArray := by
  refine ⟨?_, ofNesting_scalar, ofNesting_vector, fun _ _ => ofNesting_table, ?_⟩
  · intro n hfloats hdepth
    have hread : ∀ d ∈ n.leaves, ∃ x, d.entry = .ok x := by
      intro d hd
      obtain ⟨x, rfl⟩ := hfloats d hd
      exact ⟨x, rfl⟩
    by_cases hn : n.IsRectangular
    · by_cases hflat : n.depth ≤ 2
      · obtain ⟨m, hm⟩ := exists_ofNesting hn hflat hread
        exact ⟨by simp [hm, hn], by simp [hm, hn, hflat], fun _ hdeep => by omega⟩
      · have hrefused := ofNesting_of_two_lt_depth hn (Nat.lt_of_not_le hflat) hdepth hread
        exact ⟨by simp [hrefused, hn, rankRefusal], by simp [hrefused, hflat],
          fun _ _ => ⟨_, hrefused, rfl⟩⟩
    · have hragged : ofNesting Datum.entry n = .error .ragged := ofNesting_of_not_isRectangular hn
      exact ⟨by simp [hragged, hn], by simp [hragged, hn], fun h => absurd h hn⟩
  · intro m
    have hread : ofNArray m.toNArray = .ok m := by rw [ofNArray, ofNArray?_toNArray]
    exact Workspace.exists_copy (b := .plain m.toNArray) hread

/-- Without any number in them, `[[], [[]]]` is ragged and `[[[]], [[]]]` is an array with three
axes.  Two rows of three numbers are a matrix. -/
theorem ofNesting_accepts_rectangular_without_numbers :
    let ragged : Nesting Datum := .node [.node [], .node [.node []]]
    let deep : Nesting Datum := .node [.node [.node []], .node [.node []]]
    let rows : List (List Float) := [[5, 0.5, -0.0], [1, 2, 3]]
    ofNesting Datum.entry ragged = .error .ragged ∧
      (∃ failure, ofNesting Datum.entry deep = .error failure ∧
        failure.report? = (rankRefusal 3).report?) ∧
      ∃ m, ofNesting Datum.entry (.table (rows.map fun row => row.map .float)) = .ok m ∧
        m.HasRows rows 3 := by
  intro ragged deep rows
  obtain ⟨hnestings, -, -, htable, -⟩ := ofNesting_accepts_rectangular
  have hnumbers : ∀ n ∈ [ragged, deep], ∀ d ∈ n.leaves, ∃ x, d = .float x := by
    simp [ragged, deep, Nesting.leaves, Nesting.leavesAll]
  refine ⟨?_, ?_, ?_⟩
  · exact (hnestings ragged (hnumbers _ (by simp)) (by decide)).1.mpr (by decide)
  · exact (hnestings deep (hnumbers _ (by simp)) (by decide)).2.2 (by decide) (by decide)
  · exact htable rows 3 (by simp [rows]) (by simp [rows])

end Dense

end LeastSquares

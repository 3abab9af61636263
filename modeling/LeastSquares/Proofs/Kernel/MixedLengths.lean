import LeastSquares.Proofs.Kernel.NormalEquations

/-!
# Normal equations of vectors of several lengths

The lengths of the vectors of a store are compared where they are stacked, and that is within a
chunk.  Between chunks there is only the addition to the matrix, which takes what a chunk of
single numbers comes to for an amount to add everywhere.  So it depends on where the
chunks end whether a store with several lengths is refused, and what it comes to if it is not.

`Sums k sum chunks r` is what the addition of chunks to a matrix with `k` columns comes to, with one
rule for each thing that a chunk can do.  It is shown of one chunk (`Sums.cons`) and then of the run
along all of them (`sums_gramChunks`), for scalars of any type.  Induction on the rules says which
chunks are refused (`Sums.ok_or_refused`), and, over exact scalars, what the matrix is of the
others (`Sums.isSum`).

The main result is `gramIfAny_of_mixed_lengths`.
-/

namespace LeastSquares

/-! ## Chunks -/

section Chunks

variable {α β : Type*} {r : α → β → Prop} {l : List α} {l' : List β}

theorem getElem?_splitRows (width count : ℕ) (l : List α) (i : ℕ) :
    (NArray.splitRows width count l)[i]? =
      if i < count then some ((l.drop (i * width)).take width) else none := by
  induction count generalizing l i with
  | zero => rfl
  | succ count ih =>
      cases i with
      | zero => simp [NArray.splitRows]
      | succ i =>
          rw [NArray.splitRows, List.getElem?_cons_succ, ih, List.drop_drop, Nat.succ_mul,
            Nat.add_comm]
          simp

/-- Each chunk begins where the one in front of it ends. -/
theorem getElem?_chunks {size : ℕ} (hsize : 0 < size) (l : List α) (i : ℕ) :
    (chunks size l)[i]? =
      if i * size < l.length then some ((l.drop (i * size)).take size) else none := by
  have hcount : i < (l.length + (size - 1)) / size ↔ i * size < l.length := by
    rw [← Nat.succ_le_iff, Nat.le_div_iff_mul_le hsize, Nat.succ_mul]
    omega
  rw [chunks, getElem?_splitRows]
  simp only [hcount]

theorem forall₂_splitRows (h : List.Forall₂ r l l') (width count : ℕ) :
    List.Forall₂ (List.Forall₂ r) (NArray.splitRows width count l)
      (NArray.splitRows width count l') := by
  induction count generalizing l l' with
  | zero => exact .nil
  | succ count ih => exact .cons (List.forall₂_take width h) (ih (List.forall₂_drop width h))

theorem forall₂_chunks (h : List.Forall₂ r l l') (size : ℕ) :
    List.Forall₂ (List.Forall₂ r) (chunks size l) (chunks size l') := by
  rw [chunks, chunks, h.length_eq]
  exact forall₂_splitRows h _ _

end Chunks

/-! ## Lengths -/

section Lengths

variable {α : Type*} {k l : ℕ} {rows : List (List α)} {chunks : List (List (List α))}

/-- All of these rows have length `k`. -/
def HasLength (k : ℕ) (rows : List (List α)) : Prop := ∀ row ∈ rows, row.length = k

theorem HasLength.sameLength (h : HasLength k rows) : SameLength rows :=
  fun row hrow row' hrow' => (h row hrow).trans (h row' hrow').symm

theorem HasLength.unique (h : HasLength k rows) (h' : HasLength l rows) (hne : rows ≠ []) :
    k = l := by
  obtain ⟨row, hrow⟩ := List.exists_mem_of_ne_nil rows hne
  exact (h row hrow).symm.trans (h' row hrow)

/-- The rows of a chunk that can be added to a matrix with `k` columns. -/
def Fits (k : ℕ) (rows : List (List α)) : Prop := HasLength k rows ∨ HasLength 1 rows

/-- Vectors that come in these chunks are refused: one of the chunks has several lengths, or a
later one has a length that is neither the one of the first chunk nor 1. -/
inductive Misfit : List (List (List α)) → Prop
  | uneven {chunks : List (List (List α))} {rows : List (List α)} :
      rows ∈ chunks → ¬ SameLength rows → Misfit chunks
  | later {first rows : List (List α)} {rest : List (List (List α))} {k l : ℕ} :
      HasLength k first → rows ∈ rest → HasLength l rows → l ≠ k → l ≠ 1 → Misfit (first :: rest)

theorem not_fits_of_uneven (h : ¬ SameLength rows) : ¬ Fits k rows :=
  fun hfits => h (hfits.elim HasLength.sameLength HasLength.sameLength)

theorem HasLength.not_fits (h : HasLength l rows) (hne : rows ≠ []) (hk : l ≠ k) (hone : l ≠ 1) :
    ¬ Fits k rows := by
  rintro (hwide | hsingle)
  · exact hk (h.unique hwide hne)
  · exact hone (h.unique hsingle hne)

theorem misfit_cons_iff {first : List (List α)} {rest : List (List (List α))}
    (hne : ∀ rows ∈ first :: rest, rows ≠ []) (hfirst : HasLength k first) :
    Misfit (first :: rest) ↔ ¬ ∀ rows ∈ first :: rest, Fits k rows := by
  constructor
  · intro h hfits
    cases h with
    | uneven hrows huneven => exact not_fits_of_uneven huneven (hfits _ hrows)
    | later hfirst' hrows hlength hk hone =>
        have hrows' := List.mem_cons_of_mem first hrows
        obtain rfl := hfirst'.unique hfirst (hne first List.mem_cons_self)
        exact hlength.not_fits (hne _ hrows') hk hone (hfits _ hrows')
  · intro hfits
    push Not at hfits
    obtain ⟨rows, hrows, hmisfit⟩ := hfits
    by_cases hsame : SameLength rows
    · obtain ⟨l, hlength⟩ := exists_length_of_sameLength hsame
      rcases List.mem_cons.mp hrows with rfl | hlater
      · exact absurd (Or.inl hfirst) hmisfit
      · exact .later hfirst hlater hlength (fun h => hmisfit (Or.inl (h ▸ hlength)))
          fun h => hmisfit (Or.inr (h ▸ hlength))
    · exact .uneven hrows hsame

/-- The vectors of length `k` among others. -/
def withLength (k : ℕ) (vectors : List (List α)) : List (List α) :=
  vectors.filter fun v => v.length = k

theorem HasLength.withLength_append (h : HasLength k rows) (vectors : List (List α)) :
    withLength k (vectors ++ rows) = withLength k vectors ++ rows := by
  have hall : rows.filter (fun v => v.length = k) = rows :=
    List.filter_eq_self.mpr fun row hrow => by simp [h row hrow]
  rw [withLength, List.filter_append, hall]
  rfl

theorem HasLength.withLength_append_of_ne (h : HasLength l rows) (hne : l ≠ k)
    (vectors : List (List α)) : withLength k (vectors ++ rows) = withLength k vectors := by
  have hnil : rows.filter (fun v => v.length = k) = [] :=
    List.filter_eq_nil_iff.mpr fun row hrow => by simp [h row hrow, hne]
  rw [withLength, List.filter_append, hnil, List.append_nil]
  rfl

end Lengths

namespace Dense

variable {α : Type*}

section AnyScalars

variable [Zero α] [Add α] [Mul α] {k : ℕ} {sum : Dense α}

/-- What the addition of chunks to a matrix with `k` columns comes to. -/
inductive Sums (k : ℕ) : Dense α → List (List (List α)) → Except Failure (Dense α) → Prop
  | nil {sum : Dense α} : Sums k sum [] (.ok sum)
  | wide {sum : Dense α} {rows : List (List α)} {rest : List (List (List α))}
      {r : Except Failure (Dense α)}
      (hentries : rows.flatten.length = Nesting.volume [rows.length, k]) : HasLength k rows →
      Sums k (sum.plus (ofArray rows.length k rows.flatten hentries).gram) rest r →
      Sums k sum (rows :: rest) r
  | single {sum : Dense α} {rows : List (List α)} {rest : List (List (List α))}
      {r : Except Failure (Dense α)} : k ≠ 1 → HasLength 1 rows →
      Sums k (sum.plusEverywhere (dot rows.flatten rows.flatten)) rest r →
      Sums k sum (rows :: rest) r
  | ragged {sum : Dense α} {rows : List (List α)} {rest : List (List (List α))} :
      ¬ SameLength rows → Sums k sum (rows :: rest) (.error .ragged)
  | mismatch {sum : Dense α} {rows : List (List α)} {rest : List (List (List α))} {l : ℕ} :
      HasLength l rows → l ≠ k → l ≠ 1 → Sums k sum (rows :: rest) (.error .shapeMismatch)

/-- One more chunk of vectors of one length. -/
theorem Sums.cons {rows : List (List α)} {rest : List (List (List α))} {l : ℕ}
    {f : Dense α → Except Failure (Dense α)} (hlength : HasLength l rows) (hsum : sum.columns = k)
    (hentries : rows.flatten.length = Nesting.volume [rows.length, l])
    (hrest : ∀ next : Dense α, next.columns = k → Sums k next rest (f next)) :
    Sums k sum (rows :: rest)
      ((sum.plusBlock ⟨[rows.length, l], rows.flatten, hentries⟩).bind f) := by
  by_cases hwide : l = k
  · subst hwide
    have hplus : sum.plusBlock ⟨[rows.length, l], rows.flatten, hentries⟩ =
        .ok (sum.plus (ofArray rows.length l rows.flatten hentries).gram) := if_pos hsum.symm
    rw [hplus]
    exact .wide hentries hlength (hrest _ hsum)
  · by_cases hsingle : l = 1
    · subst hsingle
      have hplus : sum.plusBlock ⟨[rows.length, 1], rows.flatten, hentries⟩ =
          .ok (sum.plusEverywhere (dot rows.flatten rows.flatten)) :=
        (if_neg (hsum ▸ hwide)).trans (if_pos rfl)
      rw [hplus]
      exact .single (Ne.symm hwide) hlength (hrest _ hsum)
    · have hplus : sum.plusBlock ⟨[rows.length, l], rows.flatten, hentries⟩ =
          .error .shapeMismatch := (if_neg (hsum ▸ hwide)).trans (if_neg hsingle)
      rw [hplus]
      exact .mismatch hlength hwide hsingle

/-- If all chunks fit, there is a matrix, and if one does not, that is why there is none. -/
theorem Sums.ok_or_refused {rowss : List (List (List α))} {r : Except Failure (Dense α)}
    (h : Sums k sum rowss r) (hne : ∀ rows ∈ rowss, rows ≠ []) :
    ((∀ rows ∈ rowss, Fits k rows) → ∃ g, r = .ok g) ∧
      ((¬ ∀ rows ∈ rowss, Fits k rows) → r = .error .ragged ∨ r = .error .shapeMismatch) := by
  induction h with
  | nil => exact ⟨fun _ => ⟨_, rfl⟩, fun h => absurd (List.forall_mem_nil _) h⟩
  | @wide _ rows _ _ _ hlength _ ih =>
      have hfits : Fits k rows := Or.inl hlength
      simpa only [List.forall_mem_cons, hfits, true_and] using ih (List.forall_mem_cons.mp hne).2
  | @single _ rows _ _ _ hlength _ ih =>
      have hfits : Fits k rows := Or.inr hlength
      simpa only [List.forall_mem_cons, hfits, true_and] using ih (List.forall_mem_cons.mp hne).2
  | ragged huneven =>
      refine ⟨fun hfits => ?_, fun _ => Or.inl rfl⟩
      exact absurd (hfits _ List.mem_cons_self) (not_fits_of_uneven huneven)
  | mismatch hlength hk hone =>
      refine ⟨fun hfits => ?_, fun _ => Or.inr rfl⟩
      have hne' := hne _ List.mem_cons_self
      exact absurd (hfits _ List.mem_cons_self) (hlength.not_fits hne' hk hone)

end AnyScalars

/-! ## The matrix -/

section Exact

variable [CommRing α] {k : ℕ} {g : Dense α} {rows done : List (List α)}

/-- The matrix of the normal equations of the vectors of length `k` in a list, with the sum of the
squares of the vectors of length 1 added to each entry if `k` is another length. -/
structure IsSum (g : Dense α) (k : ℕ) (vectors : List (List α)) : Prop where
  rows : g.rows = k
  columns : g.columns = k
  entry : ∀ i < k, ∀ j < k, g.entry i j = sumProducts (withLength k vectors) i j +
    if k = 1 then 0 else ((withLength 1 vectors).map fun v => (v.map (· ^ 2)).sum).sum

theorem dot_flatten_self (rows : List (List α)) :
    dot rows.flatten rows.flatten = (rows.map fun v => (v.map (· ^ 2)).sum).sum := by
  rw [dot, List.zipWith_self, List.map_flatten, List.sum_flatten, List.map_map]
  simp only [Function.comp_def, sq]

theorem isSum_zeros (k : ℕ) : (zeros k k : Dense α).IsSum k [] where
  rows := rfl
  columns := rfl
  entry _ hi _ hj := by
    rw [zeros, entry_ofFn _ hi hj]
    simp [withLength]

theorem IsSum.plus (h : g.IsSum k done) (hlength : HasLength k rows)
    (hentries : rows.flatten.length = Nesting.volume [rows.length, k]) :
    (g.plus (ofArray rows.length k rows.flatten hentries).gram).IsSum k (done ++ rows) where
  rows := h.rows
  columns := h.columns
  entry i hi j hj := by
    have hrows : (ofArray rows.length k rows.flatten hentries).entries = rows :=
      NArray.splitRows_flatten hlength
    have hgram := (isGram_gram (ofArray rows.length k rows.flatten hentries)).entry i hi j hj
    rw [hrows] at hgram
    rw [Dense.plus, entry_ofFn _ (h.rows ▸ hi) (h.columns ▸ hj), h.entry i hi j hj, hgram,
      hlength.withLength_append, sumProducts_append]
    by_cases hk : k = 1
    · simp [hk]
    · rw [if_neg hk, if_neg hk, hlength.withLength_append_of_ne hk]
      ring

theorem IsSum.plusEverywhere (h : g.IsSum k done) (hk : k ≠ 1) (hlength : HasLength 1 rows) :
    (g.plusEverywhere (dot rows.flatten rows.flatten)).IsSum k (done ++ rows) where
  rows := h.rows
  columns := h.columns
  entry i hi j hj := by
    rw [Dense.plusEverywhere, entry_ofFn _ (h.rows ▸ hi) (h.columns ▸ hj), h.entry i hi j hj,
      dot_flatten_self, hlength.withLength_append_of_ne (Ne.symm hk), hlength.withLength_append,
      if_neg hk, if_neg hk, List.map_append, List.sum_append, add_assoc]

/-- Along the chunks, the matrix is that of the vectors that are done. -/
theorem Sums.isSum {sum : Dense α} {rowss : List (List (List α))} {r : Except Failure (Dense α)}
    (h : Sums k sum rowss r) (hsum : sum.IsSum k done) (hr : r = .ok g) :
    g.IsSum k (done ++ rowss.flatten) := by
  induction h generalizing done with
  | nil =>
      cases hr
      rwa [List.flatten_nil, List.append_nil]
  | wide hentries hlength _ ih =>
      rw [List.flatten_cons, ← List.append_assoc]
      exact ih (hsum.plus hlength hentries) hr
  | single hk hlength _ ih =>
      rw [List.flatten_cons, ← List.append_assoc]
      exact ih (hsum.plusEverywhere hk hlength) hr
  | ragged => cases hr
  | mismatch => cases hr

end Exact

end Dense

namespace Store

section AnyScalars

variable {α β : Type*} {read : β → Except Failure α} {k size : ℕ}
  {sum : Dense α} {vss : List (List (Nesting β))} {rowss : List (List (List α))}

theorem exists_first_chunk {store : Store β} {vectors : List (List α)}
    (hstore : List.Forall₂ (Nesting.IsRow read) store.values vectors) (hne : store ≠ ∅)
    (hsize : 0 < size) : ∃ rest, chunks size vectors = vectors.take size :: rest := by
  have hvectors : vectors ≠ [] := by
    rintro rfl
    exact values_ne_nil hne (List.forall₂_nil_right_iff.mp hstore)
  have hfirst := getElem?_chunks hsize vectors 0
  rw [Nat.zero_mul, if_pos (List.length_pos_of_ne_nil hvectors), List.drop_zero] at hfirst
  cases hchunks : chunks size vectors with
  | nil => exact absurd ((chunks_eq_nil_iff hsize).mp hchunks) hvectors
  | cons first rest =>
      rw [hchunks] at hfirst
      exact ⟨rest, congrArg (· :: rest) (Option.some_inj.mp hfirst)⟩

variable [Zero α] [Add α] [Mul α]

theorem gramChunks_cons (sum : Dense α) (vs : List (Nesting β)) (vss : List (List (Nesting β))) :
    gramChunks read sum (vs :: vss) = (block read vs).bind fun a =>
      (sum.plusBlock a).bind fun next => gramChunks read next vss := by
  rw [gramChunks]
  cases block read vs with
  | error failure => rfl
  | ok a =>
      cases hnext : sum.plusBlock a with
      | error failure => simp only [Except.bind, hnext]
      | ok next => simp only [Except.bind, hnext]

theorem sums_gramChunks (hrows : List.Forall₂ (List.Forall₂ (Nesting.IsRow read)) vss rowss)
    (hne : ∀ vs ∈ vss, vs ≠ []) (hsum : sum.columns = k) :
    Dense.Sums k sum rowss (gramChunks read sum vss) := by
  induction hrows generalizing sum with
  | nil => exact .nil
  | @cons vs rows vss rowss hchunk _ ih =>
      obtain ⟨hne, hlater⟩ := List.forall_mem_cons.mp hne
      rw [gramChunks_cons]
      by_cases hsame : SameLength rows
      · obtain ⟨l, hlength⟩ := exists_length_of_sameLength hsame
        obtain ⟨hentries, hblock⟩ := block_of_forall₂ (Nesting.forall₂_isVector hchunk hlength) hne
        rw [hblock]
        exact Dense.Sums.cons hlength hsum hentries fun next hnext => ih hlater hnext
      · rw [block_eq_ragged hchunk hsame]
        exact .ragged hsame

/-- The sum over a store begins with zeros, unless the vectors of the first chunk have several
lengths. -/
theorem gramIfAny_sums {store : Store β} {vectors : List (List α)} {first : List (List α)}
    {rest : List (List (List α))}
    (hstore : List.Forall₂ (Nesting.IsRow read) store.values vectors) (hsize : 0 < size)
    (hchunks : chunks size vectors = first :: rest) :
    (¬ SameLength first ∧ gramIfAny size read (some store) = .error .ragged) ∨
      ∃ k r, HasLength k first ∧ Dense.Sums k (Dense.zeros k k) (first :: rest) r ∧
        gramIfAny size read (some store) = r.map some := by
  have hrows := forall₂_chunks hstore size
  have hne := ne_nil_of_mem_chunks (l := store.values) hsize
  rw [gramIfAny, gramBy]
  rw [hchunks] at hrows
  cases hvss : chunks size store.values with
  | nil =>
      rw [hvss] at hrows
      cases hrows
  | cons vs vss =>
      rw [hvss] at hrows hne
      obtain ⟨hchunk, -⟩ := List.forall₂_cons.mp hrows
      by_cases hsame : SameLength first
      · right
        obtain ⟨k, hlength⟩ := exists_length_of_sameLength hsame
        obtain ⟨hentries, hblock⟩ := block_of_forall₂ (Nesting.forall₂_isVector hchunk hlength)
          (hne vs List.mem_cons_self)
        refine ⟨k, _, hlength, sums_gramChunks hrows hne rfl, ?_⟩
        rw [gramOfChunks, hblock]
        rfl
      · exact Or.inl ⟨hsame, by rw [gramOfChunks, block_eq_ragged hchunk hsame]⟩

/-- A store is refused exactly if one of its chunks does not fit; the others have a sum. -/
theorem refused_iff_misfit {store : Store β} {vectors : List (List α)}
    (hstore : List.Forall₂ (Nesting.IsRow read) store.values vectors) (hne : store ≠ ∅)
    (hsize : 0 < size) :
    ((gramIfAny size read (some store) = .error .ragged ∨
        gramIfAny size read (some store) = .error .shapeMismatch) ↔
      Misfit (chunks size vectors)) ∧
    (¬ Misfit (chunks size vectors) → ∃ k g, HasLength k (vectors.take size) ∧
      Dense.Sums k (Dense.zeros k k) (chunks size vectors) (.ok g) ∧
      gramIfAny size read (some store) = .ok (some g)) := by
  have hnonempty := ne_nil_of_mem_chunks (l := vectors) hsize
  obtain ⟨rest, hchunks⟩ := exists_first_chunk hstore hne hsize
  rw [hchunks] at hnonempty ⊢
  rcases gramIfAny_sums hstore hsize hchunks with ⟨huneven, hragged⟩ | ⟨k, r, hk, hsums, hgram⟩
  · have hmisfit : Misfit (vectors.take size :: rest) := .uneven List.mem_cons_self huneven
    exact ⟨iff_of_true (Or.inl hragged) hmisfit, fun h => absurd hmisfit h⟩
  · rw [misfit_cons_iff hnonempty hk, hgram]
    obtain ⟨hok, hrefused⟩ := hsums.ok_or_refused hnonempty
    by_cases hfits : ∀ rows ∈ vectors.take size :: rest, Fits k rows
    · obtain ⟨g, rfl⟩ := hok hfits
      refine ⟨iff_of_false ?_ (not_not.mpr hfits), fun _ => ⟨k, g, hk, hsums, rfl⟩⟩
      rintro (h | h) <;> cases h
    · refine ⟨iff_of_true ?_ hfits, fun h => absurd hfits h⟩
      exact (hrefused hfits).imp (fun h => by rw [h]; rfl) fun h => by rw [h]; rfl

end AnyScalars

/-- **What becomes of vectors of several lengths.**  A store is refused exactly if one of its chunks
has vectors of several lengths, or a later one has vectors of a length that is neither `k`, the one
of the first chunk, nor 1.  All other stores have a `k` by `k` matrix.  Over exact scalars its
entry `(i, j)` is the sum of `vᵢ vⱼ` over the vectors of length `k`; if `k` is not 1, the sum of
the squares of all vectors of length 1 is added to it, whatever `i` and `j` are.  The chunks may
have any size.  At the size that is used the same stores are refused over floating-point
numbers. -/
theorem gramIfAny_of_mixed_lengths {α β : Type*} [CommRing α] (read : β → Except Failure α) :
    (∀ (store : Store β) (vectors : List (List α)),
      List.Forall₂ (Nesting.IsRow read) store.values vectors → store ≠ ∅ → ∀ size > 0,
      ((gramIfAny size read (some store) = .error .ragged ∨
          gramIfAny size read (some store) = .error .shapeMismatch) ↔
        Misfit (chunks size vectors)) ∧
      (¬ Misfit (chunks size vectors) → ∃ k g, HasLength k (vectors.take size) ∧
        gramIfAny size read (some store) = .ok (some g) ∧ g.rows = k ∧ g.columns = k ∧
        ∀ i < k, ∀ j < k, g.entry i j =
          ((vectors.filter fun v => v.length = k).map fun v => v.getD i 0 * v.getD j 0).sum +
            if k = 1 then 0
            else ((vectors.filter fun v => v.length = 1).map fun v => (v.map (· ^ 2)).sum).sum)) ∧
    (∀ (store : Store Datum) (vectors : List (List Float)),
      List.Forall₂ (Nesting.IsRow Datum.entry) store.values vectors → store ≠ ∅ →
      ((normalMatrix (some store) = .error .ragged ∨
          normalMatrix (some store) = .error .shapeMismatch) ↔ Misfit (chunks 4096 vectors)) ∧
      (¬ Misfit (chunks 4096 vectors) → ∃ g, normalMatrix (some store) = .ok (some g))) ∧
    ∀ size > 0, ∀ (vectors : List (List α)) (i : ℕ), (chunks size vectors)[i]? =
      if i * size < vectors.length then some ((vectors.drop (i * size)).take size) else none := by
  refine ⟨fun store vectors hstore hne size hsize => ?_, fun store vectors hstore hne => ?_,
    fun size hsize => getElem?_chunks hsize⟩
  · obtain ⟨hiff, hok⟩ := refused_iff_misfit hstore hne hsize
    refine ⟨hiff, fun hfits => ?_⟩
    obtain ⟨k, g, hk, hsums, hgram⟩ := hok hfits
    have hsum : g.IsSum k vectors := by
      have hall := hsums.isSum (Dense.isSum_zeros k) rfl
      rwa [List.nil_append, flatten_chunks hsize] at hall
    exact ⟨k, g, hk, hgram, hsum.rows, hsum.columns, hsum.entry⟩
  · have hsize : 0 < 4096 := by decide
    obtain ⟨hiff, hok⟩ := refused_iff_misfit hstore hne hsize
    refine ⟨hiff, fun hfits => ?_⟩
    obtain ⟨_, g, -, -, hgram⟩ := hok hfits
    exact ⟨g, hgram⟩

/-- Vectors of two lengths that have a matrix in chunks of two and none in chunks of four, and
floating-point vectors that have none. -/
theorem gramIfAny_of_mixed_lengths_two_sizes :
    let store : Store ℤ := ⟨[(3, .vector [1, 2]), (-1, .vector [0, -1]), (0, .vector [3]),
      (8, .vector [5]), (7, .vector [2, 2])], by decide⟩
    let floats : Store Datum :=
      ⟨[(0, .vector [.float 0.5, .float 1]), (1, .vector [.float 2])], by decide⟩
    (∃ g : Dense ℤ, gramIfAny 2 .ok (some store) = .ok (some g) ∧ g.rows = 2 ∧
      g.entry 0 1 = 40) ∧
    (gramIfAny 4 .ok (some store) = .error .ragged ∨
      gramIfAny 4 .ok (some store) = .error .shapeMismatch) ∧
    (normalMatrix (some floats) = .error .ragged ∨
      normalMatrix (some floats) = .error .shapeMismatch) := by
  intro store floats
  obtain ⟨hexact, hfloat, -⟩ := gramIfAny_of_mixed_lengths (α := ℤ) (β := ℤ) .ok
  let vectors : List (List ℤ) := [[1, 2], [0, -1], [3], [5], [2, 2]]
  have hstore : List.Forall₂ (Nesting.IsRow .ok) store.values vectors :=
    .cons (Nesting.isVector_vector [1, 2]) (.cons (Nesting.isVector_vector [0, -1])
      (.cons (Nesting.isVector_vector [3]) (.cons (Nesting.isVector_vector [5])
        (.cons (Nesting.isVector_vector [2, 2]) .nil))))
  have hfloats : List.Forall₂ (Nesting.IsRow Datum.entry) floats.values [[0.5, 1], [2]] :=
    .cons ⟨rfl, .cons rfl (.cons rfl .nil)⟩ (.cons ⟨rfl, .cons rfl .nil⟩ .nil)
  have hne : store ≠ ∅ := fun h => absurd (congrArg IdMap.size h) (by decide)
  have hneFloats : floats ≠ ∅ := fun h => absurd (congrArg IdMap.size h) (by decide)
  have hfits : ¬ Misfit (chunks 2 vectors) := by
    have hchunks : chunks 2 vectors = [[[1, 2], [0, -1]], [[3], [5]], [[2, 2]]] := by decide
    have hfirst : HasLength 2 [([1, 2] : List ℤ), [0, -1]] := by unfold HasLength; decide
    rw [hchunks, misfit_cons_iff (by decide) hfirst]
    unfold Fits HasLength
    decide
  refine ⟨?_, ?_, ?_⟩
  · obtain ⟨k, g, hk, hg, hrows, -, hentry⟩ :=
      (hexact store vectors hstore hne 2 (by decide)).2 hfits
    obtain rfl : 2 = k := hk [1, 2] List.mem_cons_self
    exact ⟨g, hg, hrows, hentry 0 (by decide) 1 (by decide)⟩
  · have hchunks : chunks 4 vectors = [[[1, 2], [0, -1], [3], [5]], [[2, 2]]] := by decide
    refine (hexact store vectors hstore hne 4 (by decide)).1.mpr ?_
    rw [hchunks]
    refine .uneven List.mem_cons_self fun hsame => ?_
    exact absurd (hsame [1, 2] (by decide) [3] (by decide)) (by decide)
  · refine (hfloat floats _ hfloats hneFloats).1.mpr (.uneven List.mem_cons_self fun hsame => ?_)
    have hlength :=
      hsame [0.5, 1] List.mem_cons_self [2] (List.mem_cons_of_mem _ List.mem_cons_self)
    exact absurd hlength (by decide)

end Store

end LeastSquares

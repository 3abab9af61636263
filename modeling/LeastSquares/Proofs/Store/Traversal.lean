import LeastSquares.Failure
import LeastSquares.Proofs.Association.Lines
import Mathlib.Data.List.Forall2
import Mathlib.Data.List.Induction

/-!
# Traversing a map, whole and in parts

A traversal goes through a map in order of insertion and ends at the first value whose
image fails.  `traverse_eq_error_iff` says which failure that is.  Without one it keeps
the ids and replaces each value by its own image (`exists_image_of_traverse`), so it has
a result exactly if every value has an image (`exists_traverse_iff`).

What a value becomes does not depend on the other values of the map.  So a map can be
traversed in parts that cover it, in any order, and the results merged: by
`get?_merge_of_traverse` and `exists_part_of_error` that is the traversal of the whole
map.  The values of two parts without a common id are those of the whole
(`IsDisjointUnion.values_perm`).
-/

namespace LeastSquares

/-! ## Related lists -/

/-- A member of the first of two lists that are related member by member has a counterpart. -/
theorem exists_of_forall₂ {α β : Type*} {r : α → β → Prop} {l : List α} {l' : List β}
    (h : List.Forall₂ r l l') {x : α} (hx : x ∈ l) : ∃ y ∈ l', r x y := by
  induction h with
  | nil => simp at hx
  | cons hr _ ih =>
      rcases List.mem_cons.mp hx with rfl | hx
      · exact ⟨_, List.mem_cons_self, hr⟩
      · obtain ⟨y, hy, hr⟩ := ih hx
        exact ⟨y, List.mem_cons_of_mem _ hy, hr⟩

/-- Members that have a counterpart each make up a list with a related one. -/
theorem exists_forall₂ {α β : Type*} {r : α → β → Prop} {l : List α} (h : ∀ x ∈ l, ∃ y, r x y) :
    ∃ l', List.Forall₂ r l l' := by
  induction l with
  | nil => exact ⟨[], .nil⟩
  | cons x l ih =>
      obtain ⟨⟨y, hy⟩, hrest⟩ := List.forall_mem_cons.mp h
      obtain ⟨l', hl'⟩ := ih hrest
      exact ⟨y :: l', .cons hy hl'⟩

/-- Lists that one list is related to are related to each other. -/
theorem forall₂_of_common {α β γ : Type*} {r : α → β → Prop} {s : α → γ → Prop}
    {t : β → γ → Prop} (hcommon : ∀ x y z, r x y → s x z → t y z) {l : List α} {l₁ : List β}
    {l₂ : List γ} (h₁ : List.Forall₂ r l l₁) (h₂ : List.Forall₂ s l l₂) :
    List.Forall₂ t l₁ l₂ := by
  induction h₁ generalizing l₂ with
  | nil =>
      cases h₂
      exact .nil
  | cons hr _ ih =>
      cases h₂ with
      | cons hs hrest => exact .cons (hcommon _ _ _ hr hs) (ih hrest)

/-- A list that is related to two joined lists is joined of two that are related to each. -/
theorem exists_append_of_forall₂ {α β : Type*} {r : α → β → Prop} {l₁ l₂ : List α} {l : List β}
    (h : List.Forall₂ r (l₁ ++ l₂) l) :
    ∃ l₁' l₂', l = l₁' ++ l₂' ∧ List.Forall₂ r l₁ l₁' ∧ List.Forall₂ r l₂ l₂' :=
  ⟨l.take l₁.length, l.drop l₁.length, (List.take_append_drop _ l).symm,
    (List.forall₂_take_append l l₁ l₂ h.flip).flip, (List.forall₂_drop_append l l₁ l₂ h.flip).flip⟩

namespace IdMap

variable {α β ε : Type*} {f : Int → α → Except ε β} {m : IdMap α} {n : IdMap β}

/-! ## Success and failure -/

theorem forall₂_of_traverseEntries {l : List (Int × α)}
    {r : { r : List (Int × β) // r.map Prod.fst = l.map Prod.fst }}
    (h : traverseEntries f l = .ok r) :
    List.Forall₂ (fun entry image => image.1 = entry.1 ∧ f entry.1 entry.2 = .ok image.2) l
      r.val := by
  induction l with
  | nil =>
      cases h
      exact .nil
  | cons entry rest ih =>
      obtain ⟨id, x⟩ := entry
      rw [traverseEntries] at h
      cases hx : f id x with
      | error failure => simp [hx] at h
      | ok y =>
          cases hrest : traverseEntries f rest with
          | error failure => simp [hx, hrest] at h
          | ok images =>
              simp only [hx, hrest, Except.ok.injEq] at h
              subst h
              exact .cons ⟨rfl, hx⟩ (ih hrest)

theorem traverseEntries_eq_error {before after : List (Int × α)} {entry : Int × α} {failure : ε}
    (hbefore : ∀ e ∈ before, ∃ y, f e.1 e.2 = .ok y) (h : f entry.1 entry.2 = .error failure) :
    traverseEntries f (before ++ entry :: after) = .error failure := by
  induction before with
  | nil => rw [List.nil_append, traverseEntries, h]
  | cons first before ih =>
      obtain ⟨⟨y, hy⟩, hrest⟩ := List.forall_mem_cons.mp hbefore
      rw [List.cons_append, traverseEntries, hy, ih hrest]

theorem exists_first_of_traverseEntries {l : List (Int × α)} {failure : ε}
    (h : traverseEntries f l = .error failure) :
    ∃ before entry after, l = before ++ entry :: after ∧
      (∀ e ∈ before, ∃ y, f e.1 e.2 = .ok y) ∧ f entry.1 entry.2 = .error failure := by
  induction l with
  | nil => cases h
  | cons entry rest ih =>
      obtain ⟨id, x⟩ := entry
      rw [traverseEntries] at h
      cases hx : f id x with
      | error failure' =>
          simp only [hx, Except.error.injEq] at h
          subst h
          exact ⟨[], (id, x), rest, rfl, by simp, hx⟩
      | ok y =>
          cases hrest : traverseEntries f rest with
          | ok images => simp [hx, hrest] at h
          | error failure' =>
              simp only [hx, hrest, Except.error.injEq] at h
              subst h
              obtain ⟨before, e, after, rfl, hbefore, he⟩ := ih hrest
              exact ⟨(id, x) :: before, e, after, rfl,
                List.forall_mem_cons.mpr ⟨⟨y, hx⟩, hbefore⟩, he⟩

/-- The failure of a traversal is that of the first value, in order of insertion, whose image
fails. -/
theorem traverse_eq_error_iff {failure : ε} :
    m.traverse f = .error failure ↔
      ∃ before id x after, m.entries = before ++ (id, x) :: after ∧
        (∀ e ∈ before, ∃ y, f e.1 e.2 = .ok y) ∧ f id x = .error failure := by
  have hentries : m.traverse f = .error failure ↔
      traverseEntries f m.entries = .error failure := by
    unfold traverse
    cases traverseEntries f m.entries <;> simp
  rw [hentries]
  constructor
  · intro h
    obtain ⟨before, ⟨id, x⟩, after, h⟩ := exists_first_of_traverseEntries h
    exact ⟨before, id, x, after, h⟩
  · rintro ⟨before, id, x, after, hl, hbefore, hfails⟩
    rw [hl]
    exact traverseEntries_eq_error hbefore hfails

theorem forall₂_of_traverse (h : m.traverse f = .ok n) :
    List.Forall₂ (fun entry image => image.1 = entry.1 ∧ f entry.1 entry.2 = .ok image.2) m.entries
      n.entries := by
  unfold traverse at h
  cases hentries : traverseEntries f m.entries with
  | error failure => simp [hentries] at h
  | ok images =>
      simp only [hentries, Except.ok.injEq] at h
      subst h
      exact forall₂_of_traverseEntries hentries

/-- What a traversal has under an id is the image of the value that was there. -/
theorem exists_image_of_traverse (h : m.traverse f = .ok n) {id : Int} {x : α}
    (hx : m.get? id = some x) : ∃ y, f id x = .ok y ∧ n.get? id = some y := by
  obtain ⟨⟨id', y⟩, hmem, hid, hy⟩ :=
    exists_of_forall₂ (forall₂_of_traverse h) (mem_entries_iff.mpr hx)
  obtain rfl : id' = id := hid
  exact ⟨y, hy, mem_entries_iff.mp hmem⟩

/-- A traversal has a result exactly if every value has an image. -/
theorem exists_traverse_iff :
    (∃ n, m.traverse f = .ok n) ↔ ∀ id x, m.get? id = some x → ∃ y, f id x = .ok y := by
  constructor
  · rintro ⟨n, h⟩ id x hx
    obtain ⟨y, hy, -⟩ := exists_image_of_traverse h hx
    exact ⟨y, hy⟩
  · intro hall
    cases h : m.traverse f with
    | ok n => exact ⟨n, rfl⟩
    | error failure =>
        obtain ⟨before, id, x, after, hentries, -, hfails⟩ := traverse_eq_error_iff.mp h
        obtain ⟨y, hy⟩ := hall id x (mem_entries_iff.mp (by simp [hentries]))
        rw [hfails] at hy
        cases hy

/-! ## Merging -/

/-- A map with the entries of another one written over it. -/
def update (m n : IdMap α) : IdMap α :=
  n.entries.foldl (fun acc entry => acc.insert entry.1 entry.2) m

/-- Maps written one over another, the last one on top. -/
def merge (maps : List (IdMap α)) : IdMap α := maps.foldl update ∅

theorem get?_foldl_insert {l : List (Int × α)} (hdistinct : (l.map Prod.fst).Nodup)
    (m : IdMap α) (id : Int) :
    (l.foldl (fun acc entry => acc.insert entry.1 entry.2) m).get? id =
      (l.lookup id).or (m.get? id) := by
  induction l generalizing m with
  | nil => rfl
  | cons entry rest ih =>
      obtain ⟨k, x⟩ := entry
      rw [List.map_cons, List.nodup_cons] at hdistinct
      rw [List.foldl_cons, ih hdistinct.2, get?_insert, lookup_cons_eq_ite]
      by_cases hk : id = k
      · rw [if_pos hk, if_pos hk, hk, lookup_eq_none_iff_notMem.mpr hdistinct.1]
        rfl
      · rw [if_neg hk, if_neg hk]

theorem get?_update (m n : IdMap α) (id : Int) :
    (m.update n).get? id = (n.get? id).or (m.get? id) :=
  get?_foldl_insert n.distinct m id

/-- Maps that agree wherever they have a value are merged to what they agree on. -/
theorem get?_merge {maps : List (IdMap α)} {id : Int} {value? : Option α}
    (hagree : ∀ n ∈ maps, n.get? id = none ∨ n.get? id = value?)
    (hsome : value? = none ∨ ∃ n ∈ maps, n.get? id = value?) :
    (merge maps).get? id = value? := by
  induction maps using List.reverseRecOn with
  | nil =>
      rcases hsome with rfl | ⟨n, hn, -⟩
      · rfl
      · simp at hn
  | append_singleton maps last ih =>
      have hlast := hagree last (by simp)
      have hmerge : merge (maps ++ [last]) = (merge maps).update last := by
        rw [merge, List.foldl_append]
        rfl
      rw [hmerge, get?_update]
      cases hvalue : last.get? id with
      | some x =>
          rw [hvalue] at hlast
          simpa using hlast
      | none =>
          rw [Option.none_or]
          refine ih (fun n hn => hagree n (by simp [hn])) ?_
          rcases hsome with hnone | ⟨n, hn, hget⟩
          · exact Or.inl hnone
          · rcases List.mem_append.mp hn with hn | hn
            · exact Or.inr ⟨n, hn, hget⟩
            · obtain rfl := List.mem_singleton.mp hn
              exact Or.inl (hget.symm.trans hvalue)

/-! ## Parts -/

/-- Parts of a map that cover it.  They may overlap, and come in any order. -/
structure IsCover (m : IdMap α) (parts : List (IdMap α)) : Prop where
  sub : ∀ part ∈ parts, ∀ id x, part.get? id = some x → m.get? id = some x
  covers : ∀ id x, m.get? id = some x → ∃ part ∈ parts, part.get? id = some x

variable {parts : List (IdMap α)}

/-- If a map can be traversed so can its parts. -/
theorem exists_outputs_of_traverse (hcover : m.IsCover parts) (h : m.traverse f = .ok n) :
    ∃ outputs, List.Forall₂ (fun part output => part.traverse f = .ok output) parts outputs := by
  have hpart : ∀ part ∈ parts, ∃ output, part.traverse f = .ok output := by
    intro part hmem
    refine exists_traverse_iff.mpr fun id x hx => ?_
    exact exists_traverse_iff.mp ⟨n, h⟩ id x (hcover.sub part hmem id x hx)
  exact exists_forall₂ hpart

/-- What the parts become is what the whole map becomes, id by id. -/
theorem get?_merge_of_traverse (hcover : m.IsCover parts) (h : m.traverse f = .ok n)
    {outputs : List (IdMap β)}
    (houtputs : List.Forall₂ (fun part output => part.traverse f = .ok output) parts outputs)
    (id : Int) : (merge outputs).get? id = n.get? id := by
  have hnone : ∀ {k : IdMap α} {k' : IdMap β}, k.traverse f = .ok k' → k.get? id = none →
      k'.get? id = none := by
    intro k k' hk hnone
    rw [get?_eq_none_iff, keys_traverse hk]
    exact get?_eq_none_iff.mp hnone
  -- A part that has the id has the value of the whole map there, and so the same image.
  have hsame : ∀ {part : IdMap α} {output : IdMap β} {x : α}, part ∈ parts →
      part.traverse f = .ok output → part.get? id = some x → output.get? id = n.get? id := by
    intro part output x hpart houtput hx
    obtain ⟨y, hy, hget⟩ := exists_image_of_traverse houtput hx
    obtain ⟨y', hy', hget'⟩ := exists_image_of_traverse h (hcover.sub part hpart id x hx)
    rw [hget, hget', ← Except.ok.inj (hy.symm.trans hy')]
  refine get?_merge (fun output houtput => ?_) ?_
  · obtain ⟨part, hpart, htraverse⟩ := exists_of_forall₂ houtputs.flip houtput
    cases hx : part.get? id with
    | none => exact Or.inl (hnone htraverse hx)
    | some x => exact Or.inr (hsame hpart htraverse hx)
  · cases hx : m.get? id with
    | none => exact Or.inl (hnone h hx)
    | some x =>
        obtain ⟨part, hpart, hx'⟩ := hcover.covers id x hx
        obtain ⟨output, houtput, htraverse⟩ := exists_of_forall₂ houtputs hpart
        exact Or.inr ⟨output, houtput, hsame hpart htraverse hx'⟩

/-- If a map cannot be traversed, then one of its parts cannot. -/
theorem exists_part_of_error (hcover : m.IsCover parts) {failure : ε}
    (h : m.traverse f = .error failure) :
    ∃ part ∈ parts, ∃ failure', part.traverse f = .error failure' := by
  obtain ⟨before, id, x, after, hentries, -, hfails⟩ := traverse_eq_error_iff.mp h
  obtain ⟨part, hpart, hx⟩ := hcover.covers id x (mem_entries_iff.mp (by simp [hentries]))
  refine ⟨part, hpart, ?_⟩
  cases houtput : part.traverse f with
  | error failure' => exact ⟨failure', rfl⟩
  | ok output =>
      obtain ⟨y, hy, -⟩ := exists_image_of_traverse houtput hx
      rw [hfails] at hy
      cases hy

/-! ## Disjoint unions -/

variable {a b : IdMap α}

/-- A map that holds the values of two others, which have no id in common. -/
structure IsDisjointUnion (m a b : IdMap α) : Prop where
  disjoint : ∀ id, a.get? id = none ∨ b.get? id = none
  get?_eq : ∀ id, m.get? id = (a.get? id).or (b.get? id)

theorem nodup_entries (m : IdMap α) : m.entries.Nodup := m.distinct.of_map

theorem IsDisjointUnion.values_perm (h : m.IsDisjointUnion a b) :
    m.values.Perm (a.values ++ b.values) := by
  have hapart : ∀ e ∈ a.entries, ∀ e' ∈ b.entries, e ≠ e' := by
    rintro ⟨id, x⟩ hx e' hx' rfl
    have hget := mem_entries_iff.mp hx
    have hget' := mem_entries_iff.mp hx'
    rcases h.disjoint id with hnone | hnone
    · simp [hnone] at hget
    · simp [hnone] at hget'
  have hentries : m.entries.Perm (a.entries ++ b.entries) := by
    refine (List.perm_ext_iff_of_nodup m.nodup_entries
      (List.nodup_append.mpr ⟨a.nodup_entries, b.nodup_entries, hapart⟩)).mpr ?_
    rintro ⟨id, x⟩
    rw [List.mem_append, mem_entries_iff, mem_entries_iff, mem_entries_iff, h.get?_eq]
    rcases h.disjoint id with hnone | hnone <;> simp [hnone]
  -- The values may repeat, so they are compared as what the entries come to.
  rw [values, values, values, ← List.map_append]
  exact hentries.map Prod.snd

end IdMap

end LeastSquares

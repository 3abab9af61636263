/-!
# Extremes found in lanes

The extreme of a row of scalars is searched for in eight lanes, two in each of four
registers.  All lanes start from the first scalar, further scalars are dealt to the
lanes two at a time, and in the end the lanes are compared with each other.  A row can
be staggered: if it is long enough to fill all lanes, its second scalar is then dealt
by itself.

Where any two scalars compare, this is the extreme in whatever order it is searched
for.  A scalar that does not compare, such as a NaN, gives way to the one it is
compared with if that comes second and takes its place if it comes second itself, so
the lanes decide which of them is noticed.  Whatever is found is one of the scalars
(`extreme_mem`).

The place of the extreme is looked up in blocks of eight, which are tested for equality,
and among the scalars left over, which only must not be unlike it.
-/

namespace LeastSquares

universe u

variable {α : Type u}

/-- Two lanes, the lower one first. -/
abbrev LanePair (α : Type u) := α × α

/-- The four pairs of lanes. -/
structure Lanes (α : Type u) where
  /-- The first pair. -/
  first : LanePair α
  /-- The second pair. -/
  second : LanePair α
  /-- The third pair. -/
  third : LanePair α
  /-- The fourth pair. -/
  fourth : LanePair α

namespace Lanes

/-- The first of two scalars if it is better, else the second. -/
def pick (better : α → α → Bool) (a b : α) : α := if better a b then a else b

/-- What is picked lane by lane. -/
def pickPair (better : α → α → Bool) (p q : LanePair α) : LanePair α :=
  (pick better p.1 q.1, pick better p.2 q.2)

/-- All lanes at one scalar. -/
def start (x : α) : Lanes α := ⟨(x, x), (x, x), (x, x), (x, x)⟩

/-- A single scalar goes to both lanes of the fourth pair. -/
def dealOne (better : α → α → Bool) (l : Lanes α) : List α → Lanes α
  | [] => l
  | x :: _ => { l with fourth := pickPair better l.fourth (x, x) }

/-- Two further scalars go to the third pair. -/
def dealTwo (better : α → α → Bool) (l : Lanes α) : List α → Lanes α
  | x :: y :: rest => dealOne better { l with third := pickPair better l.third (x, y) } rest
  | rest => dealOne better l rest

/-- Four further scalars go to the first two pairs. -/
def dealFour (better : α → α → Bool) (l : Lanes α) : List α → Lanes α
  | x :: y :: z :: w :: rest =>
      dealTwo better
        { l with
          first := pickPair better l.first (x, y)
          second := pickPair better l.second (z, w) }
        rest
  | rest => dealTwo better l rest

/-- Scalars are dealt to all lanes as long as there are eight of them. -/
def deal (better : α → α → Bool) (l : Lanes α) : List α → Lanes α
  | a :: b :: c :: d :: e :: f :: g :: h :: rest =>
      deal better
        { first := pickPair better l.first (a, b)
          second := pickPair better l.second (c, d)
          third := pickPair better l.third (e, f)
          fourth := pickPair better l.fourth (g, h) }
        rest
  | rest => dealFour better l rest

/-- Scalars are dealt to all lanes.  In a staggered row that fills them, the first one is dealt
by itself. -/
def dealRow (better : α → α → Bool) (staggered : Bool) (l : Lanes α) (row : List α) : Lanes α :=
  if staggered && 7 < row.length then deal better (dealOne better l row) row.tail
  else deal better l row

/-- What is picked among all lanes. -/
def result (better : α → α → Bool) (l : Lanes α) : α :=
  let p := pickPair better (pickPair better l.first l.second)
    (pickPair better l.third l.fourth)
  pick better p.2 p.1

/-- Whether both lanes of a pair hold a scalar with a property. -/
def Both (P : α → Prop) (p : LanePair α) : Prop := P p.1 ∧ P p.2

/-- Whether every lane holds a scalar with a property. -/
def All (P : α → Prop) (l : Lanes α) : Prop :=
  Both P l.first ∧ Both P l.second ∧ Both P l.third ∧ Both P l.fourth

variable {P : α → Prop} {better : α → α → Bool} {l : Lanes α}

theorem pick_of {a b : α} (ha : P a) (hb : P b) : P (pick better a b) := by
  rw [pick]; split <;> assumption

theorem pickPair_of {p q : LanePair α} (hp : Both P p) (hq : Both P q) :
    Both P (pickPair better p q) :=
  ⟨pick_of hp.1 hq.1, pick_of hp.2 hq.2⟩

theorem all_start {x : α} (h : P x) : (start x).All P := ⟨⟨h, h⟩, ⟨h, h⟩, ⟨h, h⟩, ⟨h, h⟩⟩

theorem all_dealOne (hl : l.All P) {rest : List α} (h : ∀ x ∈ rest, P x) :
    (dealOne better l rest).All P := by
  cases rest with
  | nil => exact hl
  | cons x rest =>
      have hx : P x := h x List.mem_cons_self
      exact ⟨hl.1, hl.2.1, hl.2.2.1, pickPair_of hl.2.2.2 ⟨hx, hx⟩⟩

theorem all_dealTwo (hl : l.All P) {rest : List α} (h : ∀ x ∈ rest, P x) :
    (dealTwo better l rest).All P := by
  unfold dealTwo
  split
  · simp only [List.forall_mem_cons] at h
    refine all_dealOne ?_ h.2.2
    exact ⟨hl.1, hl.2.1, pickPair_of hl.2.2.1 ⟨h.1, h.2.1⟩, hl.2.2.2⟩
  · exact all_dealOne hl h

theorem all_dealFour (hl : l.All P) {rest : List α} (h : ∀ x ∈ rest, P x) :
    (dealFour better l rest).All P := by
  unfold dealFour
  split
  · simp only [List.forall_mem_cons] at h
    obtain ⟨hx, hy, hz, hw, h⟩ := h
    refine all_dealTwo ?_ h
    exact ⟨pickPair_of hl.1 ⟨hx, hy⟩, pickPair_of hl.2.1 ⟨hz, hw⟩, hl.2.2⟩
  · exact all_dealTwo hl h

theorem all_deal (hl : l.All P) {rest : List α} (h : ∀ x ∈ rest, P x) :
    (deal better l rest).All P := by
  fun_induction deal better l rest with
  | case1 l a b c d e f g i rest ih =>
      simp only [List.forall_mem_cons] at h
      obtain ⟨ha, hb, hc, hd, he, hf, hg, hi, h⟩ := h
      exact ih
        ⟨pickPair_of hl.1 ⟨ha, hb⟩, pickPair_of hl.2.1 ⟨hc, hd⟩,
          pickPair_of hl.2.2.1 ⟨he, hf⟩, pickPair_of hl.2.2.2 ⟨hg, hi⟩⟩ h
  | case2 l rest => exact all_dealFour hl h

theorem all_dealRow (hl : l.All P) (staggered : Bool) {row : List α} (h : ∀ x ∈ row, P x) :
    (dealRow better staggered l row).All P := by
  unfold dealRow
  split
  · exact all_deal (all_dealOne hl h) fun x hx => h x (List.mem_of_mem_tail hx)
  · exact all_deal hl h

theorem result_of (hl : l.All P) : P (result better l) :=
  let hp := pickPair_of (pickPair_of hl.1 hl.2.1) (pickPair_of hl.2.2.1 hl.2.2.2)
  pick_of hp.2 hp.1

end Lanes

/-- The extreme of a first scalar and further ones, as it is found in lanes. -/
def extreme (better : α → α → Bool) (staggered : Bool) (x : α) (rest : List α) : α :=
  ((Lanes.start x).dealRow better staggered rest).result better

/-- The extreme is one of the scalars. -/
theorem extreme_mem (better : α → α → Bool) (staggered : Bool) (x : α) (rest : List α) :
    extreme better staggered x rest ∈ x :: rest :=
  Lanes.result_of
    (Lanes.all_dealRow (Lanes.all_start List.mem_cons_self) staggered fun _ hy =>
      List.mem_cons_of_mem _ hy)

/-! ## Places -/

/-- Whether neither of two scalars is less, as is the case too if they do not compare. -/
def alike [LT α] [DecidableLT α] (x y : α) : Bool := !decide (x < y) && !decide (y < x)

/-- The place of a scalar in a row: in blocks of eight it has to be equal, and among those left
over it must not be unlike. -/
def placeInBlocks? [LT α] [DecidableLT α] [BEq α] (top : α) : List α → Option Nat
  | a :: b :: c :: d :: e :: f :: g :: h :: rest =>
      match [a, b, c, d, e, f, g, h].findIdx? (· == top) with
      | some place => some place
      | none => (placeInBlocks? top rest).map (· + 8)
  | rest => rest.findIdx? (alike · top)

/-- The place of the greatest of a first scalar and further ones, and the last one if it is not
met again.  The blocks of a row that is long enough begin behind the first scalar unless the
row is staggered. -/
def greatestPlace [LT α] [DecidableLT α] [BEq α] (staggered : Bool) (x : α) (rest : List α) :
    Nat :=
  let top := extreme (fun a b => b < a) staggered x rest
  let place? :=
    if !staggered && 7 < rest.length then
      if alike x top then some 0 else (placeInBlocks? top rest).map (· + 1)
    else placeInBlocks? top (x :: rest)
  place?.getD rest.length

end LeastSquares

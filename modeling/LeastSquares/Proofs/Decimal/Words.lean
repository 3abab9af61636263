import LeastSquares.Decimal.Shortest
import LeastSquares.Text.Blank
import Mathlib.Data.List.Basic

/-!
# The texts of numbers are words

A *word* is a text with a character in it and without blanks.  Number texts are put
between separators, and they can be told apart from them, and from blank space,
because they are words: an integer in decimal (`isWord_ofInt`) and a floating-point
value in the shortest text of any style (`isWord_write`), NaN and the infinities
included.

The shortest text is put together from digits and a few marks, so the proof follows
the notation.  Whether the search finds the right digits does not matter here.
-/

namespace LeastSquares.Decimal

open Text

/-- A text without blanks that is not empty. -/
structure IsWord (cs : List Char) : Prop where
  ne_nil : cs ≠ []
  not_blank : ∀ c ∈ cs, isBlank c = false

theorem not_blank_of_all {cs : List Char} (h : (cs.all fun c => !isBlank c) = true) :
    ∀ c ∈ cs, isBlank c = false := by
  simpa using h

/-! ## Digits -/

theorem isBlank_of_isDigit {c : Char} (h : c.isDigit = true) : isBlank c = false := by
  simp only [Char.isDigit, Bool.and_eq_true, decide_eq_true_eq, ge_iff_le,
    UInt32.le_iff_toNat_le] at h
  change 48 ≤ c.toNat ∧ c.toNat ≤ 57 at h
  simp only [isBlank, isSpace, Bool.or_eq_false_iff, Bool.and_eq_false_iff, beq_eq_false_iff_ne,
    decide_eq_false_iff_not]
  omega

theorem isWord_digits (n : Nat) : IsWord (digits n) where
  ne_nil := Nat.toDigits_ne_nil
  not_blank _ hc := isBlank_of_isDigit (Nat.isDigit_of_mem_toDigits (by decide) (by decide) hc)

/-- The digits of an integer are those of the standard notation. -/
theorem ofInt_eq_repr (n : Int) : ofInt n = n.repr := by
  cases n with
  | ofNat n => exact Nat.repr_eq_ofList_toDigits.symm
  | negSucc n =>
      show String.ofList ('-' :: digits (n + 1)) = "-" ++ (n + 1).repr
      rw [Nat.repr_eq_ofList_toDigits, ← String.toList_inj]
      simp [digits]

theorem isWord_ofInt (n : Int) : IsWord (ofInt n).toList := by
  cases n with
  | ofNat n =>
      rw [ofInt, String.toList_ofList]
      exact isWord_digits n
  | negSucc n =>
      rw [ofInt, String.toList_ofList]
      exact ⟨List.cons_ne_nil _ _, List.forall_mem_cons.mpr
        ⟨by decide, (isWord_digits (n + 1)).not_blank⟩⟩

/-! ## The two notations -/

variable {ds : List Char}

theorem mem_of_mem_dropTrailingZeros {c : Char} (h : c ∈ dropTrailingZeros ds) : c ∈ ds := by
  rw [dropTrailingZeros, List.mem_reverse] at h
  exact List.mem_reverse.mp ((List.dropWhile_suffix _).subset h)

theorem isWord_positional (hds : ∀ c ∈ ds, isBlank c = false) (point : Int) :
    IsWord (positional ['.', '0'] ds point) := by
  have hzeros : ∀ (k : Nat), ∀ c ∈ List.replicate k '0', isBlank c = false := by
    intro k c hc
    rw [List.eq_of_mem_replicate hc]
    decide
  unfold positional
  split
  · refine ⟨List.cons_ne_nil _ _, ?_⟩
    simp only [List.forall_mem_cons, List.forall_mem_append]
    exact ⟨by decide, by decide, hzeros _, hds⟩
  · split
    · refine ⟨by simp, ?_⟩
      simp only [List.forall_mem_append]
      exact ⟨⟨hds, hzeros _⟩, not_blank_of_all (by decide)⟩
    · refine ⟨by simp, ?_⟩
      simp only [List.forall_mem_cons, List.forall_mem_append]
      exact ⟨fun c hc => hds c (List.mem_of_mem_take hc), by decide,
        fun c hc => hds c (List.mem_of_mem_drop hc)⟩

theorem isWord_exponentText (e : Int) : IsWord (exponentText e) := by
  have hdigits := (isWord_digits e.natAbs).not_blank
  refine ⟨List.cons_ne_nil _ _, List.forall_mem_cons.mpr ⟨?_, ?_⟩⟩
  · split <;> decide
  · split
    · exact List.forall_mem_cons.mpr ⟨by decide, hdigits⟩
    · exact hdigits

theorem isWord_scientific (hds : ∀ c ∈ ds, isBlank c = false) (point : Int) :
    IsWord (scientific ds point) := by
  unfold scientific
  refine ⟨by simp, ?_⟩
  simp only [List.forall_mem_append, List.forall_mem_cons]
  refine ⟨?_, by decide, (isWord_exponentText _).not_blank⟩
  -- The mantissa has a point only when there are digits to follow it.
  match ds, hds with
  | [], _ => exact not_blank_of_all (by decide)
  | [d], hds => exact hds
  | d :: d' :: rest, hds =>
      obtain ⟨hd, hrest⟩ := List.forall_mem_cons.mp hds
      exact List.forall_mem_cons.mpr ⟨hd, List.forall_mem_cons.mpr ⟨by decide, hrest⟩⟩

/-! ## The shortest text -/

theorem shortest_not_blank (n : Neighborhood) : ∀ c ∈ n.shortest.1, isBlank c = false := by
  unfold Neighborhood.shortest
  simp only
  split
  · rename_i ds grid hhit
    -- Whichever grid has the hit, what was found are the digits of a number.
    obtain ⟨i, _, hi⟩ := List.exists_of_findSome?_eq_some hhit
    obtain ⟨d, _, hd⟩ := Option.map_eq_some_iff.mp hi
    obtain ⟨rfl, _⟩ := Prod.mk.inj hd
    exact fun c hc => (isWord_digits d).not_blank c (mem_of_mem_dropTrailingZeros hc)
  · exact not_blank_of_all (by decide)

/-- The text of a value is a word, whatever the style. -/
theorem isWord_write (style : Style) (x : Float) : IsWord (style.write x) := by
  have hword : ∀ cs : List Char, cs ≠ [] ∧ (cs.all fun c => !isBlank c) = true → IsWord cs :=
    fun cs h => ⟨h.1, not_blank_of_all h.2⟩
  unfold Style.write
  split
  · exact hword _ (by decide)
  · exact hword _ (by decide)
  · exact hword _ (by decide)
  · exact hword _ (by decide)
  · exact hword _ (by decide)
  · rename_i sign mantissa exponent _ _
    simp only
    generalize Neighborhood.of style.format mantissa exponent = n
    have htext : IsWord (if style.plain n.value n.den n.shortest.2 then
        positional ['.', '0'] n.shortest.1 n.shortest.2
        else scientific n.shortest.1 n.shortest.2) := by
      split
      · exact isWord_positional (shortest_not_blank n) _
      · exact isWord_scientific (shortest_not_blank n) _
    cases sign with
    | positive => exact htext
    | negative =>
        exact ⟨List.cons_ne_nil _ _, List.forall_mem_cons.mpr ⟨by decide, htext.not_blank⟩⟩

end LeastSquares.Decimal

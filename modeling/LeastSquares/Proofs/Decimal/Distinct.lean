import LeastSquares.Decimal.Read
import LeastSquares.Proofs.Decimal.Neighborhoods
import LeastSquares.Proofs.Decimal.Words
import Mathlib.Data.List.DropRight

/-!
# Different values have different texts

`valueOf` reads the number that a text without a sign stands for, over the rationals.  Both
notations say the same number (`valueOf_positional`, `valueOf_scientific`), and zeros at the
end of the digits do not change it.  So the number can be read off the text of a value, and
it is in the neighborhood of that value and of no other one.  What is not finite, or is zero,
has a text that reads as zero, and these five texts differ.

The main result is `Style.write_eq_iff`.
-/

namespace LeastSquares.Decimal

open Float.Model hiding pack unpack
open Number (IsCanonical IsHeld hold)

/-! ## Rows of digits -/

section Digits

variable {ds es : List Char}

theorem natOfDigits_append (ds es : List Char) :
    natOfDigits (ds ++ es) = 10 ^ es.length * natOfDigits ds + natOfDigits es :=
  (Nat.ofDigitChars_append 0).trans Nat.ofDigitChars_eq_ofDigitChars_zero

theorem natOfDigits_replicate_zero (k : ℕ) : natOfDigits (List.replicate k '0') = 0 :=
  Nat.ofDigitChars_replicate_zero

theorem natOfDigits_digits (n : ℕ) : natOfDigits (digits n) = n := Nat.ofDigitChars_ten_toDigits

theorem isDigit_digits (n : ℕ) : ∀ c ∈ digits n, c.isDigit = true :=
  fun _ hc => Nat.isDigit_of_mem_toDigits (by decide) (by decide) hc

theorem isDigit_replicate_zero (k : ℕ) : ∀ c ∈ List.replicate k '0', c.isDigit = true := by
  intro c hc
  rw [List.eq_of_mem_replicate hc]
  rfl

/-- The number that digits stand for, so many of them before the point. -/
def numberOf (ds : List Char) (point : ℤ) : ℚ := natOfDigits ds * 10 ^ (point - ds.length)

theorem numberOf_digits (d : ℕ) (grid : ℤ) :
    numberOf (digits d) ((digits d).length + grid) = d * 10 ^ grid := by
  rw [numberOf, natOfDigits_digits, add_sub_cancel_left]

/-- Zeros after the last digit do not change the number. -/
theorem numberOf_append_replicate (ds : List Char) (k : ℕ) (point : ℤ) :
    numberOf (ds ++ List.replicate k '0') point = numberOf ds point := by
  have hexponent : point - ((ds.length + k : ℕ) : ℤ) = point - ds.length - k := by
    push_cast
    ring
  rw [numberOf, numberOf, natOfDigits_append, natOfDigits_replicate_zero, List.length_append,
    List.length_replicate, hexponent, zpow_sub₀ (by norm_num), zpow_natCast]
  push_cast
  field_simp
  ring

/-- Nor do zeros before the first digit. -/
theorem natOfDigits_replicate_append (k : ℕ) (ds : List Char) :
    natOfDigits (List.replicate k '0' ++ ds) = natOfDigits ds := by
  rw [natOfDigits_append, natOfDigits_replicate_zero, Nat.mul_zero, Nat.zero_add]

theorem numberOf_dropTrailingZeros (ds : List Char) (point : ℤ) :
    numberOf (dropTrailingZeros ds) point = numberOf ds point := by
  induction ds using List.reverseRecOn with
  | nil => rfl
  | append_singleton ds c ih =>
      have hdrop : dropTrailingZeros (ds ++ [c]) =
          if c == '0' then dropTrailingZeros ds else ds ++ [c] := List.rdropWhile_concat ..
      rw [hdrop]
      split
      · rename_i hzero
        rw [ih, eq_of_beq hzero]
        exact (numberOf_append_replicate ds 1 point).symm
      · rfl

end Digits

/-! ## Reading a text -/

/-- The number that a text without a sign stands for.  What does not begin with a digit counts
as zero. -/
def valueOf (cs : List Char) : ℚ :=
  let whole := cs.takeWhile Char.isDigit
  match cs.dropWhile Char.isDigit with
  | '.' :: after =>
      let fraction := after.takeWhile Char.isDigit
      let exponent := (readExponent? (after.dropWhile Char.isDigit)).getD 0
      natOfDigits (whole ++ fraction) * 10 ^ (exponent - fraction.length)
  | rest => natOfDigits whole * 10 ^ (readExponent? rest).getD 0

section Reading

variable {ds es tail : List Char} {c : Char}

theorem takeWhile_digits_append (hds : ∀ c ∈ ds, c.isDigit = true) (hc : c.isDigit = false) :
    (ds ++ c :: tail).takeWhile Char.isDigit = ds := by
  rw [List.takeWhile_append_of_pos hds, List.takeWhile_cons_of_neg (by simp [hc]), List.append_nil]

theorem dropWhile_digits_append (hds : ∀ c ∈ ds, c.isDigit = true) (hc : c.isDigit = false) :
    (ds ++ c :: tail).dropWhile Char.isDigit = c :: tail := by
  rw [List.dropWhile_append_of_pos hds, List.dropWhile_cons_of_neg (by simp [hc])]

theorem valueOf_point (hds : ∀ c ∈ ds, c.isDigit = true) (hes : ∀ c ∈ es, c.isDigit = true) :
    valueOf (ds ++ '.' :: es) = numberOf (ds ++ es) ds.length := by
  have hpoint : ('.' : Char).isDigit = false := rfl
  have hfraction : es.takeWhile Char.isDigit = es := List.takeWhile_eq_self_iff.mpr hes
  have htail : es.dropWhile Char.isDigit = [] := List.dropWhile_eq_nil_iff.mpr hes
  simp only [valueOf, takeWhile_digits_append hds hpoint, dropWhile_digits_append hds hpoint,
    hfraction, htail]
  rw [numberOf, List.length_append, readExponent?, Option.getD_some]
  congr 2
  push_cast
  ring

theorem valueOf_positional (hds : ∀ c ∈ ds, c.isDigit = true) (point : ℤ) :
    valueOf (positional ['.', '0'] ds point) = numberOf ds point := by
  unfold positional
  split
  · rename_i hpoint
    have hzeros : ∀ c ∈ List.replicate (-point).toNat '0' ++ ds, c.isDigit = true :=
      List.forall_mem_append.mpr ⟨isDigit_replicate_zero _, hds⟩
    have hzero : ∀ c ∈ ['0'], c.isDigit = true := by simp [Char.isDigit]
    have hvalue := valueOf_point hzero hzeros
    rw [List.singleton_append, ← List.append_assoc] at hvalue
    have hfirst : ['0'] ++ List.replicate (-point).toNat '0' =
        List.replicate ((-point).toNat + 1) '0' := rfl
    rw [hvalue, hfirst, numberOf, natOfDigits_replicate_append, numberOf]
    congr 2
    simp only [List.length_append, List.length_replicate, List.length_singleton]
    push_cast
    omega
  · rename_i hpoint
    split
    · rename_i hlength
      have hwhole : ∀ c ∈ ds ++ List.replicate (point.toNat - ds.length) '0',
          c.isDigit = true :=
        List.forall_mem_append.mpr ⟨hds, isDigit_replicate_zero _⟩
      have hlast : ds ++ List.replicate (point.toNat - ds.length) '0' ++ ['0'] =
          ds ++ List.replicate (point.toNat - ds.length + 1) '0' := by
        rw [List.append_assoc, List.replicate_succ']
      rw [valueOf_point hwhole (by simp [Char.isDigit]), hlast, numberOf_append_replicate]
      congr 1
      simp only [List.length_append, List.length_replicate]
      omega
    · rename_i hlength
      rw [valueOf_point (fun c hc => hds c (List.mem_of_mem_take hc))
        (fun c hc => hds c (List.mem_of_mem_drop hc)), List.take_append_drop]
      congr 1
      rw [List.length_take]
      omega

theorem readExponent?_exponentText (e : ℤ) : readExponent? ('e' :: exponentText e) = some e := by
  have hpadded : ∀ ds : List Char, ds = digits e.natAbs →
      (if ds.length < 2 then '0' :: ds else ds) ≠ [] ∧
      ((if ds.length < 2 then '0' :: ds else ds).all Char.isDigit) = true ∧
      natOfDigits (if ds.length < 2 then '0' :: ds else ds) = e.natAbs := by
    rintro ds rfl
    have hall := List.all_eq_true.mpr (isDigit_digits e.natAbs)
    split
    · refine ⟨List.cons_ne_nil _ _, ?_, ?_⟩
      · rw [List.all_cons, hall]
        rfl
      · exact (natOfDigits_replicate_append 1 _).trans (natOfDigits_digits _)
    · exact ⟨(isWord_digits _).ne_nil, hall, natOfDigits_digits _⟩
  obtain ⟨hne, hall, hvalue⟩ := hpadded _ rfl
  rw [readExponent?, exponentText]
  by_cases hneg : e < 0
  · simp only [if_pos hneg, splitSign, true_or, ne_eq, hne, not_false_eq_true, hall, and_self,
      if_true, hvalue, Option.some.injEq]
    omega
  · simp only [if_neg hneg, splitSign, true_or, ne_eq, hne, not_false_eq_true, hall, and_self,
      if_true, hvalue, Bool.false_eq_true, if_false, Option.some.injEq]
    omega

theorem valueOf_scientific (hds : ∀ c ∈ ds, c.isDigit = true) (hne : ds ≠ []) (point : ℤ) :
    valueOf (scientific ds point) = numberOf ds point := by
  have he : ('e' : Char).isDigit = false := rfl
  have hpoint : ('.' : Char).isDigit = false := rfl
  cases ds with
  | nil => exact absurd rfl hne
  | cons d rest =>
      obtain ⟨hd, hrest⟩ := List.forall_mem_cons.mp hds
      have hfirst : ∀ c ∈ [d], c.isDigit = true := by simpa using hd
      cases rest with
      | nil =>
          change valueOf ([d] ++ 'e' :: exponentText (point - 1)) = _
          simp only [valueOf, takeWhile_digits_append hfirst he, dropWhile_digits_append hfirst he]
          change (natOfDigits [d] : ℚ) *
            10 ^ (readExponent? ('e' :: exponentText (point - 1))).getD 0 = _
          rw [readExponent?_exponentText]
          rfl
      | cons d' rest =>
          change valueOf ([d] ++ '.' :: ((d' :: rest) ++ 'e' :: exponentText (point - 1))) = _
          simp only [valueOf, takeWhile_digits_append hfirst hpoint,
            dropWhile_digits_append hfirst hpoint, takeWhile_digits_append hrest he,
            dropWhile_digits_append hrest he, readExponent?_exponentText, Option.getD_some]
          rw [numberOf, List.singleton_append]
          congr 2
          simp only [List.length_cons]
          push_cast
          ring

/-- What begins with a letter or a sign counts as zero. -/
theorem valueOf_cons (hc : c.isDigit = false) (hpoint : c ≠ '.') (cs : List Char) :
    valueOf (c :: cs) = 0 := by
  have htake : (c :: cs).takeWhile Char.isDigit = [] := List.takeWhile_cons_of_neg (by simp [hc])
  have hdrop : (c :: cs).dropWhile Char.isDigit = c :: cs :=
    List.dropWhile_cons_of_neg (by simp [hc])
  simp only [valueOf, htake, hdrop]
  split
  · rename_i heq
    exact absurd (List.cons.inj heq).1 hpoint
  · simp [natOfDigits]

end Reading

/-! ## The texts of values -/

section Texts

variable {style : Style} {f : Format}

/-- The text of a finite value without its sign. -/
def Style.body (style : Style) (mantissa : ℕ) (exponent : ℤ) : List Char :=
  let n := Neighborhood.of style.format mantissa exponent
  if style.plain n.value n.den n.shortest.2 then positional ['.', '0'] n.shortest.1 n.shortest.2
  else scientific n.shortest.1 n.shortest.2

/-- The text of a value of the format of a style. -/
def Style.text (style : Style) : UnpackedFloat → List Char
  | .notANumber => "nan".toList
  | .infinity .positive => "inf".toList
  | .infinity .negative => "-inf".toList
  | .zero .positive => "0.0".toList
  | .zero .negative => "-0.0".toList
  | .finite .positive mantissa exponent _ => style.body mantissa exponent
  | .finite .negative mantissa exponent _ => '-' :: style.body mantissa exponent

theorem Style.write_eq_text (style : Style) (x : Float) :
    style.write x = style.text (hold style.format x.toModel.unpack) := by
  unfold Style.write
  split <;> rename_i heq <;> rw [heq]
  · rfl
  · rfl
  · rfl
  · rfl
  · rfl
  · rename_i sign _ _ _
    cases sign <;> rfl

theorem Style.contains_valueOf (hbits : 2 ^ style.format.mantissaBits ≤ 10 ^ 16) {mantissa : ℕ}
    {exponent : ℤ} (h : IsCanonical style.format mantissa exponent) :
    (Neighborhood.of style.format mantissa exponent).Contains
      (valueOf (style.body mantissa exponent)) := by
  obtain ⟨d, grid, hshortest, hcontains⟩ :=
    (Neighborhood.wide_of_isCanonical hbits h).exists_shortest
  have hnumber : numberOf (dropTrailingZeros (digits d)) ((digits d).length + grid) =
      d * 10 ^ grid := by
    rw [numberOf_dropTrailingZeros, numberOf_digits]
  have hdigits : ∀ c ∈ dropTrailingZeros (digits d), c.isDigit = true := fun c hc =>
    isDigit_digits d c (mem_of_mem_dropTrailingZeros hc)
  -- The number is positive, so that a digit is left.
  have hne : dropTrailingZeros (digits d) ≠ [] := by
    intro hnil
    rw [hnil, numberOf] at hnumber
    have hpos := hcontains.pos h.pos
    rw [← hnumber] at hpos
    simp [natOfDigits] at hpos
  have hvalue : valueOf (style.body mantissa exponent) = d * 10 ^ grid := by
    rw [← hnumber, Style.body, hshortest]
    split
    · exact valueOf_positional hdigits _
    · exact valueOf_scientific hdigits hne _
  rwa [hvalue]

/-- The number that a text stands for, with its sign. -/
def signedValueOf : List Char → ℚ
  | '-' :: cs => -valueOf cs
  | cs => valueOf cs

theorem signedValueOf_eq {cs : List Char} (h : valueOf cs ≠ 0) :
    signedValueOf cs = valueOf cs := by
  unfold signedValueOf
  split
  · exact absurd (valueOf_cons rfl (by decide) _) h
  · rfl

variable {mantissa mantissa' : ℕ} {exponent exponent' : ℤ} {hpos : 0 < mantissa}
  {hpos' : 0 < mantissa'} {sign sign' : UnpackedFloat.Sign}

/-- A finite value has a text that stands for a number in its neighborhood. -/
theorem Style.exists_signedValueOf (sign : UnpackedFloat.Sign) (hpos : 0 < mantissa)
    (hbits : 2 ^ style.format.mantissaBits ≤ 10 ^ 16)
    (h : IsCanonical style.format mantissa exponent) :
    ∃ x, (Neighborhood.of style.format mantissa exponent).Contains x ∧ 0 < x ∧
      signedValueOf (style.text (.finite sign mantissa exponent hpos)) =
        match sign with
        | .positive => x
        | .negative => -x := by
  have hcontains := style.contains_valueOf hbits h
  have hvalue := hcontains.pos h.pos
  refine ⟨_, hcontains, hvalue, ?_⟩
  cases sign with
  | positive => exact signedValueOf_eq hvalue.ne'
  | negative => rfl

theorem Style.signedValueOf_text_finite_ne_zero (hbits : 2 ^ style.format.mantissaBits ≤ 10 ^ 16)
    (h : IsCanonical style.format mantissa exponent) :
    signedValueOf (style.text (.finite sign mantissa exponent hpos)) ≠ 0 := by
  obtain ⟨x, -, hx, hread⟩ := style.exists_signedValueOf sign hpos hbits h
  rw [hread]
  cases sign with
  | positive => exact hx.ne'
  | negative => exact (neg_neg_of_pos hx).ne

/-- The value that one of the fixed texts is written for. -/
def ofWord (cs : List Char) : UnpackedFloat :=
  if cs = "inf".toList then .infinity .positive
  else if cs = "-inf".toList then .infinity .negative
  else if cs = "0.0".toList then .zero .positive
  else if cs = "-0.0".toList then .zero .negative
  else .notANumber

/-- What is not finite, or is zero, has one of five texts, which stand for zero as numbers. -/
theorem Style.eq_finite_or_text_eq (style : Style) (u : UnpackedFloat) :
    (∃ sign mantissa exponent hpos, u = .finite sign mantissa exponent hpos) ∨
      signedValueOf (style.text u) = 0 ∧ ofWord (style.text u) = u := by
  have hletter : ∀ cs : List Char, valueOf ('i' :: cs) = 0 ∧ valueOf ('n' :: cs) = 0 := fun cs =>
    ⟨valueOf_cons rfl (by decide) cs, valueOf_cons rfl (by decide) cs⟩
  have hzero : valueOf "0.0".toList = 0 := by
    rw [show "0.0".toList = ['0'] ++ '.' :: ['0'] from rfl,
      valueOf_point (by simp [Char.isDigit]) (by simp [Char.isDigit])]
    simp [numberOf, natOfDigits]
  cases u with
  | finite sign mantissa exponent hpos => exact .inl ⟨_, _, _, _, rfl⟩
  | notANumber => exact .inr ⟨(hletter _).2, rfl⟩
  | infinity sign =>
      cases sign with
      | positive => exact .inr ⟨(hletter _).1, rfl⟩
      | negative => exact .inr ⟨neg_eq_zero.mpr (hletter _).1, rfl⟩
  | zero sign =>
      cases sign with
      | positive => exact .inr ⟨hzero, rfl⟩
      | negative => exact .inr ⟨neg_eq_zero.mpr hzero, rfl⟩

theorem Style.finite_eq_of_text_eq (hbits : 2 ^ style.format.mantissaBits ≤ 10 ^ 16)
    (h : IsCanonical style.format mantissa exponent)
    (h' : IsCanonical style.format mantissa' exponent')
    (htext : style.text (.finite sign mantissa exponent hpos) =
      style.text (.finite sign' mantissa' exponent' hpos')) :
    UnpackedFloat.finite sign mantissa exponent hpos =
      .finite sign' mantissa' exponent' hpos' := by
  obtain ⟨x, hcontains, hx, hread⟩ := style.exists_signedValueOf sign hpos hbits h
  obtain ⟨x', hcontains', hx', hread'⟩ := style.exists_signedValueOf sign' hpos' hbits h'
  rw [htext, hread'] at hread
  have hsame : sign = sign' ∧ x = x' := by
    cases sign <;> cases sign' <;> simp only at hread
    · exact ⟨rfl, by linarith⟩
    · exact absurd hread (by linarith)
    · exact absurd hread (by linarith)
    · exact ⟨rfl, by linarith⟩
  obtain ⟨rfl, rfl⟩ := hsame
  obtain ⟨rfl, rfl⟩ := Neighborhood.eq_of_contains h h' hcontains hcontains'
  rfl

theorem Style.text_injective (hbits : 2 ^ style.format.mantissaBits ≤ 10 ^ 16)
    {u u' : UnpackedFloat} (hu : IsHeld style.format u) (hu' : IsHeld style.format u')
    (h : style.text u = style.text u') : u = u' := by
  rcases style.eq_finite_or_text_eq u with ⟨_, _, _, _, rfl⟩ | ⟨hzero, hword⟩
  · rcases style.eq_finite_or_text_eq u' with ⟨_, _, _, _, rfl⟩ | ⟨hzero', -⟩
    · exact finite_eq_of_text_eq hbits hu hu' h
    · exact absurd (h ▸ hzero') (style.signedValueOf_text_finite_ne_zero hbits hu)
  · rcases style.eq_finite_or_text_eq u' with ⟨_, _, _, _, rfl⟩ | ⟨-, hword'⟩
    · exact absurd (h ▸ hzero) (style.signedValueOf_text_finite_ne_zero hbits hu')
    · rw [← hword, h, hword']

/-- **Different values have different texts.**  For a format of at most 53 bits, two floating-point
numbers are written the same way exactly if they are the same value of the format. -/
theorem Style.write_eq_iff (hbits : 2 ^ style.format.mantissaBits ≤ 10 ^ 16)
    (hexponent : 2 ≤ style.format.exponentBits) {x y : Float} :
    style.write x = style.write y ↔
      hold style.format x.toModel.unpack = hold style.format y.toModel.unpack := by
  rw [write_eq_text, write_eq_text]
  refine ⟨text_injective hbits ?_ ?_, fun h => by rw [h]⟩
  · exact Number.isHeld_unpack hexponent _
  · exact Number.isHeld_unpack hexponent _

theorem narrow_eq_of_write_eq {x y : Float}
    (h : Text32.write (Number.narrow x) = Text32.write (Number.narrow y)) :
    Number.narrow x = Number.narrow y := by
  have hbits : 2 ^ Text32.format.mantissaBits ≤ 10 ^ 16 := by decide
  have hexponent : 2 ≤ Text32.format.exponentBits := by decide
  exact Number.narrow_injective ((Style.write_eq_iff hbits hexponent).mp h)

end Texts

end LeastSquares.Decimal

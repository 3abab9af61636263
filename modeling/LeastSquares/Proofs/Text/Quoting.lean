import LeastSquares.Text.Quoted
import Mathlib

/-!
# A quoted text shows the text

What stands between the two marks is read one character at a time.  `unescape?` takes as much
from the front as one character was written with, and that is what `escape` has put there
(`unescape?_escape`).  It need not know the mark, because a backslash lets either mark stand for
itself.  So two texts that are quoted alike are equal (`quoted_injective`).

A text of printable characters, without backslashes and without its mark, is written as it is
(`quoted_of_plain`).  The mark is an apostrophe unless there is one in the text
(`quoted_eq_of_plain`).
-/

namespace LeastSquares.Text

/-! ## Hexadecimal digits -/

/-- The value of a hexadecimal digit. -/
def hexValue (c : Char) : Nat := if c.toNat < 58 then c.toNat - 48 else c.toNat - 87

/-- The number that hexadecimal digits stand for. -/
def hexNumber (cs : List Char) : Nat := cs.foldl (fun n c => 16 * n + hexValue c) 0

theorem hexValue_hexDigit : ∀ n < 16, hexValue (hexDigit n) = n := by decide

theorem hexNumber_hexDigits {n width : Nat} (h : n < 16 ^ width) :
    hexNumber (hexDigits n width) = n := by
  induction width generalizing n with
  | zero =>
      rw [Nat.pow_zero, Nat.lt_one_iff] at h
      rw [h]
      rfl
  | succ width ih =>
      have hfront : n / 16 < 16 ^ width := by
        rw [Nat.pow_succ] at h
        exact Nat.div_lt_of_lt_mul (Nat.mul_comm _ _ ▸ h)
      have hfold : hexNumber (hexDigits n (width + 1)) =
          16 * hexNumber (hexDigits (n / 16) width) + hexValue (hexDigit (n % 16)) := by
        rw [hexDigits, hexNumber, List.foldl_append]
        rfl
      rw [hfold, ih hfront, hexValue_hexDigit _ (Nat.mod_lt n (by decide))]
      exact Nat.div_add_mod n 16

/-! ## Reading one character -/

/-- How many digits follow a letter that announces a code point. -/
def digitCount? : Char → Option Nat
  | 'x' => some 2
  | 'u' => some 4
  | 'U' => some 8
  | _ => none

/-- What a character behind a backslash stands for if it announces no code point. -/
def ofEscaped : Char → Char
  | 't' => '\t'
  | 'n' => '\n'
  | 'r' => '\r'
  | c => c

/-- The first character that a quotation shows, and the rest of the quotation. -/
def unescape? : List Char → Option (Char × List Char)
  | [] => none
  | [c] => some (c, [])
  | c :: d :: rest =>
      if c = '\\' then
        match digitCount? d with
        | some width => some (Char.ofNat (hexNumber (rest.take width)), rest.drop width)
        | none => some (ofEscaped d, rest)
      else some (c, d :: rest)

theorem unescape?_of_ne {c : Char} (h : c ≠ '\\') (rest : List Char) :
    unescape? (c :: rest) = some (c, rest) := by
  cases rest with
  | nil => rfl
  | cons d rest => exact if_neg h

theorem unescape?_backslash {c : Char} (h : digitCount? c = none) (rest : List Char) :
    unescape? ('\\' :: c :: rest) = some (ofEscaped c, rest) := by
  rw [unescape?, if_pos rfl, h]

/-- A code point with enough digits is read as its character. -/
theorem unescape?_digits {letter c : Char} {width : Nat} (h : digitCount? letter = some width)
    (hc : c.toNat < 16 ^ width) (rest : List Char) :
    unescape? ('\\' :: letter :: (hexDigits c.toNat width ++ rest)) = some (c, rest) := by
  have hlength := length_hexDigits c.toNat width
  rw [unescape?, if_pos rfl, h]
  simp only
  rw [List.take_left' hlength, List.drop_left' hlength, hexNumber_hexDigits hc, Char.ofNat_toNat]

/-- What a character is written with is read as that character. -/
theorem unescape?_escape {mark : Char} (hmark : mark = '\'' ∨ mark = '"') (c : Char)
    (rest : List Char) : unescape? (escape mark c ++ rest) = some (c, rest) := by
  unfold escape
  split_ifs with hself htab hline hreturn hprintable hshort hmiddle
  · have hitself : digitCount? c = none ∧ ofEscaped c = c := by
      rcases hself with rfl | rfl
      · rcases hmark with rfl | rfl <;> exact ⟨rfl, rfl⟩
      · exact ⟨rfl, rfl⟩
    exact (unescape?_backslash hitself.1 rest).trans (by rw [hitself.2])
  · exact htab ▸ unescape?_backslash rfl rest
  · exact hline ▸ unescape?_backslash rfl rest
  · exact hreturn ▸ unescape?_backslash rfl rest
  · exact unescape?_of_ne (fun hslash => hself (.inr hslash)) rest
  · exact unescape?_digits rfl hshort rest
  · exact unescape?_digits rfl hmiddle rest
  · have hvalid := c.valid
    simp only [UInt32.isValidChar, Nat.isValidChar] at hvalid
    have hc : c.toNat < 16 ^ 8 := by
      simp only [Char.toNat]
      omega
    exact unescape?_digits rfl hc rest

/-! ## Whole texts -/

theorem markOf_eq_quote_iff {cs : List Char} :
    markOf cs = '"' ↔ '\'' ∈ cs ∧ '"' ∉ cs := by
  unfold markOf
  split
  · next h => simpa using h
  · next h => simpa using h

theorem markOf_eq_or (cs : List Char) : markOf cs = '\'' ∨ markOf cs = '"' := by
  unfold markOf
  split
  · exact .inr rfl
  · exact .inl rfl

theorem eq_of_flatMap_escape_eq {mark : Char} (hmark : mark = '\'' ∨ mark = '"')
    {cs ds : List Char} (h : cs.flatMap (escape mark) = ds.flatMap (escape mark)) : cs = ds := by
  induction cs generalizing ds with
  | nil =>
      cases ds with
      | nil => rfl
      | cons d ds =>
          have hread := congrArg unescape? h
          rw [List.flatMap_cons, unescape?_escape hmark] at hread
          cases hread
  | cons c cs ih =>
      have hread := congrArg unescape? h
      rw [List.flatMap_cons, unescape?_escape hmark] at hread
      cases ds with
      | nil => cases hread
      | cons d ds =>
          rw [List.flatMap_cons, unescape?_escape hmark, Option.some.injEq, Prod.mk.injEq] at hread
          rw [hread.1, ih hread.2]

/-- **A quoted text shows the text**: only equal texts are quoted alike. -/
theorem quoted_injective {s t : String} (h : quoted s = quoted t) : s = t := by
  have hlists := String.ofList_injective h
  obtain ⟨hmark, hrest⟩ := List.cons.inj hlists
  rw [hmark] at hrest
  have hbody := List.append_cancel_right hrest
  exact String.toList_injective (eq_of_flatMap_escape_eq (markOf_eq_or _) hbody)

theorem escape_of_plain {mark c : Char} (hprintable : isPrintable c = true) (hmark : c ≠ mark)
    (hslash : c ≠ '\\') : escape mark c = [c] := by
  have hne : ∀ d, isPrintable d = false → c ≠ d := by
    rintro d hd rfl
    exact Bool.false_ne_true (hd.symm.trans hprintable)
  rw [escape, if_neg (not_or.mpr ⟨hmark, hslash⟩), if_neg (hne '\t' (by decide)),
    if_neg (hne '\n' (by decide)), if_neg (hne '\r' (by decide)), if_pos hprintable]

/-- A text of printable characters, none of which is a backslash or the mark, is between its marks
as it is. -/
theorem quoted_of_plain {s : String} (h : ∀ c ∈ s.toList,
    isPrintable c = true ∧ c ≠ markOf s.toList ∧ c ≠ '\\') :
    (quoted s).toList = markOf s.toList :: (s.toList ++ [markOf s.toList]) := by
  have hbody : s.toList.flatMap (escape (markOf s.toList)) = s.toList.flatMap fun c => [c] :=
    List.flatMap_congr fun c hc => escape_of_plain (h c hc).1 (h c hc).2.1 (h c hc).2.2
  rw [quoted, String.toList_ofList, hbody, List.flatMap_singleton']

/-- Without apostrophes the marks are apostrophes. -/
theorem quoted_eq_of_plain {s : String} (h : ∀ c ∈ s.toList,
    isPrintable c = true ∧ c ≠ '\'' ∧ c ≠ '\\') : quoted s = "'" ++ s ++ "'" := by
  have hmark : markOf s.toList = '\'' := by
    rcases markOf_eq_or s.toList with hmark | hmark
    · exact hmark
    · exact absurd rfl (h _ (markOf_eq_quote_iff.mp hmark).1).2.1
  refine String.toList_injective ?_
  rw [quoted_of_plain (hmark ▸ h), hmark, String.toList_append, String.toList_append]
  rfl

end LeastSquares.Text

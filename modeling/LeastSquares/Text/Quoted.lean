import LeastSquares.Text.Printable

/-!
# Quoted text

A text is quoted between two equal marks: apostrophes, or double quotes when
the text holds an apostrophe and no double quote.  Inside, the mark and the
backslash are preceded by a backslash, line ends and tabs have letters of their
own, and any other character that is not printable is written by its code point
with the shortest of the three widths two, four and eight.
-/

namespace LeastSquares.Text

/-- The lower-case hexadecimal digit of a value below sixteen. -/
def hexDigit (n : Nat) : Char :=
  if n < 10 then Char.ofNat (48 + n) else Char.ofNat (87 + n)

/-- The last `width` hexadecimal digits of `n`. -/
def hexDigits (n : Nat) : Nat → List Char
  | 0 => []
  | width + 1 => hexDigits (n / 16) width ++ [hexDigit (n % 16)]

/-- How `c` is written between two marks `mark`. -/
def escape (mark c : Char) : List Char :=
  if c = mark ∨ c = '\\' then ['\\', c]
  else if c = '\t' then ['\\', 't']
  else if c = '\n' then ['\\', 'n']
  else if c = '\r' then ['\\', 'r']
  else if isPrintable c then [c]
  else if c.toNat < 0x100 then '\\' :: 'x' :: hexDigits c.toNat 2
  else if c.toNat < 0x10000 then '\\' :: 'u' :: hexDigits c.toNat 4
  else '\\' :: 'U' :: hexDigits c.toNat 8

/-- An apostrophe, unless the text holds one and no double quote. -/
def markOf (cs : List Char) : Char :=
  if cs.contains '\'' && !cs.contains '"' then '"' else '\''

/-- The text `s` between its two marks. -/
def quoted (s : String) : String :=
  let mark := markOf s.toList
  String.ofList (mark :: (s.toList.flatMap (escape mark) ++ [mark]))

theorem length_hexDigits (n width : Nat) : (hexDigits n width).length = width := by
  induction width generalizing n with
  | zero => rfl
  | succ width ih => simp [hexDigits, ih]

end LeastSquares.Text

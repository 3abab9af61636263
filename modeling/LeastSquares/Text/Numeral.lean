import LeastSquares.Text.Blank

/-!
# Numerals in texts

A number may be written with spaces around it, with the decimal digits of any
script, and with single underscores between digits.  `numeral?` brings such a text
to its plain form, in ASCII digits and without anything around or between them, and
leaves everything else in it as it is.
-/

namespace LeastSquares.Text

/-- The zeros of all scripts: each is the first of ten decimal digits in a row. -/
def digitZeros : List Nat :=
  [0x30, 0x660, 0x6F0, 0x7C0, 0x966, 0x9E6, 0xA66, 0xAE6, 0xB66, 0xBE6, 0xC66, 0xCE6, 0xD66,
    0xDE6, 0xE50, 0xED0, 0xF20, 0x1040, 0x1090, 0x17E0, 0x1810, 0x1946, 0x19D0, 0x1A80, 0x1A90,
    0x1B50, 0x1BB0, 0x1C40, 0x1C50, 0xA620, 0xA8D0, 0xA900, 0xA9D0, 0xA9F0, 0xAA50, 0xABF0,
    0xFF10, 0x104A0, 0x10D30, 0x11066, 0x110F0, 0x11136, 0x111D0, 0x112F0, 0x11450, 0x114D0,
    0x11650, 0x116C0, 0x11730, 0x118E0, 0x11950, 0x11C50, 0x11D50, 0x11DA0, 0x16A60, 0x16AC0,
    0x16B50, 0x1D7CE, 0x1D7D8, 0x1D7E2, 0x1D7EC, 0x1D7F6, 0x1E140, 0x1E2F0, 0x1E950, 0x1FBF0]

/-- The value of a decimal digit of any script. -/
def digitValue? (c : Char) : Option Nat :=
  (digitZeros.find? fun first => first ≤ c.toNat && c.toNat < first + 10).map fun first =>
    c.toNat - first

/-- A decimal digit of any script as an ASCII digit.  All other characters stay. -/
def plainDigit (c : Char) : Char :=
  match digitValue? c with
  | some n => Char.ofNat (0x30 + n)
  | none => c

/-- The characters without underscores, each of which has to stand between two digits.
The flag says whether the character in front is a digit. -/
def joinDigits? (afterDigit : Bool) : List Char → Option (List Char)
  | [] => some []
  | ['_'] => none
  | '_' :: c :: rest =>
      if afterDigit && c.isDigit then (joinDigits? true rest).map (c :: ·) else none
  | c :: rest => (joinDigits? c.isDigit rest).map (c :: ·)

/-- The plain form of a numeral. -/
def numeral? (s : String) : Option (List Char) :=
  joinDigits? false (trim isSpace (s.toList.map plainDigit))

end LeastSquares.Text

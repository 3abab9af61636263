/-!
# Blank characters

Two classes of characters are skipped around a word.  `isSpace` is the Unicode
property `White_Space`; `isBlank` adds the four information separators
`U+001C` to `U+001F`, which count as blank where the settings of a process are
read but not where a number is read.
-/

namespace LeastSquares.Text

/-- The characters with the Unicode property `White_Space`. -/
def isSpace (c : Char) : Bool :=
  let n := c.toNat
  (9 ≤ n && n ≤ 13) || n == 0x20 || n == 0x85 || n == 0xA0 || n == 0x1680 ||
    (0x2000 ≤ n && n ≤ 0x200A) || n == 0x2028 || n == 0x2029 || n == 0x202F ||
    n == 0x205F || n == 0x3000

/-- A space, or one of the four information separators. -/
def isBlank (c : Char) : Bool :=
  isSpace c || (0x1C ≤ c.toNat && c.toNat ≤ 0x1F)

/-- `cs` without the characters of the class `p` at either end. -/
def trim (p : Char → Bool) (cs : List Char) : List Char :=
  ((cs.dropWhile p).reverse.dropWhile p).reverse

/-- `s` without the blanks at either end. -/
def strip (s : String) : String :=
  String.ofList (trim isBlank s.toList)

end LeastSquares.Text

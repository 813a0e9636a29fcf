/-!
Blank characters of the character set, and texts without the blanks at their ends.
-/

namespace CooperativeLisp.Text

/-- White space of every script. -/
def isBlank (c : Char) : Bool :=
  let n := c.toNat
  (9 ≤ n && n ≤ 13) || n = 0x20 || n = 0x85 || n = 0xA0 || n = 0x1680 ||
    (0x2000 ≤ n && n ≤ 0x200A) || n = 0x2028 || n = 0x2029 || n = 0x202F || n = 0x205F ||
    n = 0x3000

/-- The text without the blanks at its two ends. -/
def trimmed (s : String) : String :=
  let inner := s.toList.dropWhile isBlank
  String.ofList (inner.reverse.dropWhile isBlank).reverse

end CooperativeLisp.Text

/-!
# Blank characters

A character is blank when it has the Unicode property `White_Space`, or is the byte order mark.
-/

namespace BlockMachine.Text

/-- The characters with the property `White_Space`, and `U+FEFF`. -/
def isBlank (c : Char) : Bool :=
  let n := c.toNat
  (0x09 ≤ n && n ≤ 0x0d) || n == 0x20 || n == 0x85 || n == 0xa0 || n == 0x1680
    || (0x2000 ≤ n && n ≤ 0x200a) || n == 0x2028 || n == 0x2029 || n == 0x202f || n == 0x205f
    || n == 0x3000 || n == 0xfeff

/-- The characters without the blanks at both ends. -/
def trim (cs : List Char) : List Char :=
  ((cs.dropWhile isBlank).reverse.dropWhile isBlank).reverse

/-- Whether all characters are blank. -/
def isAllBlank (cs : List Char) : Bool :=
  cs.all isBlank

end BlockMachine.Text

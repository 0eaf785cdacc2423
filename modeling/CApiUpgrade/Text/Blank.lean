/-!
# Blank characters

The characters that separate words: spaces, tabs, line ends and their relatives in Unicode.  A
no-break space (U+00A0) is blank, a zero width space (U+200B) is not.
-/

namespace CApiUpgrade.Text

/-- Whether `c` is a blank character. -/
def isBlank (c : Char) : Bool :=
  let n := c.toNat
  (0x9 ≤ n && n ≤ 0xd) || n == 0x20 || n == 0x85 || n == 0xa0 || n == 0x1680 ||
    (0x2000 ≤ n && n ≤ 0x200a) || n == 0x2028 || n == 0x2029 || n == 0x202f || n == 0x205f ||
    n == 0x3000

end CApiUpgrade.Text

/-!
# Blank texts

A text is blank when every character of it is white space in the sense of Unicode, which is more than
the blanks that `Char.isWhitespace` knows.
-/

namespace BuildDelta.Text

/-- The characters with the property White_Space. -/
def isSpace (c : Char) : Bool :=
  let n := c.toNat
  (0x09 ≤ n && n ≤ 0x0D) || n = 0x20 || n = 0x85 || n = 0xA0 || n = 0x1680 ||
    (0x2000 ≤ n && n ≤ 0x200A) || n = 0x2028 || n = 0x2029 || n = 0x202F || n = 0x205F ||
    n = 0x3000

def isBlank (s : String) : Bool :=
  s.toList.all isSpace

end BuildDelta.Text

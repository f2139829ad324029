/-!
# Blank characters

The blank characters: those with the Unicode property `White_Space`. They separate tokens, and a
text made of nothing else counts as empty.
-/

namespace PoseLang.Text

/-- A character with the property `White_Space`. -/
def isBlank (c : Char) : Bool :=
  let n := c.toNat
  (0x09 ≤ n && n ≤ 0x0D) || n == 0x20 || n == 0x85 || n == 0xA0 || n == 0x1680 ||
    (0x2000 ≤ n && n ≤ 0x200A) || n == 0x2028 || n == 0x2029 || n == 0x202F || n == 0x205F ||
    n == 0x3000

/-- A text with no character but blank ones. -/
def allBlank (s : String) : Bool :=
  s.toList.all isBlank

end PoseLang.Text

/-
Blank characters: the code points with the property White_Space.
-/

namespace EffectTyping.Text

/-- Is the character white space? -/
def isBlank (c : Char) : Bool :=
  let n := c.toNat
  (0x9 ≤ n && n ≤ 0xd) || n == 0x20 || n == 0x85 || n == 0xa0 || n == 0x1680 ||
    (0x2000 ≤ n && n ≤ 0x200a) || n == 0x2028 || n == 0x2029 || n == 0x202f || n == 0x205f || n == 0x3000

/-- The first character of a text that is not blank. -/
def firstVisible? (text : String) : Option Char := (text.toList.dropWhile isBlank).head?

end EffectTyping.Text

/-!
# Blank characters

The characters with the Unicode property `White_Space`, and what is left of a
text when they are taken off its ends.
-/

namespace CallAtlas.Text

def isBlank (c : Char) : Bool :=
  let n := c.toNat
  (0x9 ≤ n && n ≤ 0xD) || n == 0x20 || n == 0x85 || n == 0xA0 || n == 0x1680 ||
    (0x2000 ≤ n && n ≤ 0x200A) || n == 0x2028 || n == 0x2029 || n == 0x202F ||
    n == 0x205F || n == 0x3000

def trimEnd (text : List Char) : List Char :=
  (text.reverse.dropWhile isBlank).reverse

def allBlank (text : List Char) : Bool :=
  text.all isBlank

end CallAtlas.Text

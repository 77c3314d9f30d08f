/-!
# White space

The characters with Unicode's White_Space property, and text with them cut
from both ends.
-/

namespace MarketMinutes

/-- The White_Space characters; U+200B, U+FEFF and U+180E are not among them. -/
def Text.isBlank (c : Char) : Bool :=
  let n := c.toNat
  (0x09 ≤ n && n ≤ 0x0D) || n == 0x20 || n == 0x85 || n == 0xA0 || n == 0x1680 ||
    (0x2000 ≤ n && n ≤ 0x200A) || n == 0x2028 || n == 0x2029 || n == 0x202F ||
    n == 0x205F || n == 0x3000

/-- The text without the blanks at either end. -/
def Text.trim (cs : List Char) : List Char :=
  ((cs.dropWhile isBlank).reverse.dropWhile isBlank).reverse

def Text.allBlank (s : String) : Bool :=
  s.toList.all isBlank

end MarketMinutes

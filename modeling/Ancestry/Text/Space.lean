/-!
White space, and the two operations that remove it at the ends of a text.
-/

namespace Ancestry.Text

/-- White space of every script: the ASCII controls from tab to return, the four separators before
the blank, and the Unicode spaces and line separators. The zero-width characters are none. -/
def isSpace (c : Char) : Bool :=
  let n := c.toNat
  (9 ≤ n && n ≤ 13) || (28 ≤ n && n ≤ 32) || n == 0x85 || n == 0xa0 || n == 0x1680 ||
    (0x2000 ≤ n && n ≤ 0x200a) || n == 0x2028 || n == 0x2029 || n == 0x202f || n == 0x205f ||
    n == 0x3000

def trimLeft (s : List Char) : List Char :=
  s.dropWhile isSpace

def trimRight (s : List Char) : List Char :=
  (s.reverse.dropWhile isSpace).reverse

/-- The text without the white space at both ends. -/
def trim (s : List Char) : List Char :=
  trimRight (trimLeft s)

/-- Whether nothing but white space is left of a text. -/
def isBlank (s : List Char) : Bool :=
  s.all isSpace

end Ancestry.Text

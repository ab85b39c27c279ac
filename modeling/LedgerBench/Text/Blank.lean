/-!
Blank characters and trimming.

A name, a body or a number may be padded with any white space that Unicode knows, so the test is
the property `White_Space` of the standard and not the four characters a format's grammar allows.
-/

namespace LedgerBench.Text

/-- The characters with the Unicode property `White_Space`. -/
def isBlank (c : Char) : Bool :=
  let n := c.toNat
  (9 ≤ n && n ≤ 13) || n == 0x20 || n == 0x85 || n == 0xA0 || n == 0x1680
    || (0x2000 ≤ n && n ≤ 0x200A) || n == 0x2028 || n == 0x2029 || n == 0x202F
    || n == 0x205F || n == 0x3000

def trimStart (s : List Char) : List Char := s.dropWhile isBlank

def trim (s : List Char) : List Char := (trimStart (trimStart s).reverse).reverse

def allBlank (s : List Char) : Bool := s.all isBlank

end LedgerBench.Text

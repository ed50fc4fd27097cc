/-! The characters that count as white space. -/
namespace Treewalk.Text

/-- White space of any script. -/
def isWhite (c : Char) : Bool :=
  let n := c.toNat
  (decide (0x09 ≤ n) && decide (n ≤ 0x0d)) || n == 0x20 || n == 0x85 || n == 0xa0 || n == 0x1680 ||
    (decide (0x2000 ≤ n) && decide (n ≤ 0x200a)) || n == 0x2028 || n == 0x2029 || n == 0x202f ||
    n == 0x205f || n == 0x3000

def dropWhiteEnd (s : List Char) : List Char := (s.reverse.dropWhile isWhite).reverse

end Treewalk.Text

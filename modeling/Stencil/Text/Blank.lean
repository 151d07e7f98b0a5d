/-!
# Blanks

The characters that count as blanks around a number: the Unicode property
`White_Space`, twenty-five code points.

* `isBlank`: membership;
* `trim`: a text without the blanks at its two ends.
-/

namespace Stencil.Text

/-- The runs of blank code points, first and last of each. -/
def blankRanges : List (Nat × Nat) := [
  (0x09, 0x0d), (0x20, 0x20), (0x85, 0x85), (0xa0, 0xa0), (0x1680, 0x1680), (0x2000, 0x200a),
  (0x2028, 0x2029), (0x202f, 0x202f), (0x205f, 0x205f), (0x3000, 0x3000)]

/-- The character is a blank. -/
def isBlank (c : Char) : Bool :=
  blankRanges.any fun (first, last) => first ≤ c.toNat && c.toNat ≤ last

/-- The text without the blanks before its first and after its last other character. -/
def trim (cs : List Char) : List Char :=
  (cs.dropWhile isBlank).reverse.dropWhile isBlank |>.reverse

end Stencil.Text

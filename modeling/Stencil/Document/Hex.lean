/-!
# Code points in hexadecimal

* `codePoint?`: a character written by a fixed number of hexadecimal digits.
-/

namespace Stencil.Document

/-- The value of a hexadecimal digit. -/
def hexDigit? (c : Char) : Option Nat :=
  if c.isDigit then some (c.toNat - '0'.toNat)
  else if 'a' ≤ c ∧ c ≤ 'f' then some (c.toNat - 'a'.toNat + 10)
  else if 'A' ≤ c ∧ c ≤ 'F' then some (c.toNat - 'A'.toNat + 10)
  else none

/-- The number written by the next `count` hexadecimal digits, and the rest. -/
def hexNumber? : (count : Nat) → List Char → Option (Nat × List Char)
  | 0, cs => some (0, cs)
  | count + 1, c :: cs => do
    let d ← hexDigit? c
    let (n, rest) ← hexNumber? count cs
    return (d * Nat.pow 16 count + n, rest)
  | _ + 1, [] => none

/-- A number that is a code point of a character. -/
def charOfCode? (n : Nat) : Option Char :=
  if n.isValidChar then some (Char.ofNat n) else none

/-- The character written by the next `count` hexadecimal digits, and the rest. -/
def codePoint? (count : Nat) (cs : List Char) : Option (Char × List Char) := do
  let (n, rest) ← hexNumber? count cs
  return (← charOfCode? n, rest)

end Stencil.Document

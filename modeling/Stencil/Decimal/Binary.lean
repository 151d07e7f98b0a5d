/-!
# Binary fractions

A double-precision number as an exact value: a sign, a whole mantissa and a
power of two. Text, conversion and rounding are computed from this form.

* `Magnitude.ofFloat`: what a number stands for;
* `Magnitude.floor`, `Magnitude.isWhole`: its whole part, and whether there is no other;
* `ofWhole`: the number nearest to a whole number;
* `toSingle`: the nearest number of single precision.
-/

namespace Stencil.Decimal

/-- What a double-precision number stands for. A finite one has the value
`mantissa * 2 ^ exponent`, negated if `negative`. -/
inductive Magnitude
  | nan
  | infinite (negative : Bool)
  | finite (negative : Bool) (mantissa : Nat) (exponent : Int)
  deriving DecidableEq, Repr

namespace Magnitude

/-- The value of a bit pattern: one sign bit, eleven exponent bits and fifty-two
fraction bits, with a hidden leading bit unless the exponent bits are zero. -/
def ofBits (bits : UInt64) : Magnitude :=
  let n := bits.toNat
  let negative : Bool := Nat.pow 2 63 ≤ n
  let scale : Nat := n / Nat.pow 2 52 % Nat.pow 2 11
  let fraction : Nat := n % Nat.pow 2 52
  if scale = Nat.pow 2 11 - 1 then
    if fraction = 0 then .infinite negative else .nan
  else if scale = 0 then .finite negative fraction (-1074)
  else .finite negative (Nat.pow 2 52 + fraction) ((scale : Int) - 1075)

/-- What a number stands for. -/
def ofFloat (x : Float) : Magnitude := ofBits x.toBits

/-- `mantissa * 2 ^ exponent` without its fraction. -/
def floor (mantissa : Nat) (exponent : Int) : Nat :=
  if 0 ≤ exponent then mantissa * Nat.pow 2 exponent.toNat
  else mantissa / Nat.pow 2 (-exponent).toNat

/-- `mantissa * 2 ^ exponent` has no fraction. -/
def isWhole (mantissa : Nat) (exponent : Int) : Bool :=
  0 ≤ exponent || mantissa % Nat.pow 2 (-exponent).toNat == 0

/-- A whole number with a sign. -/
def signed (negative : Bool) (n : Nat) : Int :=
  if negative then -(n : Int) else n

end Magnitude

/-- The whole number nearest to `num / den`, halves to the even neighbour. -/
def roundHalfEven (num den : Nat) : Nat :=
  let q := num / den
  let r := num % den
  if 2 * r < den || (2 * r == den && q % 2 == 0) then q else q + 1

/-- An infinite number. -/
def infinity (negative : Bool) : Float :=
  if negative then Float.ofBits 0xfff0000000000000 else Float.ofBits 0x7ff0000000000000

/-- The number `mantissa * 2 ^ exponent`, for a mantissa of at most `2 ^ 53` and a
leading bit inside the normal range. -/
def pack (negative : Bool) (mantissa : Nat) (exponent : Int) : Float :=
  let sign := if negative then Nat.pow 2 63 else 0
  if mantissa = 0 then Float.ofBits (UInt64.ofNat sign)
  else
    let lead := Nat.log2 mantissa
    let scale := (exponent + lead + 1023).toNat
    Float.ofBits (UInt64.ofNat
      (sign + scale * Nat.pow 2 52 + (mantissa * Nat.pow 2 52 / Nat.pow 2 lead - Nat.pow 2 52)))

/-- The number nearest to a whole number below `2 ^ 1023`, halves to the even neighbour. -/
def ofWhole (n : Int) : Float :=
  let grid := Nat.log2 n.natAbs - 52
  pack (n < 0) (roundHalfEven n.natAbs (Nat.pow 2 grid)) grid

/-- The nearest number of single precision: twenty-four bits of mantissa, exponents
from -149 on, halves to the even neighbour, and infinity from `2 ^ 128` on. -/
def toSingle (x : Float) : Float :=
  match Magnitude.ofFloat x with
  | .finite negative m e =>
    let grid : Int := max (-149) (e + (Nat.log2 m : Int) - 23)
    let n :=
      if grid ≤ e then m * Nat.pow 2 (e - grid).toNat
      else roundHalfEven m (Nat.pow 2 (grid - e).toNat)
    if Nat.pow 2 128 ≤ Magnitude.floor n grid then infinity negative
    else pack negative n grid
  | _ => x

end Stencil.Decimal

import Stencil.Decimal.Binary

/-!
# Shortest digits

The fewest decimal digits that still read back as a given double-precision
number, and of those the nearest to it. The numbers that read back are the ones
in an interval around the value, its ends included when the mantissa is even.
For one, two, … seventeen digits the two neighbours of the value on the decimal
grid are tested in exact arithmetic; the first grid with a hit is taken.

* `Interval.around`: what reads back as a value;
* `shortest`: the digits and the place of the point.
-/

namespace Stencil.Decimal

/-- A decimal `0.d₁d₂… * 10 ^ point`. -/
structure Digits where
  digits : List Char
  point : Int
  deriving DecidableEq, Repr

/-- A positive value with the interval of the reals that read back as it, all
over one denominator. -/
structure Interval where
  low : Nat
  value : Nat
  high : Nat
  denominator : Nat
  closed : Bool
  deriving DecidableEq, Repr

/-- The interval around `mantissa * 2 ^ exponent`: half a unit to both sides, but
only a quarter below a power of two that is not the smallest normal one. -/
def Interval.around (mantissa : Nat) (exponent : Int) : Interval :=
  let up := Nat.pow 2 exponent.toNat
  let below := if mantissa = Nat.pow 2 52 ∧ -1074 < exponent then 1 else 2
  { low := (4 * mantissa - below) * up
    value := 4 * mantissa * up
    high := (4 * mantissa + 2) * up
    denominator := 4 * Nat.pow 2 (-exponent).toNat
    closed := mantissa % 2 == 0 }

/-- The number of decimal digits of a whole number. -/
def digitCount (n : Nat) : Nat := (Nat.toDigits 10 n).length

/-- The place of the point of a positive fraction: the least `p` with
`num / den < 10 ^ p`. -/
def pointOf (num den : Nat) : Int :=
  if den ≤ num then digitCount (num / den)
  else 1 - (digitCount ((den - 1) / num) : Int)

/-- `d * 10 ^ place` lies in the interval. -/
def Interval.holds (i : Interval) (d : Nat) (place : Int) : Bool :=
  let up := Nat.pow 10 place.toNat
  let down := Nat.pow 10 (-place).toNat
  let x := d * up * i.denominator
  if i.closed then i.low * down ≤ x && x ≤ i.high * down
  else i.low * down < x && x < i.high * down

/-- The multiple of `10 ^ place` in the interval that is nearest to its value, if
there is one. Of two equally near ones `tieUp` picks the larger, and otherwise the
even one. -/
def Interval.nearest? (i : Interval) (tieUp : Bool) (place : Int) : Option Nat :=
  let up := Nat.pow 10 place.toNat
  let down := Nat.pow 10 (-place).toNat
  let num := i.value * down
  let den := i.denominator * up
  let d := num / den
  let r := num % den
  match i.holds d place, i.holds (d + 1) place with
  | true, true =>
    if 2 * r < den then some d
    else if den < 2 * r then some (d + 1)
    else if tieUp || d % 2 == 1 then some (d + 1) else some d
  | true, false => some d
  | false, true => some (d + 1)
  | false, false => none

/-- The digits of `d * 10 ^ place` without zeros at the end. -/
def Digits.ofNat (d : Nat) (place : Int) : Digits :=
  let ds := Nat.toDigits 10 d
  { digits := (ds.reverse.dropWhile (· == '0')).reverse
    point := place + ds.length }

/-- All digits of `mantissa * 2 ^ exponent`. -/
def Digits.exact (mantissa : Nat) (exponent : Int) : Digits :=
  if 0 ≤ exponent then .ofNat (mantissa * Nat.pow 2 exponent.toNat) 0
  else .ofNat (mantissa * Nat.pow 5 (-exponent).toNat) exponent

/-- The fewest digits that read back as `mantissa * 2 ^ exponent`, for a mantissa
that is not zero. Seventeen are always enough. -/
def shortest (tieUp : Bool) (mantissa : Nat) (exponent : Int) : Digits :=
  let i := Interval.around mantissa exponent
  let p := pointOf i.value i.denominator
  let found := (List.range 17).findSome? fun k =>
    let place := p - (k + 1 : Nat)
    (i.nearest? tieUp place).map (Digits.ofNat · place)
  found.getD (.exact mantissa exponent)

end Stencil.Decimal

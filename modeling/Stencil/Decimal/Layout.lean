import Stencil.Decimal.Shortest

/-!
# Layouts of numbers

How a double-precision number is written: which whole numbers show all their
digits, between which magnitudes the point is written in its place, what zeros
and non-finite numbers look like. The digits are the fewest that read back.

* `Layout.write`: the text of a number in a layout;
* `Layout.shown`: the layout of rendered output;
* `Layout.structural`: the layout of outlines;
* `Layout.document`: the layout of JSON documents.
-/

namespace Stencil.Decimal

/-- The decisions of a written form of numbers. -/
structure Layout where
  /-- Whole numbers of at most so many digits show every digit. -/
  exactPlaces : Nat
  /-- Of two equally near digit strings the larger is taken, and otherwise the even one. -/
  tieUp : Bool
  /-- The places of the point that are written out; others have an exponent. -/
  writtenOut : Int → Bool
  /-- Whole numbers that are written out end in `.0`. -/
  pointZero : Bool
  /-- Exponents from zero on have a plus sign. -/
  plusSign : Bool
  zero : String
  negativeZero : String
  nan : String
  infinity : String
  negativeInfinity : String

/-- Digits with the point in its place: zeros fill the gap between digits and point. -/
def Digits.positional (d : Digits) (pointZero : Bool) : String :=
  let n := d.digits.length
  if d.point ≤ 0 then
    "0." ++ String.ofList (List.replicate (-d.point).toNat '0' ++ d.digits)
  else if (n : Int) ≤ d.point then
    String.ofList (d.digits ++ List.replicate (d.point.toNat - n) '0') ++ (if pointZero then ".0" else "")
  else
    String.ofList (d.digits.take d.point.toNat) ++ "." ++ String.ofList (d.digits.drop d.point.toNat)

/-- Digits with one before the point and an exponent. -/
def Digits.scientific (d : Digits) (plusSign : Bool) : String :=
  let fraction := match d.digits.drop 1 with
    | [] => ""
    | rest => "." ++ String.ofList rest
  let sign := if plusSign && 0 < d.point then "+" else ""
  String.ofList (d.digits.take 1) ++ fraction ++ "e" ++ sign ++ toString (d.point - 1)

namespace Layout

/-- The text of a finite magnitude without its sign. -/
def writeFinite (l : Layout) (mantissa : Nat) (exponent : Int) : String :=
  if Magnitude.isWhole mantissa exponent && Magnitude.floor mantissa exponent < Nat.pow 10 l.exactPlaces then
    toString (Magnitude.floor mantissa exponent)
  else
    let d := shortest l.tieUp mantissa exponent
    if l.writtenOut d.point then d.positional l.pointZero else d.scientific l.plusSign

/-- The text of a number. -/
def write (l : Layout) (x : Float) : String :=
  match Magnitude.ofFloat x with
  | .nan => l.nan
  | .infinite false => l.infinity
  | .infinite true => l.negativeInfinity
  | .finite negative 0 _ => if negative then l.negativeZero else l.zero
  | .finite negative m e => (if negative then "-" else "") ++ l.writeFinite m e

/-- Rendered output shows no exponents, no sign on zero, and every digit of a whole
number below `10 ^ 21`. -/
def shown : Layout where
  exactPlaces := 21
  tieUp := true
  writtenOut _ := true
  pointZero := false
  plusSign := false
  zero := "0"
  negativeZero := "0"
  nan := "NaN"
  infinity := "Infinity"
  negativeInfinity := "-Infinity"

/-- Outlines write numbers out from `10 ^ -4` to below `10 ^ 16` and mark whole ones. -/
def structural : Layout where
  exactPlaces := 0
  tieUp := true
  writtenOut p := -3 ≤ p && p ≤ 16
  pointZero := true
  plusSign := false
  zero := "0.0"
  negativeZero := "-0.0"
  nan := "NaN"
  infinity := "inf"
  negativeInfinity := "-inf"

/-- Documents write numbers out from `10 ^ -5` to below `10 ^ 16` and mark whole ones;
what is not finite has no form of its own. -/
def document : Layout where
  exactPlaces := 0
  tieUp := false
  writtenOut p := -4 ≤ p && p ≤ 16
  pointZero := true
  plusSign := true
  zero := "0.0"
  negativeZero := "-0.0"
  nan := "null"
  infinity := "null"
  negativeInfinity := "null"

end Layout

end Stencil.Decimal

import Stencil.Decimal.Binary

/-!
# Numerals

Reading decimal text. A whole-number numeral is an optional plus sign and ASCII
digits. A real numeral is an optional sign and either one of the words `inf`,
`infinity` and `nan` in any case, or digits with an optional point and an optional
exponent, at least one digit standing before the exponent. No blanks and no
separators are allowed inside.

* `natural?`: a whole number;
* `real?`: the nearest double-precision number.
-/

namespace Stencil.Decimal

/-- The number written by a run of ASCII digits. -/
def natOfDigits (cs : List Char) : Nat :=
  cs.foldl (fun n c => 10 * n + (c.toNat - '0'.toNat)) 0

/-- The digits at the start of a text, and the rest. -/
def spanDigits (cs : List Char) : List Char × List Char :=
  (cs.takeWhile Char.isDigit, cs.dropWhile Char.isDigit)

/-- The whole number that a text writes: digits after an optional plus sign. -/
def natural? (cs : List Char) : Option Nat :=
  let ds := match cs with
    | '+' :: rest => rest
    | _ => cs
  if ds.isEmpty || !ds.all Char.isDigit then none else some (natOfDigits ds)

/-- A text is split into its sign and the rest. -/
def splitSign : List Char → Bool × List Char
  | '-' :: rest => (true, rest)
  | '+' :: rest => (false, rest)
  | cs => (false, cs)

/-- The exponent that follows the digits: nothing, or a letter `e`, an optional sign
and digits up to the end. -/
def exponent? : List Char → Option Int
  | [] => some 0
  | c :: rest =>
    if c == 'e' || c == 'E' then
      let (negative, ds) := splitSign rest
      if ds.isEmpty || !ds.all Char.isDigit then none
      else some (Magnitude.signed negative (natOfDigits ds))
    else none

/-- The double-precision number nearest to `mantissa * 10 ^ exponent`. With more than
four hundred digits before the point it is infinite, and with more than four hundred
zeros after the point it is zero. -/
def nearestFloat (negative : Bool) (mantissa : Nat) (exponent : Int) : Float :=
  let size : Int := exponent + (Nat.toDigits 10 mantissa).length
  let x :=
    if mantissa = 0 || size < -400 then Float.ofBits 0
    else if 400 < size then infinity false
    else Float.ofScientific mantissa (exponent < 0) exponent.natAbs
  if negative then -x else x

/-- The words for numbers that are not finite. -/
def word? (cs : List Char) : Option Float :=
  let word := String.ofList (cs.map Char.toLower)
  if word == "inf" || word == "infinity" then some (infinity false)
  else if word == "nan" then some (Float.ofBits 0x7ff8000000000000)
  else none

/-- The number that digits with an optional point and exponent write. -/
def digits? (negative : Bool) (cs : List Char) : Option Float :=
  let (whole, rest) := spanDigits cs
  let (fraction, rest) := match rest with
    | '.' :: rest => spanDigits rest
    | _ => ([], rest)
  if whole.isEmpty && fraction.isEmpty then none
  else (exponent? rest).map fun e =>
    nearestFloat negative (natOfDigits (whole ++ fraction)) (e - fraction.length)

/-- The number that a text writes. -/
def real? (cs : List Char) : Option Float :=
  let (negative, cs) := splitSign cs
  match word? cs with
  | some x => some (if negative then -x else x)
  | none => digits? negative cs

end Stencil.Decimal

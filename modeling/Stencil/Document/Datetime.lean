import Stencil.Decimal.Numeral

/-!
# Dates and times

A date, a time of day, or a date with a time of day and perhaps an offset, in the
form `1979-05-27T07:32:00.5+01:00`. Which hours may be written is up to the reader's
limits; whether a day is one of the calendar is a question of its own.

* `Datetime.read?`: the date or time of a text;
* `Datetime.text`: the form in which it is shown;
* `Datetime.onCalendar`: its day is one of its month.
-/

namespace Stencil

/-- A day, not necessarily one of the calendar. -/
structure Date where
  year : Nat
  month : Nat
  day : Nat
  deriving DecidableEq, Repr

/-- A time of day; seconds may count a leap second. -/
structure DayTime where
  hour : Nat
  minute : Nat
  second : Nat
  nanosecond : Nat
  deriving DecidableEq, Repr

/-- How far a time is ahead of universal time. -/
inductive TimeOffset
  | universal
  | minutes (n : Int)
  deriving DecidableEq, Repr

/-- A date, a time of day, or both. -/
inductive Datetime
  | date (d : Date)
  | time (t : DayTime)
  | both (d : Date) (t : DayTime) (offset : Option TimeOffset)
  deriving DecidableEq, Repr

/-! ## The form in which dates and times are shown -/

/-- A number with zeros in front up to a width. -/
def padded (width n : Nat) : String :=
  let ds := Nat.toDigits 10 n
  String.ofList (List.replicate (width - ds.length) '0' ++ ds)

/-- Year, month and day. -/
def Date.text (d : Date) : String :=
  padded 4 d.year ++ "-" ++ padded 2 d.month ++ "-" ++ padded 2 d.day

/-- A fraction of a second without the zeros at its end; nothing for none. -/
def fractionText (nanosecond : Nat) : String :=
  if nanosecond = 0 then ""
  else "." ++ String.ofList ((padded 9 nanosecond).toList.reverse.dropWhile (· == '0')).reverse

/-- Hour, minute and second. -/
def DayTime.text (t : DayTime) : String :=
  padded 2 t.hour ++ ":" ++ padded 2 t.minute ++ ":" ++ padded 2 t.second ++ fractionText t.nanosecond

/-- A sign, hours and minutes; no offset at all has a plus sign. -/
def TimeOffset.text : TimeOffset → String
  | universal => "Z"
  | minutes n =>
    (if n < 0 then "-" else "+") ++ padded 2 (n.natAbs / 60) ++ ":" ++ padded 2 (n.natAbs % 60)

/-- The form in which a date or time is shown. -/
def Datetime.text : Datetime → String
  | date d => d.text
  | time t => t.text
  | both d t offset => d.text ++ "T" ++ t.text ++ (offset.map TimeOffset.text).getD ""

/-! ## The calendar -/

/-- A year divisible by four has a leap day, but of the full hundreds only every
fourth. -/
def isLeapYear (year : Nat) : Bool := year % 4 == 0 && (year % 100 != 0 || year % 400 == 0)

/-- How many days a month has. -/
def daysOfMonth (year month : Nat) : Nat :=
  if month = 2 then if isLeapYear year then 29 else 28
  else if month = 4 ∨ month = 6 ∨ month = 9 ∨ month = 11 then 30
  else 31

/-- The day is one of its month. -/
def Date.onCalendar (d : Date) : Bool := d.day ≤ daysOfMonth d.year d.month

/-- A date, if there is one, is one of the calendar. -/
def Datetime.onCalendar : Datetime → Bool
  | date d | both d _ _ => d.onCalendar
  | time _ => true

/-! ## Reading -/

namespace Datetime

/-- The greatest hour of a day, and the greatest hours and minutes of an offset, that
may be written. -/
structure Limits where
  hour : Nat
  offsetHour : Nat
  offsetMinute : Nat

/-- What may be written of a clock. -/
def Limits.clock : Limits := ⟨23, 23, 59⟩

/-- What may be written where the end of a day is a time, too, and minutes may count
further than an hour. -/
def Limits.wide : Limits := ⟨24, 24, 99⟩

/-- A number of exactly so many digits, no greater than a limit. -/
def field? (digits limit : Nat) (cs : List Char) : Option (Nat × List Char) :=
  let ds := cs.take digits
  if ds.length = digits ∧ ds.all Char.isDigit ∧ Decimal.natOfDigits ds ≤ limit then
    some (Decimal.natOfDigits ds, cs.drop digits)
  else none

/-- A date at the start of a text. -/
def date? (cs : List Char) : Option (Date × List Char) := do
  let (year, rest) ← field? 4 9999 cs
  let '-' :: rest := rest | failure
  let (month, rest) ← field? 2 12 rest
  let '-' :: rest := rest | failure
  let (day, rest) ← field? 2 31 rest
  if month = 0 ∨ day = 0 then failure
  return (⟨year, month, day⟩, rest)

/-- A fraction of a second at the start of a text, cut off after nine places. -/
def fraction? (cs : List Char) : Option (Nat × List Char) :=
  match cs with
  | '.' :: rest =>
    let (ds, rest) := Decimal.spanDigits rest
    let kept := ds.take 9
    if ds.isEmpty then none else some (Decimal.natOfDigits kept * Nat.pow 10 (9 - kept.length), rest)
  | _ => some (0, cs)

/-- A time of day at the start of a text. -/
def time? (limits : Limits) (cs : List Char) : Option (DayTime × List Char) := do
  let (hour, rest) ← field? 2 limits.hour cs
  let ':' :: rest := rest | failure
  let (minute, rest) ← field? 2 59 rest
  let ':' :: rest := rest | failure
  let (second, rest) ← field? 2 60 rest
  let (nanosecond, rest) ← fraction? rest
  return (⟨hour, minute, second, nanosecond⟩, rest)

/-- The offset of a time, up to the end; it is a day at most. -/
def offset? (limits : Limits) (cs : List Char) : Option (Option TimeOffset) := do
  match cs with
  | [] => return none
  | ['Z'] | ['z'] => return some .universal
  | sign :: rest =>
    if sign != '+' && sign != '-' then failure
    let (hour, rest) ← field? 2 limits.offsetHour rest
    let ':' :: rest := rest | failure
    let (minute, rest) ← field? 2 limits.offsetMinute rest
    let total := hour * 60 + minute
    if rest.isEmpty && total ≤ 24 * 60 then
      return some (.minutes (Decimal.Magnitude.signed (sign == '-') total))
    else failure

/-- The date, the time, or the date and time of a text. -/
def read? (limits : Limits) (cs : List Char) : Option Datetime := do
  match date? cs with
  | some (d, []) => return .date d
  | some (d, c :: rest) =>
    if c != 'T' && c != 't' && c != ' ' then failure
    let (t, rest) ← time? limits rest
    return .both d t (← offset? limits rest)
  | none =>
    let (t, rest) ← time? limits cs
    if rest.isEmpty then return .time t else failure

end Datetime

end Stencil

import Stencil.Entries
import Stencil.Error
import Stencil.IntType
import Stencil.Decimal.Layout

/-!
# Values

The values that templates work on. Numbers are held as unsigned or signed
64-bit integers or in double precision; a callable is known by its name; an
invalid value stands for host data that could not be taken in.

* `Value.kind`, `Value.isTrue`, `Value.length?`: what can be asked of a value;
* `Value.number?`: the one view in which numbers of all three forms compare;
* `Value.validate`: an invalid value is an error where it is used.
-/

namespace Stencil

open Decimal (ofWhole)

/-- A value of the template language. -/
inductive Value
  | undefined
  | none
  | bool (b : Bool)
  | unsigned (n : UInt64)
  | signed (n : Int64)
  | float (x : Float)
  | string (s : String)
  | seq (items : List Value)
  | map (entries : List (String × Value))
  | callable (name : String)
  | invalid (message : String)

/-- The kinds of values. -/
inductive Kind
  | undefined | none | bool | number | string | sequence | map | callable | invalid
  deriving DecidableEq, Repr

/-- The words for a kind in messages. -/
def Kind.description : Kind → String
  | undefined => "undefined"
  | none => "none"
  | bool => "bool"
  | number => "number"
  | string => "string"
  | sequence => "sequence"
  | map => "map"
  | callable => "callable"
  | invalid => "invalid value"

namespace Value

instance : Inhabited Value := ⟨.undefined⟩

/-- The kind of a value. -/
def kind : Value → Kind
  | undefined => .undefined
  | none => .none
  | bool _ => .bool
  | unsigned _ | signed _ | float _ => .number
  | string _ => .string
  | seq _ => .sequence
  | map _ => .map
  | callable _ => .callable
  | invalid _ => .invalid

/-- Undefined, none, false, zero, not-a-number, the empty text and invalid values
are false; sequences, maps and callables are true, empty or not. -/
def isTrue : Value → Bool
  | undefined | none | invalid _ => false
  | bool b => b
  | unsigned n => n != 0
  | signed n => n != 0
  | float x => x != 0 && !x.isNaN
  | string s => !s.isEmpty
  | seq _ | map _ | callable _ => true

/-- The value is undefined. -/
def isUndefined : Value → Bool
  | undefined => true
  | _ => false

/-- The value is none. -/
def isNone : Value → Bool
  | none => true
  | _ => false

/-- The value can be called. -/
def isCallable : Value → Bool
  | callable _ => true
  | _ => false

/-- The text of a string value. -/
def text? : Value → Option String
  | string s => some s
  | _ => .none

/-- The items of a sequence. -/
def items? : Value → Option (List Value)
  | seq items => some items
  | _ => .none

/-- The entries of a map. -/
def entries? : Value → Option (Entries Value)
  | map entries => some entries
  | _ => .none

/-- The whole number that an integer value holds. -/
def integer? : Value → Option Int
  | unsigned n => some n.toNat
  | signed n => some n.toInt
  | _ => .none

/-- A number in double precision; integers go to the nearest one. -/
def number? : Value → Option Float
  | unsigned n => some (ofWhole n.toNat)
  | signed n => some (ofWhole n.toInt)
  | float x => some x
  | _ => .none

/-- The length of a text in characters, of a sequence in items, of a map in entries. -/
def length? : Value → Option Nat
  | string s => some s.length
  | seq items => some items.length
  | map entries => some entries.length
  | _ => .none

/-- A value that is not invalid, and the error that an invalid one stands for. -/
def validate : Value → Except Error Value
  | invalid message => .error (.conversion message)
  | v => .ok v

/-! ## Values of host data -/

/-- A count as a value. -/
def ofNat (n : Nat) : Value := unsigned (UInt64.ofNat n)

/-- The value of a number of an integer type. Numbers of the widest types that do not
fit into 64 bits go to the nearest number in double precision. -/
def ofInt (t : IntType) (n : Int) : Value :=
  if t.isSigned then
    if IntType.i64.holds n then signed (Int64.ofInt n) else float (ofWhole n)
  else
    if IntType.u64.holds n then unsigned (UInt64.ofNat n.toNat) else float (ofWhole n)

/-- A character is a text of length one. -/
def ofChar (c : Char) : Value := string c.toString

/-- An absent value is none. -/
def ofOption : Option Value → Value
  | some v => v
  | .none => none

/-- The map that a list of pairs makes. -/
def ofPairs (pairs : List (String × Value)) : Value := map (Entries.ofList pairs)

/-! ## Conversion to integers -/

/-- A number in double precision cut to a whole number and kept within 64 bits;
not-a-number goes to zero. -/
def saturate (x : Float) : Int :=
  match Decimal.Magnitude.ofFloat x with
  | .nan => 0
  | .infinite negative => if negative then IntType.i64.least else IntType.i64.greatest
  | .finite negative m e => IntType.i64.clamp (Decimal.Magnitude.signed negative (Decimal.Magnitude.floor m e))

/-- The number that a value gives for an integer type: a bool is 0 or 1, and a number
in double precision counts if cutting it to 64 bits does not change it. The number has
to be in the range of the type. -/
def toInt? (t : IntType) (v : Value) : Option Int :=
  let n? : Option Int := match v with
    | bool b => some b.toNat
    | unsigned n => some n.toNat
    | signed n => some n.toInt
    | float x => if ofWhole (saturate x) == x then some (saturate x) else .none
    | _ => .none
  n?.filter t.holds

end Value

end Stencil

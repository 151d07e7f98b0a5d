/-!
# Integer types

The fixed-width integer types that host data and host functions use, as ranges
of whole numbers.

* `IntType.holds`: a whole number is in the range of a type.
-/

namespace Stencil

/-- An integer type; `usize` has the width of an index, sixty-four bits. -/
inductive IntType
  | u8 | u16 | u32 | u64 | usize | u128
  | i8 | i16 | i32 | i64 | i128
  deriving DecidableEq, Repr

namespace IntType

/-- The name of a type in messages. -/
def name : IntType → String
  | u8 => "u8"
  | u16 => "u16"
  | u32 => "u32"
  | u64 => "u64"
  | usize => "usize"
  | u128 => "u128"
  | i8 => "i8"
  | i16 => "i16"
  | i32 => "i32"
  | i64 => "i64"
  | i128 => "i128"

/-- The type has negative numbers. -/
def isSigned : IntType → Bool
  | i8 | i16 | i32 | i64 | i128 => true
  | _ => false

/-- The number of bits of a type. -/
def bits : IntType → Nat
  | u8 | i8 => 8
  | u16 | i16 => 16
  | u32 | i32 => 32
  | u64 | usize | i64 => 64
  | u128 | i128 => 128

/-- The least number of a type. -/
def least (t : IntType) : Int := if t.isSigned then -(Nat.pow 2 (t.bits - 1) : Int) else 0

/-- The greatest number of a type. -/
def greatest (t : IntType) : Int :=
  (Nat.pow 2 (if t.isSigned then t.bits - 1 else t.bits) : Int) - 1

/-- A whole number is in the range of a type. -/
def holds (t : IntType) (n : Int) : Bool := t.least ≤ n && n ≤ t.greatest

/-- The number of a range that is nearest to a whole number. -/
def clamp (t : IntType) (n : Int) : Int := max t.least (min t.greatest n)

end IntType

end Stencil

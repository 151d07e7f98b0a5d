import Stencil.Value.Basic

/-!
# Host data

Structured data as a host program describes it to whatever takes it in: scalars,
options, sequences, maps, and the structures and variants of named types. A part
may fail to describe itself, may be a value already, and may ask whether values
are being made.

* `Datum`: the shapes of host data.
-/

namespace Stencil

/-- Host data. Variants carry the name of their type, their index and their own name;
sequences and maps may announce their size. -/
inductive Datum
  | bool (b : Bool)
  | int (type : IntType) (n : Int)
  /-- A number of single precision; the nearest one is meant. -/
  | single (x : Float)
  | double (x : Float)
  | char (c : Char)
  | string (s : String)
  | bytes (bs : List UInt8)
  | none
  | some (d : Datum)
  | unit
  | unitStruct (name : String)
  | unitVariant (name : String) (index : UInt32) (variant : String)
  | newtypeStruct (name : String) (d : Datum)
  | newtypeVariant (name : String) (index : UInt32) (variant : String) (d : Datum)
  | seq (size : Option Nat) (items : List Datum)
  | tuple (items : List Datum)
  | tupleStruct (name : String) (items : List Datum)
  | tupleVariant (name : String) (index : UInt32) (variant : String) (items : List Datum)
  | map (size : Option Nat) (entries : List (Datum × Datum))
  | struct (name : String) (fields : List (String × Datum))
  | structVariant (name : String) (index : UInt32) (variant : String) (fields : List (String × Datum))
  /-- A part that fails to describe itself. -/
  | failing (message : String)
  /-- A part that is a value. -/
  | value (v : Value)
  /-- A part that tells whether values are being made. -/
  | flag
  /-- A part that makes a value of its own out of other data and hands that over. -/
  | converted (d : Datum)

instance : Inhabited Datum := ⟨.unit⟩

end Stencil

import Stencil.Document.Basic
import Stencil.Decimal.Numeral

/-!
# YAML documents

A document is a tree of scalars, sequences and mappings, whose keys may be any
node; a node may have a tag of its own. A plain scalar is read as null, a bool or a
number where it has the form of one, and as a text otherwise.

* `Yaml.resolve?`: what a plain scalar stands for;
* `Yaml.toDatum`: a document as host data.
-/

namespace Stencil

/-- A YAML node. -/
inductive Yaml
  | scalar (j : Json)
  | sequence (items : List Yaml)
  | mapping (entries : List (Yaml × Yaml))
  | tagged (tag : String) (content : Yaml)

namespace Yaml

instance : Inhabited Yaml := ⟨.scalar .null⟩

/-- Two scalars are the same key. -/
def sameScalar : Json → Json → Bool
  | .null, .null => true
  | .bool a, .bool b => a == b
  | .unsigned a, .unsigned b => a == b
  | .negative a, .negative b => a == b
  | .float a, .float b => a == b || (a.isNaN && b.isNaN)
  | .string a, .string b => a == b
  | _, _ => false

mutual

/-- Two nodes are the same key. -/
def same : Yaml → Yaml → Bool
  | scalar a, scalar b => sameScalar a b
  | sequence as, sequence bs => sameAll as bs
  | mapping as, mapping bs => as.length == bs.length && sameEntries as bs
  | tagged s a, tagged t b => s == t && a.same b
  | _, _ => false

/-- Two sequences are the same. -/
def sameAll : List Yaml → List Yaml → Bool
  | [], [] => true
  | a :: as, b :: bs => a.same b && sameAll as bs
  | _, _ => false

/-- The entries of a mapping are among those of another. -/
def sameEntries : List (Yaml × Yaml) → List (Yaml × Yaml) → Bool
  | [], _ => true
  | (k, a) :: as, bs => bs.any (fun (l, b) => k.same l && a.same b) && sameEntries as bs

end

/-! ## Plain scalars -/

/-- The digits of a whole number in the base that its mark names. -/
def inBase? (cs : List Char) : Option Nat :=
  let digits (base : Nat) (ds : List Char) : Option Nat :=
    let value (c : Char) : Nat :=
      if c.isDigit then c.toNat - '0'.toNat
      else if 'a' ≤ c ∧ c ≤ 'f' then c.toNat - 'a'.toNat + 10
      else if 'A' ≤ c ∧ c ≤ 'F' then c.toNat - 'A'.toNat + 10
      else 16
    if ds.isEmpty || ds.any (fun c => base ≤ value c) then none
    else some (ds.foldl (fun n c => base * n + value c) 0)
  match cs with
  | '0' :: 'x' :: ds => digits 16 ds
  | '0' :: 'o' :: ds => digits 8 ds
  | '0' :: 'b' :: ds => digits 2 ds
  | _ => if 1 < cs.length && cs.head? == some '0' then none else digits 10 cs

/-- The whole number that a scalar writes. -/
def integer? (cs : List Char) : Option Int :=
  match cs with
  | '-' :: rest => (inBase? rest).map fun n => -(n : Int)
  | '+' :: rest => (inBase? rest).map Int.ofNat
  | _ => (inBase? cs).map Int.ofNat

/-- A whole number as a scalar: 64 bits are a number, between 64 and 128 bits it has no
form, and beyond that it is no whole number any more. -/
def integerScalar? (n : Int) : Option (Option Json) :=
  if IntType.u64.holds n then some (some (.unsigned (UInt64.ofNat n.toNat)))
  else if IntType.i64.holds n then some (some (.negative (Int64.ofInt n)))
  else if IntType.u128.holds n || IntType.i128.holds n then some none
  else none

/-- The scalar is a run of digits with a zero in front, which is no number. -/
def isPadded (cs : List Char) : Bool :=
  match (Decimal.splitSign cs).2 with
  | '0' :: c :: rest => (c :: rest).all Char.isDigit
  | _ => false

/-- The number with a point, an exponent or no end that a scalar writes. -/
def float? (cs : List Char) : Option Float :=
  let unsigned := match cs with
    | '+' :: rest => rest
    | _ => cs
  let isWord (cs : List Char) (word : String) : Bool := cs == word.toList
  if cs.head? == some '+' && (unsigned.head? == some '+' || unsigned.head? == some '-') then none
  else if [".inf", ".Inf", ".INF"].any (isWord unsigned) then some (Decimal.infinity false)
  else if ["-.inf", "-.Inf", "-.INF"].any (isWord cs) then some (Decimal.infinity true)
  else if [".nan", ".NaN", ".NAN"].any (isWord cs) then some (Float.ofBits 0x7ff8000000000000)
  else (Decimal.real? unsigned).filter Float.isFinite

/-- The words for null. -/
def isNull (text : String) : Bool := ["~", "null", "Null", "NULL"].contains text

/-- The words for the bools. -/
def bool? (text : String) : Option Bool :=
  if ["true", "True", "TRUE"].contains text then some true
  else if ["false", "False", "FALSE"].contains text then some false
  else none

/-- What a plain scalar stands for; none for a whole number that is too wide. -/
def resolve? (cs : List Char) : Option Json :=
  let text := String.ofList cs
  if text == "" || isNull text then some .null
  else
    match bool? text with
    | some b => some (.bool b)
    | none =>
      match (integer? cs).bind integerScalar? with
      | some j => j
      | none =>
        if isPadded cs then some (.string text)
        else
          match float? cs with
          | some x => some (.float x)
          | none => some (.string text)

/-! ## Host data -/

mutual

/-- A document as host data. A node with a tag is a map of one entry under the tag. -/
def toDatum : Yaml → Datum
  | scalar j => j.toDatum
  | sequence items => .seq (some items.length) (toData items)
  | mapping entries => .map (some entries.length) (toEntries entries)
  | tagged tag content => .map (some 1) [(.string ("!" ++ tag), content.toDatum)]

/-- Items as host data. -/
def toData : List Yaml → List Datum
  | [] => []
  | y :: rest => y.toDatum :: toData rest

/-- Entries as host data. -/
def toEntries : List (Yaml × Yaml) → List (Datum × Datum)
  | [] => []
  | (key, y) :: rest => (key.toDatum, y.toDatum) :: toEntries rest

end

end Yaml

end Stencil

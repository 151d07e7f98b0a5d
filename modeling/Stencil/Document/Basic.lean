import Stencil.Data.Convert

/-!
# Documents

The data that JSON, YAML and TOML documents hold. JSON documents are trees of
null, bools, numbers, texts, arrays and objects; the other two are read into the
same shapes where they fit, and straight into host data where they do not.

* `Json.toDatum`: a document as host data;
* `Json.ofValue`: a value as a document. What has no form of its own there is
  null, and a callable is its text;
* `Json.sorted`: a document with the keys of its objects in order.
-/

namespace Stencil

/-- A JSON document. Whole numbers from zero on are unsigned. -/
inductive Json
  | null
  | bool (b : Bool)
  | unsigned (n : UInt64)
  | negative (n : Int64)
  | float (x : Float)
  | string (s : String)
  | array (items : List Json)
  | object (entries : List (String × Json))

namespace Json

instance : Inhabited Json := ⟨.null⟩

/-- A whole number of sixty-four bits. -/
def ofInt64 (n : Int64) : Json :=
  if n < 0 then .negative n else .unsigned n.toUInt64

/-- A number in double precision; only finite ones are numbers of a document. -/
def ofFloat (x : Float) : Json :=
  if x.isFinite then .float x else .null

mutual

/-- A document as host data. -/
def toDatum : Json → Datum
  | null => .unit
  | bool b => .bool b
  | unsigned n => .int .u64 n.toNat
  | negative n => .int .i64 n.toInt
  | float x => .double x
  | string s => .string s
  | array items => .seq (some items.length) (toData items)
  | object entries => .map (some entries.length) (toEntries entries)

/-- Items as host data. -/
def toData : List Json → List Datum
  | [] => []
  | j :: rest => j.toDatum :: toData rest

/-- Entries as host data. -/
def toEntries : List (String × Json) → List (Datum × Datum)
  | [] => []
  | (key, j) :: rest => (.string key, j.toDatum) :: toEntries rest

end

mutual

/-- A value as a document. -/
def ofValue : Value → Json
  | .undefined | .none | .invalid _ => null
  | .bool b => bool b
  | .unsigned n => unsigned n
  | .signed n => ofInt64 n
  | .float x => ofFloat x
  | .string s => string s
  | .seq items => array (ofValues items)
  | .map entries => object (ofEntries entries)
  | .callable name => string (Value.callable name).display

/-- Items as a document. -/
def ofValues : List Value → List Json
  | [] => []
  | v :: rest => ofValue v :: ofValues rest

/-- Entries as a document. -/
def ofEntries : List (String × Value) → List (String × Json)
  | [] => []
  | (key, v) :: rest => (key, ofValue v) :: ofEntries rest

end

/-- Entries with distinct keys, in the order of their keys. -/
def sortEntries {α : Type} (entries : Entries α) : Entries α :=
  entries.mergeSort fun a b => a.1 ≤ b.1

mutual

/-- A document with the keys of every object in order; of several entries under one key
the last counts. -/
def sorted : Json → Json
  | array items => array (sortedItems items)
  | object entries => object (sortEntries (Entries.ofList (sortedEntries entries)))
  | j => j

/-- Items with the keys of every object in order. -/
def sortedItems : List Json → List Json
  | [] => []
  | j :: rest => j.sorted :: sortedItems rest

/-- Entries whose documents have the keys of every object in order. -/
def sortedEntries : List (String × Json) → List (String × Json)
  | [] => []
  | (key, j) :: rest => (key, j.sorted) :: sortedEntries rest

end

end Json

end Stencil

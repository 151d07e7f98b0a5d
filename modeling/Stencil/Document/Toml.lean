import Stencil.Document.Basic
import Stencil.Document.Datetime

/-!
# TOML documents

A document is a table of tables. Each table remembers how it came about, since a
header may define a table only once: by a header of its own, as a step on the
way to another header, by a dotted key, or written out between braces.

* `Toml.Table.define?`, `Toml.Table.append?`, `Toml.Table.assign?`,
  `Toml.Table.fill?`: what headers and keys do to a document, none if they clash
  with what is there;
* `Toml.settle?`: a document with its dates checked and its marked tables read;
* `Toml.toDatum`, `Toml.toJson`: a document as host data and as a JSON document,
  the keys of its tables in order.
-/

namespace Stencil

/-- How a table came about. -/
inductive TableOrigin
  /-- By a header of its own. -/
  | header
  /-- On the way to another header. -/
  | passing
  /-- By a dotted key. -/
  | dotted
  /-- Written out between braces. -/
  | closed
  deriving DecidableEq, Repr

/-- A TOML value; `tables` is an array that grows by headers. -/
inductive Toml
  | string (s : String)
  | integer (n : Int64)
  | float (x : Float)
  | bool (b : Bool)
  | datetime (d : Datetime)
  | array (items : List Toml)
  | table (origin : TableOrigin) (entries : List (String × Toml))
  | tables (items : List Toml)

namespace Toml

instance : Inhabited Toml := ⟨.table .header []⟩

/-- The entries of a table. -/
abbrev Table := Entries Toml

namespace Table

/-- Goes down the path of a header and changes the entries at its end. Missing tables
are made on the way, and of an array the last table is meant. -/
def descend? (path : List String) (change : Table → Option Table) (t : Table) : Option Table :=
  match path with
  | [] => change t
  | name :: rest =>
    match t.get? name with
    | none => do return t.insert name (.table .passing (← descend? rest change []))
    | some (.table .closed _) => none
    | some (.table origin entries) => do
      return t.insert name (.table origin (← descend? rest change entries))
    | some (.tables items) =>
      match items.getLast? with
      | some (.table origin entries) => do
        return t.insert name (.tables (items.dropLast ++ [.table origin (← descend? rest change entries)]))
      | _ => none
    | some _ => none

/-- A header for a table: the table is made, or one that was only passed is defined and
moves behind the others. -/
def define? (path : List String) (t : Table) : Option Table :=
  match path.getLast? with
  | none => none
  | some name => descend? path.dropLast
      (fun t =>
        match t.get? name with
        | none => some (t.insert name (.table .header []))
        | some (.table .passing entries) => some ((t.erase name).insert name (.table .header entries))
        | some _ => none) t

/-- A header for one more table of an array. -/
def append? (path : List String) (t : Table) : Option Table :=
  match path.getLast? with
  | none => none
  | some name => descend? path.dropLast
      (fun t =>
        match t.get? name with
        | none => some (t.insert name (.tables [.table .header []]))
        | some (.tables items) => some (t.insert name (.tables (items ++ [.table .header []])))
        | some _ => none) t

/-- A new entry. -/
def add? (name : String) (v : Toml) (t : Table) : Option Table :=
  match t.get? name with
  | none => some (t.insert name v)
  | some _ => none

/-- A key with a value below a header. A dotted key makes the tables on its way; it may
pass tables without a header of their own and the last table of an array, but its value
goes into a table made by dotted keys. -/
def assign? (path : List String) (v : Toml) (t : Table) : Option Table :=
  match path with
  | [] => none
  | [name] => t.add? name v
  | name :: rest =>
    match t.get? name with
    | none => do return t.insert name (.table .dotted (← assign? rest v []))
    | some (.table .dotted entries) => do
      return t.insert name (.table .dotted (← assign? rest v entries))
    | some (.table .passing entries) => do
      if rest.length = 1 then failure
      return t.insert name (.table .passing (← assign? rest v entries))
    | some (.tables items) =>
      match items.getLast? with
      | some (.table origin entries) => do
        if rest.length = 1 then failure
        return t.insert name (.tables (items.dropLast ++ [.table origin (← assign? rest v entries)]))
      | _ => none
    | some _ => none

/-- A key with a value between braces. A dotted key makes the tables on its way and may
extend any table there. -/
def fill? (path : List String) (v : Toml) (t : Table) : Option Table :=
  match path with
  | [] => none
  | [name] => t.add? name v
  | name :: rest =>
    match t.get? name with
    | none => do return t.insert name (.table .closed (← fill? rest v []))
    | some (.table origin entries) => do
      return t.insert name (.table origin (← fill? rest v entries))
    | some _ => none

end Table

/-- The key under which a date or time stands when it is seen as a table. -/
def datetimeKey : String := "$__toml_private_datetime"

mutual

/-- A document as JSON, before its keys are put in order. -/
def toUnsortedJson : Toml → Json
  | string s => .string s
  | integer n => .ofInt64 n
  | float x => .ofFloat x
  | bool b => .bool b
  | datetime d => .object [(datetimeKey, .string d.text)]
  | array items | tables items => .array (toUnsortedItems items)
  | table _ entries => .object (toUnsortedEntries entries)

/-- Items as JSON. -/
def toUnsortedItems : List Toml → List Json
  | [] => []
  | t :: rest => t.toUnsortedJson :: toUnsortedItems rest

/-- Entries as JSON. -/
def toUnsortedEntries : List (String × Toml) → List (String × Json)
  | [] => []
  | (key, t) :: rest => (key, t.toUnsortedJson) :: toUnsortedEntries rest

end

/-- A document as JSON; only finite numbers are kept. -/
def toJson (t : Toml) : Json := t.toUnsortedJson.sorted

/-! ## Data -/

mutual

/-- A document with its dates checked against the calendar. A table whose first key is
`datetimeKey` stands for the date or time that is written there. -/
def settle? : Toml → Option Toml
  | datetime d => if d.onCalendar then some (.datetime d) else none
  | array items => (settleItems? items).map array
  | tables items => (settleItems? items).map tables
  | table origin entries =>
    match entries with
    | [] => some (.table origin [])
    | (key, t) :: rest =>
      if key = datetimeKey then
        match t with
        | string s =>
          ((Datetime.read? .wide s.toList).filter Datetime.onCalendar).map datetime
        | _ => none
      else do
        let t ← t.settle?
        return .table origin ((key, t) :: (← settleEntries? rest))
  | t => some t

/-- Items with their dates checked. -/
def settleItems? : List Toml → Option (List Toml)
  | [] => some []
  | t :: rest => do
    let t ← t.settle?
    return t :: (← settleItems? rest)

/-- Entries with their dates checked. -/
def settleEntries? : List (String × Toml) → Option (List (String × Toml))
  | [] => some []
  | (key, t) :: rest => do
    let t ← t.settle?
    return (key, t) :: (← settleEntries? rest)

end

/-- The value is a table. -/
def isTable : Toml → Bool
  | table _ _ => true
  | _ => false

/-- The place of an entry among the entries of a table: tables come last, and arrays with
tables in them before these. -/
def rank : Toml → Nat
  | table _ _ => 2
  | array items | tables items => if items.any isTable then 1 else 0
  | _ => 0

/-- Ranked entries, sorted by rank and within a rank by key. -/
def sortRanked {α : Type} (entries : List (Nat × String × α)) : List (Nat × String × α) :=
  entries.mergeSort fun a b => a.1 < b.1 || (a.1 == b.1 && a.2.1 ≤ b.2.1)

mutual

/-- A document as host data, the entries of its tables sorted by rank and key. -/
def toDatum : Toml → Datum
  | string s => .string s
  | integer n => .int .i64 n.toInt
  | float x => .double x
  | bool b => .bool b
  | datetime d => .struct "Datetime" [(datetimeKey, .string d.text)]
  | array items | tables items => .seq (some items.length) (toData items)
  | table _ entries => .map (some entries.length) <|
    (sortRanked (toRanked entries)).map fun (_, key, d) => (.string key, d)

/-- Items as host data. -/
def toData : List Toml → List Datum
  | [] => []
  | t :: rest => t.toDatum :: toData rest

/-- Entries as host data, each with the rank of its value. -/
def toRanked : List (String × Toml) → List (Nat × String × Datum)
  | [] => []
  | (key, t) :: rest => (t.rank, key, t.toDatum) :: toRanked rest

end

end Toml

end Stencil

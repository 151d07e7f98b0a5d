import Stencil.Data.Datum
import Stencil.Value.Display

/-!
# Values from host data

Host data is taken in part by part. A value inside the data is carried over
unchanged: it leaves itself in a registry under a fresh handle, announces the
handle in the place of a variant, and is fetched by whoever reads that variant.
The registry also notes whether values are being made at all.

* `Value.ofDatum`: the value of host data. It never fails: data that cannot
  describe itself becomes an invalid value in its place;
* `Registry`: the state behind a conversion, the same afterwards as before
  but for the last handle.
-/

namespace Stencil

/-- The name that marks a variant as the handle of a value. -/
def handleMark : String := "\x01__tmplfmt_ValueHandle"

/-- The state behind conversions: whether one is running, the last handle that was
given out, and the values that wait under their handles. -/
structure Registry where
  active : Bool := false
  last : UInt32 := 0
  waiting : List (UInt32 × Value) := []

/-- A computation on the registry. -/
abbrev Conversion (α : Type) := StateM Registry α

/-- A part of the data that was taken in, or the message of its failure. -/
abbrev Taken := Except String Value

/-- The value of a part, invalid if the part failed. -/
def Taken.toValue : Taken → Value
  | .ok v => v
  | .error message => .invalid message

/-- The text under which a key is stored; keys that are no text, bool or number have none. -/
def Value.keyText? (v : Value) : Option String :=
  match v with
  | .string s => some s
  | .bool _ | .unsigned _ | .signed _ | .float _ => some v.display
  | _ => Option.none

mutual

/-- What is left of a value that describes itself as plain data: a callable is its text, and nothing
is undefined or invalid. -/
def Value.plain : Value → Value
  | .undefined | .none | .invalid _ => .none
  | .callable name => .string (Value.callable name).display
  | .seq items => .seq (Value.plainItems items)
  | .map entries => .map (Value.plainEntries entries)
  | v => v

/-- The items of a list as plain data. -/
def Value.plainItems : List Value → List Value
  | [] => []
  | v :: rest => v.plain :: Value.plainItems rest

/-- The entries of a map as plain data. -/
def Value.plainEntries : List (String × Value) → List (String × Value)
  | [] => []
  | (key, v) :: rest => (key, v.plain) :: Value.plainEntries rest

end

namespace Registry

/-- Leaves a value under a fresh handle. -/
def deposit (v : Value) : Conversion UInt32 := fun r =>
  let handle := r.last + 1
  (handle, { r with last := handle, waiting := (handle, v) :: r.waiting.filter (·.1 != handle) })

/-- Fetches the value under a handle. -/
def fetch (handle : UInt32) : Conversion (Option Value) := fun r =>
  (r.waiting.lookup handle, { r with waiting := r.waiting.filter (·.1 != handle) })

end Registry

/-- A variant without data is its own name, unless it announces the handle of a value. -/
def takeVariant (name : String) (index : UInt32) (variant : String) : Conversion Taken :=
  if name = handleMark ∧ variant = handleMark then do
    match ← Registry.fetch index with
    | some v => return .ok v
    | none => return .error "value handle not in registry"
  else return .ok (.string variant)

/-- A value inside the data goes through the registry while values are being made. Otherwise it
describes itself as plain data. -/
def takeValue (v : Value) : Conversion Taken := do
  if (← get).active then takeVariant handleMark (← Registry.deposit v) handleMark
  else return .ok v.plain

/-- A map with one entry. -/
def Value.single (key : String) (v : Value) : Value := .map [(key, v)]

/-- Runs a conversion as the outermost one, or inside another one. -/
def converting {α : Type} (run : Conversion α) : Conversion α := do
  let before := (← get).active
  modify fun r => { r with active := true }
  let a ← run
  unless before do
    modify fun r => { r with active := false }
  return a

namespace Datum

mutual

/-- Takes in a part of the data. -/
def take : Datum → Conversion Taken
  | .bool b => return .ok (.bool b)
  | .int t n => return .ok (.ofInt t n)
  | .single x => return .ok (.float (Decimal.toSingle x))
  | .double x => return .ok (.float x)
  | .char c => return .ok (.ofChar c)
  | .string s => return .ok (.string s)
  | .bytes bs => return .ok (.seq (bs.map fun b => .ofNat b.toNat))
  | .none | .unit | .unitStruct _ => return .ok .none
  | .some d | .newtypeStruct _ d => do return .ok (Taken.toValue (← d.take))
  | .unitVariant name index variant => takeVariant name index variant
  | .newtypeVariant _ _ variant d => do
    return .ok (.single variant (Taken.toValue (← d.take)))
  | .seq _ items | .tuple items | .tupleStruct _ items => do return .ok (.seq (← takeItems items))
  | .tupleVariant _ _ variant items => do
    return .ok (.single variant (.seq (← takeItems items)))
  | .map _ entries => do return .ok (.map (← takeEntries entries []))
  | .struct _ fields => do return .ok (.map (← takeFields fields []))
  | .structVariant _ _ variant fields => do
    return .ok (.single variant (.map (← takeFields fields [])))
  | .failing message => return .error message
  | .value v => takeValue v
  | .flag => do return .ok (.bool (← get).active)
  | .converted d => do
    let v ← converting (do return Taken.toValue (← d.take))
    takeValue v

/-- Takes in items. -/
def takeItems : List Datum → Conversion (List Value)
  | [] => return []
  | d :: rest => do
    let v := Taken.toValue (← d.take)
    return v :: (← takeItems rest)

/-- Takes in entries. An entry whose key fails or has no text is dropped, and its value
is not looked at. -/
def takeEntries : List (Datum × Datum) → Entries Value → Conversion (Entries Value)
  | [], out => return out
  | (key, d) :: rest, out => do
    match (← key.take).toOption.bind Value.keyText? with
    | .some name => do
      let v := Taken.toValue (← d.take)
      takeEntries rest (out.insert name v)
    | .none => takeEntries rest out

/-- Takes in fields. -/
def takeFields : List (String × Datum) → Entries Value → Conversion (Entries Value)
  | [], out => return out
  | (name, d) :: rest, out => do
    let v := Taken.toValue (← d.take)
    takeFields rest (out.insert name v)

end

/-- Makes a value of host data. -/
def convert (d : Datum) : Conversion Value :=
  converting (do return Taken.toValue (← d.take))

end Datum

/-- The value of host data. -/
def Value.ofDatum (d : Datum) : Value := (d.convert {}).1

end Stencil

import Stencil.Proofs.Data.Conversion

/-!
# How data describes itself

Host data describes itself by a program: it calls what takes it in, hands over its parts, which
describe themselves in turn, and may go on as it likes with every answer. It may also make values of
other data on its own, which describes itself in the same way. Such a program sees the registry only
through these steps, and so it is enough to look at the steps.

* `Description`: these programs;
* `Description.run`, `Description.convert`: taking one in, and making a value of it;
* `Datum.description`, `Datum.run_description`: the shapes of host data are among them.
-/

namespace Stencil

/-- What data does to describe itself. -/
inductive Description
  /-- Nothing more: the data was taken in, or it failed. -/
  | done (t : Taken)
  /-- Asks whether values are being made. -/
  | ask (next : Bool → Description)
  /-- Hands over a scalar, or begins or ends a list, a map or the like. -/
  | call (next : Description)
  /-- Hands over a variant without data. -/
  | announce (name : String) (index : UInt32) (variant : String) (next : Taken → Description)
  /-- Lets a value describe itself. -/
  | value (v : Value) (next : Taken → Description)
  /-- Hands over a part: an item, a key, the data of a field or of a variant. -/
  | part (d : Description) (next : Taken → Description)
  /-- Makes a value of other data. -/
  | make (d : Description) (next : Value → Description)

namespace Description

/-- Takes in data that describes itself. -/
def run : Description → Conversion Taken
  | done t => return t
  | ask next => do (next (← get).active).run
  | call next => next.run
  | announce name index variant next => do (next (← takeVariant name index variant)).run
  | value v next => do (next (← takeValue v)).run
  | part d next => do (next (← d.run)).run
  | make d next => do (next (← converting (do return Taken.toValue (← d.run)))).run

/-- Makes a value of data that describes itself. -/
def convert (d : Description) : Conversion Value :=
  converting (do return Taken.toValue (← d.run))

end Description

namespace Datum

mutual

/-- How host data describes itself. -/
def description : Datum → Description
  | .unitVariant name index variant => .announce name index variant .done
  | .value v => .value v .done
  | .flag => .ask fun active => .call (.done (.ok (.bool active)))
  | .failing message => .done (.error message)
  | .some d | .newtypeStruct _ d => .part d.description fun t => .done (.ok t.toValue)
  | .newtypeVariant _ _ variant d =>
    .part d.description fun t => .done (.ok (.single variant t.toValue))
  | .seq _ items | .tuple items | .tupleStruct _ items =>
    .call (describeItems items fun vs => .call (.done (.ok (.seq vs))))
  | .tupleVariant _ _ variant items =>
    .call (describeItems items fun vs => .call (.done (.ok (.single variant (.seq vs)))))
  | .map _ entries => .call (describeEntries entries [] fun out => .call (.done (.ok (.map out))))
  | .struct _ fields => .call (describeFields fields [] fun out => .call (.done (.ok (.map out))))
  | .structVariant _ _ variant fields =>
    .call (describeFields fields [] fun out => .call (.done (.ok (.single variant (.map out)))))
  | .converted d => .make d.description fun v => .value v .done
  -- What is left are scalars and the like, handed over by one call.
  | d => .call (.done d.taken)

/-- Hands over items. -/
def describeItems : List Datum → (List Value → Description) → Description
  | [], next => next []
  | d :: rest, next => .part d.description fun t => describeItems rest fun vs => next (t.toValue :: vs)

/-- Hands over entries. The value behind a key without a text is not looked at. -/
def describeEntries :
    List (Datum × Datum) → Entries Value → (Entries Value → Description) → Description
  | [], out, next => next out
  | (key, d) :: rest, out, next => .part key.description fun t =>
    match t.toOption.bind Value.keyText? with
    | .some name => .part d.description fun t => describeEntries rest (out.insert name t.toValue) next
    | .none => .call (describeEntries rest out next)

/-- Hands over fields. -/
def describeFields :
    List (String × Datum) → Entries Value → (Entries Value → Description) → Description
  | [], out, next => next out
  | (name, d) :: rest, out, next =>
    .part d.description fun t => describeFields rest (out.insert name t.toValue) next

end

mutual

/-- Taking in host data is taking in what it does to describe itself. -/
theorem run_description (d : Datum) : d.description.run = d.take := by
  cases d with
  | bool b => rfl
  | int t n => rfl
  | single x => rfl
  | double x => rfl
  | char c => rfl
  | string s => rfl
  | bytes bs => rfl
  | none => rfl
  | unit => rfl
  | unitStruct name => rfl
  | failing message => rfl
  | flag => rfl
  | unitVariant name index variant => simp [description, Description.run, take]
  | value v => simp [description, Description.run, take]
  | some d => simp [description, Description.run, take, run_description d]
  | newtypeStruct name d => simp [description, Description.run, take, run_description d]
  | newtypeVariant name index variant d => simp [description, Description.run, take, run_description d]
  | seq size items => simp [description, Description.run, take, run_describeItems items]
  | tuple items => simp [description, Description.run, take, run_describeItems items]
  | tupleStruct name items => simp [description, Description.run, take, run_describeItems items]
  | tupleVariant name index variant items =>
    simp [description, Description.run, take, run_describeItems items]
  | map size entries => simp [description, Description.run, take, run_describeEntries entries]
  | struct name fields => simp [description, Description.run, take, run_describeFields fields]
  | structVariant name index variant fields =>
    simp [description, Description.run, take, run_describeFields fields]
  | converted d => simp [description, Description.run, take, run_description d]

theorem run_describeItems (ds : List Datum) (next : List Value → Description) :
    (describeItems ds next).run = takeItems ds >>= fun vs => (next vs).run := by
  cases ds with
  | nil => simp [describeItems, takeItems]
  | cons d rest =>
    simp [describeItems, takeItems, Description.run, run_description d, run_describeItems rest]

theorem run_describeEntries (es : List (Datum × Datum)) (out : Entries Value)
    (next : Entries Value → Description) :
    (describeEntries es out next).run = takeEntries es out >>= fun es => (next es).run := by
  cases es with
  | nil => simp [describeEntries, takeEntries]
  | cons e rest =>
    obtain ⟨key, d⟩ := e
    simp only [describeEntries, takeEntries, Description.run, run_description key, bind_assoc]
    refine congrArg _ (funext fun t => ?_)
    cases t.toOption.bind Value.keyText? with
    | some name => simp [Description.run, run_description d, run_describeEntries rest]
    | none => simp [Description.run, run_describeEntries rest]

theorem run_describeFields (fs : List (String × Datum)) (out : Entries Value)
    (next : Entries Value → Description) :
    (describeFields fs out next).run = takeFields fs out >>= fun fs => (next fs).run := by
  cases fs with
  | nil => simp [describeFields, takeFields]
  | cons f rest =>
    obtain ⟨name, d⟩ := f
    simp [describeFields, takeFields, Description.run, run_description d, run_describeFields rest]

end

/-- And so is making a value of it. -/
theorem convert_description (d : Datum) : d.description.convert = d.convert := by
  rw [Description.convert, run_description, Datum.convert]

end Datum

end Stencil

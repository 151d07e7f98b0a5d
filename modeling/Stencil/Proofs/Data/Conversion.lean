import Stencil.Data.Convert

/-!
# Conversion part by part

A value inside host data waits in the registry only until it is fetched, so between two
parts nothing waits, and what one part is taken in as does not depend on the parts before
it. The value of structured data is therefore put together from the values of its parts.

* `Settles`: a computation that leaves the registry as it found it, but for the last
  handle, and whose result does not depend on that;
* `Datum.settles_take`: taking in a part is one;
* `Datum.convert_eq`: the value of host data, whatever was converted before;
* `Entries.writeAll`: entries written one after the other, some of them without a name;
* `Datum.ofDatum_seq`, `Datum.ofDatum_map`, `Datum.ofDatum_struct`, …: the value of each
  shape of data, by the values of its parts.
-/

namespace Stencil

/-! ## Computations that settle -/

variable {α β : Type}

/-- While values are being made and nothing waits, the computation gives `a`, and only the
last handle may be another one afterwards. -/
def Settles (run : Conversion α) (a : α) : Prop :=
  ∀ last, ∃ last', run ⟨true, last, []⟩ = (a, ⟨true, last', []⟩)

variable {run : Conversion α} {next : α → Conversion β} {a : α} {b : β}

namespace Settles

theorem pure (a : α) : Settles (pure a) a := fun last => ⟨last, rfl⟩

theorem bind (h : Settles run a) (hn : Settles (next a) b) : Settles (run >>= next) b := by
  intro last
  obtain ⟨last₁, h₁⟩ := h last
  obtain ⟨last₂, h₂⟩ := hn last₁
  refine ⟨last₂, ?_⟩
  simp only [Bind.bind, StateT.bind, h₁]
  exact h₂

theorem map (h : Settles run a) (f : α → β) : Settles (do return f (← run)) (f a) :=
  h.bind (pure (f a))

end Settles

/-- A variant that announces a handle finds nothing under it, unless it was left there just
before. -/
theorem settles_takeVariant (name : String) (index : UInt32) (variant : String) :
    Settles (takeVariant name index variant)
      (if name = handleMark ∧ variant = handleMark then .error "value handle not in registry"
        else .ok (.string variant)) := by
  intro last
  refine ⟨last, ?_⟩
  rw [takeVariant]
  split <;> rfl

/-- While values are being made, a value goes through the registry. -/
theorem takeValue_eq {r : Registry} (h : r.active = true) (v : Value) :
    takeValue v r = takeVariant handleMark (r.last + 1) handleMark (Registry.deposit v r).2 := by
  simp only [takeValue, Bind.bind, StateT.bind, get, getThe, MonadStateOf.get, StateT.get, Pure.pure]
  rw [h]
  rfl

/-- A value is left under a fresh handle and fetched at once. -/
theorem settles_takeValue (v : Value) : Settles (takeValue v) (.ok v) := by
  intro last
  refine ⟨last + 1, ?_⟩
  have hfetch : (Registry.fetch (last + 1)) ⟨true, last + 1, [(last + 1, v)]⟩ =
      (some v, ⟨true, last + 1, []⟩) := by
    simp [Registry.fetch]
  rw [takeValue_eq rfl]
  simp only [takeVariant, Bind.bind, StateT.bind, Registry.deposit, List.filter_nil, and_self, if_true,
    hfetch]
  rfl

/-- A conversion inside another one or outside of all leaves the flag as it was. -/
theorem Settles.converting (h : Settles run a) (active : Bool) (last : UInt32) :
    ∃ last', converting run ⟨active, last, []⟩ = (a, ⟨active, last', []⟩) := by
  obtain ⟨last', h'⟩ := h last
  refine ⟨last', ?_⟩
  have hrun : ∀ next : α → Conversion α, (run >>= next) ⟨true, last, []⟩ = next a ⟨true, last', []⟩ := by
    intro next
    simp only [Bind.bind, StateT.bind, h']
  cases active with
  | true => exact hrun _
  | false => exact (hrun fun a => do modify fun r => { r with active := false }; return a).trans rfl

/-! ## Entries in a row -/

/-- Writes entries one after the other; an entry without a name is left out. -/
def Entries.writeAll (out : Entries α) : List (Option String × α) → Entries α
  | [] => out
  | (some name, a) :: rest => writeAll (out.insert name a) rest
  | (none, _) :: rest => writeAll out rest

namespace Datum

open Value (ofDatum)

/-! ## Parts -/

/-- What a part is taken in as. -/
def taken (d : Datum) : Taken := (d.take ⟨true, 0, []⟩).1

/-- An entry: the text of its key, and its value. -/
def entryRow (e : Datum × Datum) : Option String × Value := ((ofDatum e.1).keyText?, ofDatum e.2)

/-- A field with its value. -/
def fieldRow (f : String × Datum) : Option String × Value := (.some f.1, ofDatum f.2)

theorem ofDatum_eq (d : Datum) : ofDatum d = d.taken.toValue := rfl

theorem taken_eq_of_settles {d : Datum} {t : Taken} (h : Settles d.take t) : d.taken = t := by
  obtain ⟨last', h⟩ := h 0
  rw [taken, h]

theorem settles_taken {d : Datum} {t : Taken} (h : Settles d.take t) : Settles d.take d.taken := by
  rwa [taken_eq_of_settles h]

/-- A key that fails has no text, as little as the invalid value that it would be. -/
theorem keyText?_toValue (t : Taken) : t.toValue.keyText? = t.toOption.bind Value.keyText? := by
  cases t <;> rfl

mutual

/-- Taking in a part settles: the registry is needed only inside a value that is carried
over. -/
theorem settles_take (d : Datum) : Settles d.take d.taken := by
  cases d with
  | bool b => exact settles_taken (.pure _)
  | int t n => exact settles_taken (.pure _)
  | single x => exact settles_taken (.pure _)
  | double x => exact settles_taken (.pure _)
  | char c => exact settles_taken (.pure _)
  | string s => exact settles_taken (.pure _)
  | bytes bs => exact settles_taken (.pure _)
  | none => exact settles_taken (.pure _)
  | unit => exact settles_taken (.pure _)
  | unitStruct name => exact settles_taken (.pure _)
  | failing message => exact settles_taken (.pure _)
  | unitVariant name index variant => exact settles_taken (settles_takeVariant name index variant)
  | value v => exact settles_taken (settles_takeValue v)
  -- A part is only ever taken in while values are being made.
  | flag => exact settles_taken (t := .ok (.bool true)) fun last => ⟨last, rfl⟩
  | some d => exact settles_taken ((settles_take d).map _)
  | newtypeStruct name d => exact settles_taken ((settles_take d).map _)
  | newtypeVariant name index variant d => exact settles_taken ((settles_take d).map _)
  | seq size items => exact settles_taken ((settles_takeItems items).map _)
  | tuple items => exact settles_taken ((settles_takeItems items).map _)
  | tupleStruct name items => exact settles_taken ((settles_takeItems items).map _)
  | tupleVariant name index variant items => exact settles_taken ((settles_takeItems items).map _)
  | map size entries => exact settles_taken ((settles_takeEntries entries []).map _)
  | struct name fields => exact settles_taken ((settles_takeFields fields []).map _)
  | structVariant name index variant fields =>
    exact settles_taken ((settles_takeFields fields []).map _)
  | converted d =>
    have hinner := ((settles_take d).map Taken.toValue).converting true
    exact settles_taken (Settles.bind hinner (settles_takeValue _))

theorem settles_takeItems (ds : List Datum) : Settles (takeItems ds) (ds.map ofDatum) := by
  cases ds with
  | nil => exact .pure _
  | cons d rest => exact (settles_take d).bind ((settles_takeItems rest).map _)

theorem settles_takeEntries (es : List (Datum × Datum)) (out : Entries Value) :
    Settles (takeEntries es out) (out.writeAll (es.map entryRow)) := by
  cases es with
  | nil => exact .pure _
  | cons e rest =>
    obtain ⟨key, d⟩ := e
    refine (settles_take key).bind ?_
    simp only [List.map_cons, entryRow, ofDatum_eq key, keyText?_toValue]
    cases key.taken.toOption.bind Value.keyText? with
    | some name => exact (settles_take d).bind (settles_takeEntries rest _)
    | none => exact settles_takeEntries rest out

theorem settles_takeFields (fs : List (String × Datum)) (out : Entries Value) :
    Settles (takeFields fs out) (out.writeAll (fs.map fieldRow)) := by
  cases fs with
  | nil => exact .pure _
  | cons f rest =>
    obtain ⟨name, d⟩ := f
    exact (settles_take d).bind (settles_takeFields rest _)

end

/-! ## Values of data -/

theorem settles_toValue (d : Datum) : Settles (do return Taken.toValue (← d.take)) (ofDatum d) :=
  d.settles_take.map Taken.toValue

/-- The value of host data does not depend on what was converted before, and the registry
is left as it was, but for the last handle. -/
theorem convert_eq (d : Datum) (r : Registry) (h : r.waiting = []) :
    ∃ last, d.convert r = (ofDatum d, { r with last }) := by
  obtain ⟨active, last, waiting⟩ := r
  cases h
  exact d.settles_toValue.converting active last

theorem ofDatum_of_settles {d : Datum} {v : Value} (h : Settles d.take (.ok v)) : ofDatum d = v :=
  congrArg Taken.toValue (taken_eq_of_settles h)

/-- A value is carried over unchanged. -/
@[simp] theorem ofDatum_value (v : Value) : ofDatum (.value v) = v :=
  ofDatum_of_settles (d := .value v) (settles_takeValue v)

variable {name variant : String} {index : UInt32} {size : Option Nat}

@[simp] theorem ofDatum_some (d : Datum) : ofDatum (.some d) = ofDatum d :=
  ofDatum_of_settles (d := .some d) (d.settles_take.map _)

@[simp] theorem ofDatum_newtypeStruct (d : Datum) : ofDatum (.newtypeStruct name d) = ofDatum d :=
  ofDatum_of_settles (d := .newtypeStruct name d) (d.settles_take.map _)

@[simp] theorem ofDatum_newtypeVariant (d : Datum) :
    ofDatum (.newtypeVariant name index variant d) = .single variant (ofDatum d) :=
  ofDatum_of_settles (d := .newtypeVariant name index variant d) (d.settles_take.map _)

@[simp] theorem ofDatum_seq (ds : List Datum) : ofDatum (.seq size ds) = .seq (ds.map ofDatum) :=
  ofDatum_of_settles (d := .seq size ds) ((settles_takeItems ds).map _)

@[simp] theorem ofDatum_tuple (ds : List Datum) : ofDatum (.tuple ds) = .seq (ds.map ofDatum) :=
  ofDatum_of_settles (d := .tuple ds) ((settles_takeItems ds).map _)

@[simp] theorem ofDatum_tupleStruct (ds : List Datum) :
    ofDatum (.tupleStruct name ds) = .seq (ds.map ofDatum) :=
  ofDatum_of_settles (d := .tupleStruct name ds) ((settles_takeItems ds).map _)

@[simp] theorem ofDatum_tupleVariant (ds : List Datum) :
    ofDatum (.tupleVariant name index variant ds) = .single variant (.seq (ds.map ofDatum)) :=
  ofDatum_of_settles (d := .tupleVariant name index variant ds) ((settles_takeItems ds).map _)

@[simp] theorem ofDatum_map (es : List (Datum × Datum)) :
    ofDatum (.map size es) = .map (Entries.writeAll [] (es.map entryRow)) :=
  ofDatum_of_settles (d := .map size es) ((settles_takeEntries es []).map _)

@[simp] theorem ofDatum_struct (fs : List (String × Datum)) :
    ofDatum (.struct name fs) = .map (Entries.writeAll [] (fs.map fieldRow)) :=
  ofDatum_of_settles (d := .struct name fs) ((settles_takeFields fs []).map _)

@[simp] theorem ofDatum_structVariant (fs : List (String × Datum)) :
    ofDatum (.structVariant name index variant fs) =
      .single variant (.map (Entries.writeAll [] (fs.map fieldRow))) :=
  ofDatum_of_settles (d := .structVariant name index variant fs) ((settles_takeFields fs []).map _)

/-- A value that was made inside goes through the registry too. -/
@[simp] theorem ofDatum_converted (d : Datum) : ofDatum (.converted d) = ofDatum d := by
  have hinner : Settles (converting _) (ofDatum d) := d.settles_toValue.converting true
  exact ofDatum_of_settles (d := .converted d) (hinner.bind (settles_takeValue _))

end Datum

end Stencil

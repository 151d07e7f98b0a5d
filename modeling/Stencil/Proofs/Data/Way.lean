import Stencil.Proofs.Data.Conversion

/-!
# Ways into values

A way leads into a value, from one item or entry to the next. What stands at its end can be
looked at, and it can be changed without a change to anything else.

* `Value.Way`, `Value.follow?`, `Value.change`: ways, and what is done at their ends;
* `Value.follow?_change`, `Value.follow?_change_of_ne`: what is seen of a change;
* `Holds`: where a function of a value holds its argument: at the end of one way, or nowhere;
* `Holds.comp`, `Holds.seq`, `Holds.map`: functions in a row, items of a sequence, and
  entries that are written in a row and may be written again.
-/

namespace Stencil

variable {α : Type}

/-! ## Changes to entries -/

namespace Entries

/-- Changes the entry under a name. -/
def modify (f : α → α) (name : String) : Entries α → Entries α
  | [] => []
  | (n, a) :: rest => if n = name then (n, f a) :: rest else (n, a) :: modify f name rest

variable {f : α → α} {name n : String} {a : α} {rows : List (Option String × α)}

theorem modify_insert_self (es : Entries α) :
    (es.insert name a).modify f name = es.insert name (f a) := by
  induction es with
  | nil => simp [insert, modify]
  | cons e rest ih =>
    obtain ⟨m, b⟩ := e
    by_cases h : m = name <;> simp [insert, modify, h, ih]

theorem insert_modify_self (es : Entries α) :
    (es.modify f name).insert name a = es.insert name a := by
  induction es with
  | nil => rfl
  | cons e rest ih =>
    obtain ⟨m, b⟩ := e
    by_cases h : m = name <;> simp [insert, modify, h, ih]

theorem insert_modify_of_ne (es : Entries α) (h : n ≠ name) :
    (es.modify f name).insert n a = (es.insert n a).modify f name := by
  induction es with
  | nil => simp [insert, modify, h]
  | cons e rest ih =>
    obtain ⟨m, b⟩ := e
    by_cases hm : m = name
    · simp [insert, modify, hm, h.symm]
    · by_cases hn : m = n
      · simp [insert, modify, hn, h]
      · simp [insert, modify, hm, hn, ih]

theorem get?_modify (es : Entries α) (other : String) :
    (es.modify f name).get? other = if other = name then (es.get? name).map f else es.get? other := by
  unfold get?
  induction es with
  | nil => simp [modify]
  | cons e rest ih =>
    obtain ⟨m, b⟩ := e
    by_cases hm : m = name <;> by_cases ho : other = m <;> grind [modify]

theorem writeAll_append (es : Entries α) (rows rows' : List (Option String × α)) :
    es.writeAll (rows ++ rows') = (es.writeAll rows).writeAll rows' := by
  induction rows generalizing es with
  | nil => rfl
  | cons row rest ih =>
    obtain ⟨name?, b⟩ := row
    cases name? with
    | none => exact ih es
    | some name => exact ih _

/-- An entry that is not written again is there in the end. -/
theorem get?_writeAll (es : Entries α) (h : some name ∉ rows.map Prod.fst) :
    (es.writeAll rows).get? name = es.get? name := by
  induction rows generalizing es with
  | nil => rfl
  | cons row rest ih =>
    obtain ⟨name?, b⟩ := row
    rw [List.map_cons, List.mem_cons, not_or] at h
    cases name? with
    | none => exact ih es h.2
    | some m =>
      have hm : name ≠ m := fun e => h.1 (congrArg some e)
      rw [writeAll, ih _ h.2, get?_insert, if_neg hm]

/-- A change to an entry that is not written again can as well be made in the end. -/
theorem modify_writeAll (es : Entries α) (h : some name ∉ rows.map Prod.fst) :
    (es.writeAll rows).modify f name = (es.modify f name).writeAll rows := by
  induction rows generalizing es with
  | nil => rfl
  | cons row rest ih =>
    obtain ⟨name?, b⟩ := row
    rw [List.map_cons, List.mem_cons, not_or] at h
    cases name? with
    | none => exact ih es h.2
    | some m =>
      have hm : m ≠ name := fun e => h.1 (congrArg some e.symm)
      rw [writeAll, writeAll, insert_modify_of_ne es hm, ih _ h.2]

/-- A change to an entry that is written again is lost. -/
theorem writeAll_modify (es : Entries α) (h : some name ∈ rows.map Prod.fst) :
    (es.modify f name).writeAll rows = es.writeAll rows := by
  induction rows generalizing es with
  | nil => cases h
  | cons row rest ih =>
    obtain ⟨name?, b⟩ := row
    cases name? with
    | none => exact ih es ((List.mem_cons.1 h).resolve_left nofun)
    | some m =>
      rw [writeAll, writeAll]
      by_cases hm : m = name
      · rw [hm, insert_modify_self]
      · rw [insert_modify_of_ne es hm]
        exact ih _ ((List.mem_cons.1 h).resolve_left fun e => hm (Option.some.inj e).symm)

end Entries

/-! ## Ways into values -/

namespace Value

/-- One step into a value: to an item or to an entry. -/
inductive Step
  | item (index : Nat)
  | entry (name : String)

/-- Steps into a value, the outermost one first. -/
abbrev Way := List Step

/-- What a step leads to. -/
def child? : Step → Value → Option Value
  | .item i, .seq items => items[i]?
  | .entry name, .map entries => Entries.get? entries name
  | _, _ => .none

/-- Changes what a step leads to. -/
def changeChild (f : Value → Value) : Step → Value → Value
  | .item i, .seq items => .seq (items.modify i f)
  | .entry name, .map entries => .map (Entries.modify f name entries)
  | _, v => v

/-- What stands at the end of a way. -/
def follow? : Way → Value → Option Value
  | [], v => .some v
  | step :: way, v => (v.child? step).bind (follow? way)

/-- Changes what stands at the end of a way, and nothing else. -/
def change (f : Value → Value) : Way → Value → Value
  | [], v => f v
  | step :: way, v => v.changeChild (change f way) step

theorem child?_changeChild (f : Value → Value) (step : Step) (v : Value) :
    (v.changeChild f step).child? step = (v.child? step).map f := by
  cases step with
  | item i =>
    cases v with
    | seq items => exact List.getElem?_modify_eq f i items
    | _ => rfl
  | entry name =>
    cases v with
    | map entries => exact (Entries.get?_modify entries name).trans (if_pos rfl)
    | _ => rfl

theorem child?_changeChild_of_ne (f : Value → Value) {step other : Step} (h : step ≠ other) (v : Value) :
    (v.changeChild f step).child? other = v.child? other := by
  cases v with
  | seq items =>
    cases step with
    | item i =>
      cases other with
      | item j => exact List.getElem?_modify_ne f items fun hij => h (congrArg Step.item hij)
      | entry => rfl
    | entry => rfl
  | map entries =>
    cases step with
    | item => rfl
    | entry name =>
      cases other with
      | item => rfl
      | entry n => exact (Entries.get?_modify entries n).trans (if_neg fun hn => h (congrArg Step.entry hn.symm))
  | _ => cases step <;> rfl

/-- A change is seen at the end of its way. -/
theorem follow?_change (f : Value → Value) (way : Way) (v : Value) :
    (v.change f way).follow? way = (v.follow? way).map f := by
  induction way generalizing v with
  | nil => rfl
  | cons step way ih =>
    simp only [change, follow?, child?_changeChild, Option.bind_map, Option.map_bind]
    exact congrArg _ (funext ih)

/-- A change is not seen on a way that parts from its own. -/
theorem follow?_change_of_ne (f : Value → Value) (way : Way) {step other : Step} (h : step ≠ other)
    (rest rest' : Way) (v : Value) :
    (v.change f (way ++ step :: rest)).follow? (way ++ other :: rest') =
      v.follow? (way ++ other :: rest') := by
  induction way generalizing v with
  | nil => simp only [List.nil_append, change, follow?, child?_changeChild_of_ne _ h]
  | cons first way ih =>
    simp only [List.cons_append, change, follow?, child?_changeChild, Option.bind_map]
    exact congrArg _ (funext ih)

theorem follow?_append (way way' : Way) (v : Value) :
    v.follow? (way ++ way') = (v.follow? way).bind (follow? way') := by
  induction way generalizing v with
  | nil => rfl
  | cons step way ih => simp only [List.cons_append, follow?, Option.bind_assoc, funext ih]

theorem change_append (f : Value → Value) (way way' : Way) (v : Value) :
    v.change f (way ++ way') = v.change (change f way') way := by
  induction way generalizing v with
  | nil => rfl
  | cons step way ih => simp only [List.cons_append, change, funext ih]

end Value

/-! ## Where a value is held -/

open Value (Way follow? change)

/-- Where a function of a value holds its argument: at the end of a way and nowhere else, or
nowhere at all. -/
def Holds (g : Value → Value) : Option Way → Prop
  | some way => ∀ v, (g v).follow? way = some v ∧ ∀ f, (g v).change f way = g (f v)
  | none => ∀ v v', g v = g v'

/-- The way to an entry that is written before others: there is none if it has no name or is
written again. -/
def entryWay? (name? : Option String) (later : List (Option String)) : Option Way :=
  name?.bind fun name => if some name ∈ later then none else some [.entry name]

namespace Holds

variable {g g' : Value → Value} {way? way'? : Option Way}

theorem id : Holds (fun v => v) (some []) := fun _ => ⟨rfl, fun _ => rfl⟩

/-- One way after the other leads through both functions. -/
theorem comp (h : Holds g way?) (h' : Holds g' way'?) :
    Holds (fun v => g (g' v)) (way?.bind fun way => way'?.map (way ++ ·)) := by
  cases way? with
  | none => exact fun v v' => h (g' v) (g' v')
  | some way =>
    cases way'? with
    | none => exact fun v v' => congrArg g (h' v v')
    | some way' =>
      intro v
      constructor
      · rw [Value.follow?_append, (h (g' v)).1]
        exact (h' v).1
      · intro f
        rw [Value.change_append, (h (g' v)).2, (h' v).2]

theorem single (name : String) : Holds (Value.single name) (some [.entry name]) := by
  intro v
  constructor
  · simp [follow?, Value.child?, Value.single, Entries.get?]
  · intro f
    simp [change, Value.changeChild, Value.single, Entries.modify]

theorem seq (before after : List Value) :
    Holds (fun v => .seq (before ++ v :: after)) (some [.item before.length]) := by
  intro v
  constructor
  · simp [follow?, Value.child?]
  · intro f
    simp [change, Value.changeChild, List.modify_eq_take_drop]

theorem map (before : List (Option String × Value)) (name? : Option String)
    (after : List (Option String × Value)) :
    Holds (fun v => .map (Entries.writeAll [] (before ++ (name?, v) :: after)))
      (entryWay? name? (after.map Prod.fst)) := by
  simp only [Entries.writeAll_append]
  generalize Entries.writeAll [] before = es
  cases name? with
  | none => exact fun _ _ => rfl
  | some name =>
    simp only [Entries.writeAll, entryWay?, Option.bind_some]
    split
    · rename_i hlater
      -- Another value is a change to the entry, and that is lost when it is written again.
      intro v v'
      refine congrArg Value.map ?_
      rw [← Entries.writeAll_modify (f := fun _ => v') _ hlater, Entries.modify_insert_self]
    · rename_i hlater
      intro v
      constructor
      · simp [follow?, Value.child?, Entries.get?_writeAll _ hlater, Entries.get?_insert]
      · intro f
        simp only [change, Value.changeChild, Entries.modify_writeAll _ hlater, Entries.modify_insert_self]

end Holds

end Stencil

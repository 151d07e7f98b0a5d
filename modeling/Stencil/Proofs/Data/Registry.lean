import Mathlib
import Stencil.Proofs.Data.Description

/-!
# The registry while values are made

What happens in a run is written down event by event, each with the registry before and after it. In
order is a history in which values are being made all the time, every value that is left is fetched
by the very next call, and nothing else comes to wait. Histories in order can be put behind each
other, and every step of a description makes one, a run inside the run too; so does every run.

* `Description.moments`: the history of a run;
* `Orderly`, `Description.orderly`: histories in order, and that all are;
* `Description.Keeps`, `Description.keeps`: what a run does to the registry;
* `conversions_keep_registry`: the same of host data, and of handles that nothing waits under.
-/

namespace Stencil

/-! ## Steps -/

/-- The registry with the flag on. -/
def Registry.running (r : Registry) : Registry := { r with active := true }

theorem Registry.running_eq {r : Registry} (h : r.active = true) : r.running = r := by
  cases r
  cases h
  rfl

/-- A handle takes out what waits under it. -/
theorem takeVariant_handle (handle : UInt32) (r : Registry) :
    takeVariant handleMark handle handleMark r =
      ((match r.waiting.lookup handle with
        | some v => .ok v
        | none => .error "value handle not in registry"),
        { r with waiting := r.waiting.filter (·.1 != handle) }) := by
  rw [takeVariant, if_pos ⟨rfl, rfl⟩]
  simp only [Bind.bind, StateT.bind, Registry.fetch]
  cases r.waiting.lookup handle <;> rfl

theorem takeVariant_other {name variant : String} (h : ¬ (name = handleMark ∧ variant = handleMark))
    (index : UInt32) (r : Registry) : takeVariant name index variant r = (.ok (.string variant), r) := by
  rw [takeVariant, if_neg h]
  rfl

theorem takeVariant_active (name : String) (index : UInt32) (variant : String) (r : Registry) :
    (takeVariant name index variant r).2.active = r.active := by
  by_cases h : name = handleMark ∧ variant = handleMark
  · rw [h.1, h.2, takeVariant_handle]
  · rw [takeVariant_other h]

theorem takeVariant_waiting (name : String) (index : UInt32) (variant : String) (r : Registry) :
    (takeVariant name index variant r).2.waiting.Sublist r.waiting := by
  by_cases h : name = handleMark ∧ variant = handleMark
  · rw [h.1, h.2, takeVariant_handle]
    exact List.filter_sublist
  · rw [takeVariant_other h]

/-- A handle that nothing waits under leaves the registry as it is. -/
theorem takeVariant_of_lookup_eq_none {handle : UInt32} {r : Registry}
    (h : r.waiting.lookup handle = none) :
    takeVariant handleMark handle handleMark r = (.error "value handle not in registry", r) := by
  have hstays : r.waiting.filter (·.1 != handle) = r.waiting := by
    refine List.filter_eq_self.2 fun e he => ?_
    simpa [bne_comm] using List.lookup_eq_none_iff.1 h e he
  rw [takeVariant_handle, h, hstays]

/-- What has just been left is fetched. -/
theorem takeVariant_deposit (v : Value) (r : Registry) :
    takeVariant handleMark (r.last + 1) handleMark (Registry.deposit v r).2 =
      (.ok v, { r with last := r.last + 1, waiting := r.waiting.filter (·.1 != r.last + 1) }) := by
  rw [takeVariant_handle]
  simp [Registry.deposit]

/-! ## Histories -/

/-- What happens while a value is being made. -/
inductive Event
  /-- The data asked whether values are being made. -/
  | asked (answer : Bool)
  /-- A value left itself under a handle. -/
  | left (handle : UInt32) (v : Value)
  /-- A variant without data was handed over, and taken in like this. -/
  | announced (name : String) (index : UInt32) (variant : String) (t : Taken)
  /-- Something else was handed over. -/
  | called
  /-- The data began to make a value of its own. -/
  | began
  /-- The data had made a value of its own. -/
  | ended

/-- An event, with the registry before and after it. -/
structure Moment where
  event : Event
  before : Registry
  after : Registry

/-- What happens when a value describes itself. -/
def valueMoments (v : Value) (r : Registry) : List Moment :=
  if r.active then
    let (handle, filled) := Registry.deposit v r
    let (t, emptied) := takeVariant handleMark handle handleMark filled
    [⟨.left handle v, r, filled⟩, ⟨.announced handleMark handle handleMark t, filled, emptied⟩]
  else [⟨.called, r, r⟩]

theorem valueMoments_eq {r : Registry} (h : r.active = true) (v : Value) :
    valueMoments v r =
      [⟨.left (r.last + 1) v, r, (Registry.deposit v r).2⟩,
        ⟨.announced handleMark (r.last + 1) handleMark (.ok v), (Registry.deposit v r).2,
          { r with last := r.last + 1, waiting := r.waiting.filter (·.1 != r.last + 1) }⟩] := by
  have hfetch := takeVariant_deposit v r
  rw [valueMoments, if_pos h]
  simp only [Registry.deposit] at hfetch ⊢
  rw [hfetch]

/-- What happens while data that describes itself is taken in. -/
def Description.moments : Description → Registry → List Moment
  | done _, _ => []
  | ask next, r => ⟨.asked r.active, r, r⟩ :: (next r.active).moments r
  | call next, r => ⟨.called, r, r⟩ :: next.moments r
  | announce name index variant next, r =>
    let (t, r') := takeVariant name index variant r
    ⟨.announced name index variant t, r, r'⟩ :: (next t).moments r'
  | value v next, r =>
    let (t, r') := takeValue v r
    valueMoments v r ++ (next t).moments r'
  | part d next, r =>
    let (t, r') := d.run r
    ⟨.called, r, r⟩ :: d.moments r ++ (next t).moments r'
  | make d next, r =>
    let (v, r') := d.convert r
    ⟨.began, r, r.running⟩ :: d.moments r.running ++
      ⟨.ended, (d.run r.running).2, r'⟩ :: (next v).moments r'

/-- The moments lead from one registry to another, each to the one that the next begins with. -/
def Linked : Registry → List Moment → Registry → Prop
  | r, [], r' => r = r'
  | r, m :: ms, r' => m.before = r ∧ Linked m.after ms r'

/-- A value that is left is handed out by what happens next, and does not stay. -/
def FetchedAtOnce : List Moment → Prop
  | [] => True
  | m :: ms =>
    (∀ handle v, m.event = .left handle v → ∃ next ∈ ms.head?,
      next.event = .announced handleMark handle handleMark (.ok v) ∧
        handle ∉ next.after.waiting.map Prod.fst) ∧ FetchedAtOnce ms

/-- What holds of a moment while values are being made. At first the values in `w` were waiting. -/
structure Moment.Sound (w : List (UInt32 × Value)) (m : Moment) : Prop where
  flag : m.before.active = true ∧ m.after.active = true
  asked : ∀ answer, m.event = .asked answer → answer = true
  /-- Before it nothing else is waiting, but for the value that is just being fetched. -/
  before : m.before.waiting.Sublist w ∨
    ∃ handle v rest, m.event = .announced handleMark handle handleMark (.ok v) ∧
      m.before.waiting = (handle, v) :: rest ∧ rest.Sublist w
  /-- After it nothing else is waiting, but for the value that has just been left. -/
  after : m.after.waiting.Sublist w ∨
    ∃ handle v rest, m.event = .left handle v ∧ m.after.waiting = (handle, v) :: rest ∧ rest.Sublist w
  /-- A handle that nothing waits under is an invalid value, and that is all. -/
  unknown : ∀ handle t, m.event = .announced handleMark handle handleMark t →
    m.before.waiting.lookup handle = none →
    t = .error "value handle not in registry" ∧ m.after = m.before

/-- A history while values are being made. -/
structure Orderly (r : Registry) (ms : List Moment) (r' : Registry) : Prop where
  linked : Linked r ms r'
  sound : ∀ m ∈ ms, m.Sound r.waiting
  fetched : FetchedAtOnce ms
  flag : r'.active = true
  waiting : r'.waiting.Sublist r.waiting

theorem Linked.append {r r₁ r₂ : Registry} {ms ms' : List Moment} (h : Linked r ms r₁)
    (h' : Linked r₁ ms' r₂) : Linked r (ms ++ ms') r₂ := by
  induction ms generalizing r with
  | nil => rwa [← (h : r = r₁)] at h'
  | cons m ms ih => exact ⟨h.1, ih h.2⟩

theorem FetchedAtOnce.append {ms ms' : List Moment} (h : FetchedAtOnce ms) (h' : FetchedAtOnce ms') :
    FetchedAtOnce (ms ++ ms') := by
  induction ms with
  | nil => exact h'
  | cons m ms ih =>
    refine ⟨fun handle v hm => ?_, ih h.2⟩
    obtain ⟨next, hnext, hfetched⟩ := h.1 handle v hm
    exact ⟨next, by simp [List.head?_append, Option.mem_def.1 hnext], hfetched⟩

theorem Moment.Sound.mono {w w' : List (UInt32 × Value)} {m : Moment} (h : m.Sound w)
    (hw : w.Sublist w') : m.Sound w' where
  flag := h.flag
  asked := h.asked
  before := h.before.imp (·.trans hw) fun ⟨handle, v, rest, hevent, hbefore, hrest⟩ =>
    ⟨handle, v, rest, hevent, hbefore, hrest.trans hw⟩
  after := h.after.imp (·.trans hw) fun ⟨handle, v, rest, hevent, hafter, hrest⟩ =>
    ⟨handle, v, rest, hevent, hafter, hrest.trans hw⟩
  unknown := h.unknown

namespace Orderly

variable {r r₁ r₂ : Registry} {ms ms' : List Moment} {v : Value}

theorem nil (h : r.active = true) : Orderly r [] r :=
  ⟨rfl, by simp, trivial, h, .refl _⟩

theorem append (h : Orderly r ms r₁) (h' : Orderly r₁ ms' r₂) : Orderly r (ms ++ ms') r₂ := by
  refine ⟨h.linked.append h'.linked, fun m hm => ?_, h.fetched.append h'.fetched, h'.flag,
    h'.waiting.trans h.waiting⟩
  rcases List.mem_append.1 hm with hm | hm
  · exact h.sound m hm
  · exact (h'.sound m hm).mono h.waiting

/-- A moment that leaves the registry alone. -/
theorem still {e : Event} (h : r.active = true) (he : e = .asked true ∨ e = .called ∨ e = .began ∨ e = .ended) :
    Orderly r [⟨e, r, r⟩] r := by
  refine ⟨⟨rfl, rfl⟩, fun m hm => ?_, ⟨fun handle v hm => ?_, trivial⟩, h, .refl _⟩
  · rw [List.mem_singleton.1 hm]
    refine ⟨⟨h, h⟩, ?_, .inl (.refl _), .inl (.refl _), ?_⟩ <;>
      rcases he with rfl | rfl | rfl | rfl <;> simp
  · rcases he with rfl | rfl | rfl | rfl <;> simp at hm

/-- A variant without data takes out at most what waits under its handle. -/
theorem announced (h : r.active = true) (name : String) (index : UInt32) (variant : String) :
    Orderly r [⟨.announced name index variant (takeVariant name index variant r).1, r,
      (takeVariant name index variant r).2⟩] (takeVariant name index variant r).2 := by
  have hflag : (takeVariant name index variant r).2.active = true := by rw [takeVariant_active, h]
  refine ⟨⟨rfl, rfl⟩, fun m hm => ?_, ⟨by simp, trivial⟩, hflag, takeVariant_waiting ..⟩
  rw [List.mem_singleton.1 hm]
  refine ⟨⟨h, hflag⟩, by simp, .inl (.refl _), .inl (takeVariant_waiting ..), fun handle t ht hnone => ?_⟩
  obtain ⟨rfl, rfl, rfl, rfl⟩ := Event.announced.inj ht
  rw [takeVariant_of_lookup_eq_none hnone]
  exact ⟨rfl, rfl⟩

/-- A value is fetched as soon as it is left. -/
theorem value (h : r.active = true) (v : Value) : Orderly r (valueMoments v r) (takeValue v r).2 := by
  have hrest : (r.waiting.filter (·.1 != r.last + 1)).Sublist r.waiting := List.filter_sublist
  rw [takeValue_eq h, takeVariant_deposit, valueMoments_eq h]
  refine ⟨⟨rfl, rfl, rfl⟩, fun m hm => ?_, ⟨fun handle w hw => ?_, by simp, trivial⟩, h, hrest⟩
  · simp only [List.mem_cons, List.not_mem_nil, or_false] at hm
    rcases hm with rfl | rfl
    · exact ⟨⟨h, h⟩, by simp, .inl (.refl _), .inr ⟨r.last + 1, v, _, rfl, rfl, hrest⟩, by simp⟩
    · refine ⟨⟨h, h⟩, by simp, .inr ⟨r.last + 1, v, _, rfl, rfl, hrest⟩, .inl hrest,
        fun handle t ht hnone => ?_⟩
      obtain ⟨-, rfl, -, rfl⟩ := Event.announced.inj ht
      simp [Registry.deposit] at hnone
  · obtain ⟨rfl, rfl⟩ := Event.left.inj hw
    exact ⟨_, rfl, rfl, by simp⟩

end Orderly

namespace Description

/-- Inside a run another one resets nothing. -/
theorem convert_eq_run {d : Description} {r : Registry} (h : r.active = true) :
    d.convert r = ((d.run r).1.toValue, (d.run r).2) := by
  obtain ⟨active, last, waiting⟩ := r
  cases h
  rfl

/-- What happens while data is taken in is in order. -/
theorem orderly (d : Description) {r : Registry} (h : r.active = true) :
    Orderly r (d.moments r) (d.run r).2 := by
  induction d generalizing r with
  | done t => exact .nil h
  | ask next ih =>
    have hasked := Orderly.still (e := .asked r.active) h (by simp [h])
    exact hasked.append (ih r.active h)
  | call next ih =>
    have hcalled := Orderly.still (e := .called) h (by simp)
    exact hcalled.append (ih h)
  | announce name index variant next ih =>
    have hannounced := Orderly.announced h name index variant
    exact hannounced.append (ih _ hannounced.flag)
  | value v next ih =>
    have hvalue := Orderly.value h v
    exact hvalue.append (ih _ hvalue.flag)
  | part d next ihd ih =>
    have hcalled := Orderly.still (e := .called) h (by simp)
    have hpart := ihd h
    exact hcalled.append (hpart.append (ih _ hpart.flag))
  | make d next ihd ih =>
    -- The flag is on already, so that beginning and ending leave the registry alone.
    have hbegan := Orderly.still (e := .began) h (by simp)
    have hmade := ihd h
    have hended := Orderly.still (e := .ended) hmade.flag (by simp)
    have hnext := ih (d.run r).1.toValue hmade.flag
    have hall := hbegan.append (hmade.append (hended.append hnext))
    have hrun : (make d next).run r = (next (d.convert r).1).run (d.convert r).2 := rfl
    rw [hrun, moments, convert_eq_run h, Registry.running_eq h]
    exact hall

/-- What a run does to the registry. -/
structure Keeps (d : Description) (r : Registry) : Prop where
  /-- Values are being made all through the run, and what happens is in order. -/
  during : Orderly r.running (d.moments r.running) (d.run r.running).2
  /-- Only an outermost run puts the flag back, and every run leaves it as it was. -/
  after : d.convert r = ((d.run r.running).1.toValue, { (d.run r.running).2 with active := r.active })
  /-- If nothing was waiting, nothing is waiting afterwards, and all the while only a value between its
  being left and its being fetched. -/
  empty : r.waiting = [] → (d.convert r).2.waiting = [] ∧ ∀ m ∈ d.moments r.running,
    (m.before.waiting = [] ∨ ∃ handle v, m.event = .announced handleMark handle handleMark (.ok v) ∧
      m.before.waiting = [(handle, v)]) ∧
    (m.after.waiting = [] ∨ ∃ handle v, m.event = .left handle v ∧ m.after.waiting = [(handle, v)])
  /-- And no value is left under a handle that another one waits under, wherever the handles are. -/
  fresh : r.waiting = [] → ∀ m ∈ d.moments r.running, ∀ handle v, m.event = .left handle v →
    m.before.waiting.lookup handle = none

theorem convert_eq (d : Description) (r : Registry) :
    d.convert r = ((d.run r.running).1.toValue, { (d.run r.running).2 with active := r.active }) := by
  have hflag := (d.orderly (r := r.running) rfl).flag
  obtain ⟨active, last, waiting⟩ := r
  cases active with
  | true => exact (convert_eq_run rfl).trans (congrArg (Prod.mk _) (Registry.running_eq hflag).symm)
  | false => rfl

theorem keeps (d : Description) (r : Registry) : d.Keeps r := by
  have hduring := d.orderly (r := r.running) rfl
  have hempty (hr : r.waiting = []) {w : List (UInt32 × Value)} (hw : w.Sublist r.waiting) : w = [] :=
    List.sublist_nil.1 (hr ▸ hw)
  refine ⟨hduring, d.convert_eq r, fun hr => ⟨?_, fun m hm => ⟨?_, ?_⟩⟩, fun hr m hm handle v hleft => ?_⟩
  · rw [convert_eq]
    exact hempty hr hduring.waiting
  · refine (hduring.sound m hm).before.imp (hempty hr) ?_
    rintro ⟨handle, v, rest, hevent, hbefore, hrest⟩
    exact ⟨handle, v, hevent, hempty hr hrest ▸ hbefore⟩
  · refine (hduring.sound m hm).after.imp (hempty hr) ?_
    rintro ⟨handle, v, rest, hevent, hafter, hrest⟩
    exact ⟨handle, v, hevent, hempty hr hrest ▸ hafter⟩
  · rcases (hduring.sound m hm).before with hbefore | ⟨_, _, _, hevent, -⟩
    · rw [hempty hr hbefore]
      rfl
    · cases hleft.symm.trans hevent

end Description

/-- Making values leaves the registry as it was, whatever the data does to describe itself: the shapes
of host data, and everything else that hands over its parts. A handle that nothing waits under makes
an invalid value, and that is all. -/
theorem conversions_keep_registry :
    (∀ (d : Description) (r : Registry), d.Keeps r) ∧
    (∀ d : Datum, d.description.convert = d.convert) ∧
    ∀ (handle : UInt32) (r : Registry), r.waiting.lookup handle = none →
      (Datum.unitVariant handleMark handle handleMark).convert r =
        (.invalid "value handle not in registry", r) := by
  refine ⟨Description.keeps, Datum.convert_description, fun handle r hnone => ?_⟩
  have hrun : (Datum.unitVariant handleMark handle handleMark).description.run r.running =
      (.error "value handle not in registry", r.running) := by
    rw [Datum.run_description]
    exact takeVariant_of_lookup_eq_none hnone
  rw [← Datum.convert_description, Description.convert_eq, hrun]
  rfl

/-- Values as keys and as data, parts that fail and a value of its own, while the handles wrap around. -/
theorem conversions_keep_registry_wrapped :
    let d : Datum := .map none [
      (.value (.string "k"), .value (.callable "f")),
      (.failing "x", .unit),
      (.string "c", .converted (.seq none [.value .undefined, .failing "y", .flag]))]
    let r : Registry := ⟨false, 4294967295, []⟩
    r.waiting = [] ∧ d.description.Keeps r ∧
      ((d.description.moments r.running).map Moment.event)[2]? = some (.left 0 (.string "k")) ∧
      d.convert r = (.map [("k", .callable "f"), ("c", .seq [.undefined, .invalid "y", .bool true])],
        ⟨false, 3, []⟩) := by
  intro d r
  exact ⟨rfl, conversions_keep_registry.1 d.description r, by cbv, by cbv⟩

end Stencil

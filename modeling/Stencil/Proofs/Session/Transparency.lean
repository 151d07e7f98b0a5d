import Stencil.Proofs.Cache.Consistency
import Stencil.Session

/-!
# The cache cannot be seen

A session that keeps no trees at all gives the same answers, with the same effects on
the host, as a session whose environments keep theirs in caches, shared or not.

* `Uncached`: the globals of the environments, and which one is in use;
* `Uncached.step`: what a step does without caches;
* `Session.Consistent`: the invariant, all caches are consistent;
* `Session.step_uncached`, `Session.run_uncached`: the simulation, of one step and of
  a run;
* `Session.run_eq_uncached`: the answers of every session that starts with empty
  caches.
-/

namespace Stencil

open Template (parseTree)

/-- Environments without caches: their globals, and which one is in use. -/
structure Uncached where
  members : List (Entries Value)
  current : Nat

variable {σ : Type}

namespace Uncached

/-- The globals of the environment at a place. -/
def globalsAt (u : Uncached) (place : Nat) : Entries Value := u.members[place]?.getD []

/-- The globals of the environment in use. -/
def globals (u : Uncached) : Entries Value := u.globalsAt u.current

/-- Gives the environment in use other globals. -/
def setGlobals (u : Uncached) (globals : Entries Value) : Uncached :=
  { u with members := u.members.set u.current globals }

theorem setGlobals_globals (u : Uncached) : u.setGlobals u.globals = u := by
  rw [setGlobals, globals, globalsAt]
  by_cases h : u.current < u.members.length
  · rw [List.getElem?_eq_getElem h, Option.getD_some, List.set_getElem_self]
  · rw [List.set_eq_of_length_le (by omega)]

/-- Takes a step: its answer, and the environments afterwards. Sources are read afresh,
and what only concerns caches does nothing. -/
def step (host : Host σ) (u : Uncached) : Session.Step → StateM σ (Session.Answer × Uncached)
  | .addGlobal name v => return (.done, u.setGlobals (u.globals.insert name v))
  | .removeGlobal name => return (.done, u.setGlobals (u.globals.erase name))
  | .setCapacity _ => return (.done, u)
  | .clear => return (.done, u)
  | .use place => return (.done, { u with current := place })
  | .copy =>
    return (.place u.members.length, { u with members := u.members ++ u.members[u.current]?.toList })
  | .parse source => return (.tree (parseTree source), u)
  | .render source ctx withGlobals => do
    let result ← (renderAfresh host u.globals source ctx withGlobals).run
    return (.text result, u)

/-- Takes steps one after the other. -/
def run (host : Host σ) : Uncached → List Session.Step → StateM σ (List Session.Answer × Uncached)
  | u, [] => return ([], u)
  | u, step :: rest => do
    let (answer, u) ← u.step host step
    let (answers, u) ← run host u rest
    return (answer :: answers, u)

end Uncached

namespace Session

/-- The session without its caches. -/
def uncached (s : Session) : Uncached := { members := s.members.map Member.globals, current := s.current }

/-- All caches are consistent. -/
def Consistent (s : Session) : Prop := ∀ c ∈ s.caches, c.Consistent

variable {s : Session} {e : Environment}

/-! ## Taking environments out and putting them back -/

theorem Consistent.view (h : s.Consistent) (place : Nat) : (s.view place).cache.Consistent := by
  rw [Session.view]
  split
  · rename_i m _
    cases hc : s.caches[m.cache]? with
    | none => exact Cache.consistent_empty _
    | some c => exact h c (List.mem_of_getElem? hc)
  · exact Cache.consistent_empty _

theorem Consistent.put (h : s.Consistent) (he : e.cache.Consistent) (place : Nat) :
    (s.put place e).Consistent := by
  rw [Session.put]
  split
  · intro c hc
    rcases List.mem_or_eq_of_mem_set hc with hc | rfl
    · exact h c hc
    · exact he
  · exact h

theorem globals_view (s : Session) (place : Nat) :
    (s.view place).globals = s.uncached.globalsAt place := by
  rw [Session.view, Uncached.globalsAt, uncached, List.getElem?_map]
  cases s.members[place]? with
  | none => rfl
  | some m => rfl

theorem globals_environment (s : Session) : s.environment.globals = s.uncached.globals :=
  s.globals_view s.current

theorem uncached_update (s : Session) (e : Environment) :
    (s.update e).uncached = s.uncached.setGlobals e.globals := by
  rw [update, put, uncached, Uncached.setGlobals, uncached]
  split
  · simp only [List.map_set]
  · rename_i hm
    rw [List.set_eq_of_length_le (by simpa using hm)]

/-- Giving the environment in use another cache changes no globals. -/
theorem uncached_update_cache (s : Session) (c : Cache) :
    (s.update ⟨s.environment.globals, c⟩).uncached = s.uncached := by
  rw [uncached_update, globals_environment, Uncached.setGlobals_globals]

theorem Consistent.update (h : s.Consistent) (he : e.cache.Consistent) : (s.update e).Consistent :=
  h.put he s.current

theorem uncached_setCapacity (s : Session) (capacity : Nat) :
    (s.setCapacity capacity).uncached = s.uncached := by
  simp only [uncached, setCapacity, Uncached.mk.injEq, and_true]
  refine List.ext_getElem? fun i => ?_
  rw [List.getElem?_map, List.getElem?_modify, List.getElem?_map]
  cases s.members[i]? with
  | none => rfl
  | some m => split <;> rfl

theorem Consistent.setCapacity (h : s.Consistent) (capacity : Nat) :
    (s.setCapacity capacity).Consistent := by
  intro c hc
  rcases List.mem_append.1 hc with hc | hc
  · exact h c hc
  · rw [List.mem_singleton.1 hc]
    exact Cache.consistent_empty capacity

theorem uncached_copy (s : Session) :
    s.copy.uncached =
      { s.uncached with
        members := s.uncached.members ++ s.uncached.members[s.uncached.current]?.toList } := by
  simp only [uncached, copy, List.map_append, List.getElem?_map, Uncached.mk.injEq, and_true]
  cases s.members[s.current]? with
  | none => rfl
  | some m => rfl

/-! ## Simulation -/

/-- What a step does to a session of consistent caches, it does without the caches. -/
theorem step_uncached (h : s.Consistent) (host : Host σ) (step : Step) (st : σ) :
    ∃ answer s' st', s.step host step st = ((answer, s'), st') ∧
      s.uncached.step host step st = ((answer, s'.uncached), st') ∧ s'.Consistent := by
  have he : s.environment.cache.Consistent := h.view s.current
  cases step with
  | addGlobal name v =>
    refine ⟨.done, s.update (s.environment.addGlobal name v), st, rfl, ?_, ?_⟩
    · rw [uncached_update, Environment.addGlobal, globals_environment]
      rfl
    · exact h.update (e := s.environment.addGlobal name v) he
  | removeGlobal name =>
    refine ⟨.done, s.update (s.environment.removeGlobal name), st, rfl, ?_, ?_⟩
    · rw [uncached_update, Environment.removeGlobal, globals_environment]
      rfl
    · exact h.update (e := s.environment.removeGlobal name) he
  | setCapacity capacity =>
    refine ⟨.done, s.setCapacity capacity, st, rfl, ?_, h.setCapacity capacity⟩
    rw [uncached_setCapacity]
    rfl
  | clear =>
    refine ⟨.done, s.clear, st, rfl, ?_, h.update (Cache.consistent_clear _)⟩
    rw [Session.clear, uncached_update_cache]
    rfl
  | use place => exact ⟨.done, s.use place, st, rfl, rfl, h⟩
  | copy =>
    refine ⟨.place s.members.length, s.copy, st, rfl, ?_, h⟩
    have hn : s.uncached.members.length = s.members.length := List.length_map _
    rw [uncached_copy, Uncached.step, hn]
    rfl
  | parse source =>
    obtain ⟨hr, hc⟩ := he.parse source
    refine ⟨.tree (parseTree source),
      s.update ⟨s.environment.globals, (s.environment.cache.parse source).2⟩, st, ?_, ?_, h.update hc⟩
    · rw [← hr]
      rfl
    · rw [uncached_update_cache]
      rfl
  | render source ctx withGlobals =>
    obtain ⟨result, cache, st', hr, ha, hc⟩ := Environment.render_eq he host source ctx withGlobals st
    refine ⟨.text result, s.update ⟨s.environment.globals, cache⟩, st', ?_, ?_, h.update hc⟩
    · simp only [step, bind, StateT.bind, hr]
      rfl
    · rw [globals_environment] at ha
      rw [uncached_update_cache]
      simp only [Uncached.step, bind, StateT.bind, ha]
      rfl

/-- What a run does to a session of consistent caches, it does without the caches. -/
theorem run_uncached (h : s.Consistent) (host : Host σ) (steps : List Step) (st : σ) :
    ∃ answers s' st', s.run host steps st = ((answers, s'), st') ∧
      s.uncached.run host steps st = ((answers, s'.uncached), st') ∧ s'.Consistent := by
  induction steps generalizing s st with
  | nil => exact ⟨_, _, _, rfl, rfl, h⟩
  | cons step rest ih =>
    obtain ⟨answer, s₁, st₁, hs, hu, h₁⟩ := step_uncached h host step st
    obtain ⟨answers, s₂, st₂, hs', hu', h₂⟩ := ih h₁ st₁
    refine ⟨answer :: answers, s₂, st₂, ?_, ?_, h₂⟩
    · simp only [Session.run, bind, StateT.bind, hs, hs']
      rfl
    · simp only [Uncached.run, bind, StateT.bind, hu, hu']
      rfl

/-- Whatever is done to environments whose caches are empty at first, shared or not, every
step answers what it answers without caches and from the same globals. The host may be one
that records its calls, so these are the same as well. Without globals, rendering in one of
the environments that result is rendering the tree of the source. -/
theorem run_eq_uncached (host : Host σ) (members : List Member) (capacities : List Nat) (current : Nat)
    (steps : List Step) (st : σ) :
    ∃ answers s st',
      run host { members, caches := capacities.map fun capacity => { capacity }, current } steps st =
        ((answers, s), st') ∧
      Uncached.run host { members := members.map Member.globals, current } steps st =
        ((answers, s.uncached), st') ∧
      ∀ place source tree ctx st, parseTree source = .ok tree →
        Prod.map Prod.fst id ((s.view place).render host source ctx false st) =
          (render host tree ctx).run st := by
  have hstart : Consistent { members, caches := capacities.map fun capacity => { capacity }, current } := by
    intro c hc
    obtain ⟨capacity, -, rfl⟩ := List.mem_map.1 hc
    exact Cache.consistent_empty capacity
  obtain ⟨answers, s, st', hs, hu, h⟩ := run_uncached hstart host steps st
  refine ⟨answers, s, st', hs, hu, fun place source tree ctx st ht => ?_⟩
  obtain ⟨result, cache, st', hr, ha, -⟩ := Environment.render_eq (h.view place) host source ctx false st
  rw [renderAfresh_of_parseTree ht] at ha
  rw [hr, ha]
  rfl

/-- Two environments share a cache of one tree, which the second fills with a tree of its own. -/
theorem render_shared_cache :
    parseTree "\x7bx\x7d" = .ok ⟨[.call ⟨"x", []⟩]⟩ ∧
      ∃ answers s, run Base.host ⟨[⟨[], 0⟩, ⟨Base.globals, 0⟩], [⟨1, []⟩], 0⟩
          [.parse "a", .use 1, .parse "\x7bx\x7d", .use 0] () = ((answers, s), ()) ∧
        Prod.map Prod.fst id ((s.view 0).render Base.host "\x7bx\x7d" (.map [("x", .bool true)]) false ()) =
          (Stencil.render Base.host ⟨[.call ⟨"x", []⟩]⟩ (.map [("x", .bool true)])).run () := by
  obtain ⟨answers, s, _, hs, -, h⟩ := run_eq_uncached Base.host [⟨[], 0⟩, ⟨Base.globals, 0⟩] [1] 0
    [.parse "a", .use 1, .parse "\x7bx\x7d", .use 0] ()
  exact ⟨rfl, answers, s, hs, h 0 _ _ _ () rfl⟩

end Session

end Stencil

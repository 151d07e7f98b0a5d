import Mathlib.Data.List.Forall2
import Stencil.Proofs.Cache.Queue
import Stencil.Session

/-!
# Caches that environments share

In a session a cache is asked by every environment that uses it, in the order of the
steps. What happens to each cache is told by the requests it got since it was created,
whichever environments they came from, and so every cache of a session is a queue.

* `Ledger`: which cache each environment uses, and the histories of the caches;
* `Ledger.step`: what a step adds to them;
* `Session.Follows`: the caches of a session are what the histories make of them;
* `Session.step_follows`, `Session.run_follows`: one step, and a run;
* `Session.caches_hold_last_insertions`: the caches of every session that starts with
  empty caches.
-/

namespace Stencil

open Cache (Request History HoldsLast)

/-- The place of the cache of each environment, which environment is in use, and the
histories of the caches. -/
structure Ledger where
  places : List Nat
  current : Nat
  histories : List History

namespace Ledger

/-- A request of the environment in use to its cache. -/
def ask (l : Ledger) (r : Request) : Ledger :=
  match l.places[l.current]? with
  | some place => { l with histories := l.histories.modify place (·.ask r) }
  | none => l

/-- The ledger after a step. Rendering reads the source unless its context is invalid;
a new capacity starts a new history; a copy uses the same cache. -/
def step (l : Ledger) : Session.Step → Ledger
  | .addGlobal _ _ | .removeGlobal _ => l
  | .setCapacity capacity =>
    { l with places := l.places.modify l.current fun _ => l.histories.length,
             histories := l.histories ++ [{ capacity }] }
  | .clear => l.ask .clear
  | .use place => { l with current := place }
  | .copy => { l with places := l.places ++ l.places[l.current]?.toList }
  | .parse source => l.ask (.parse source)
  | .render source ctx _ =>
    match ctx.validate with
    | .ok _ => l.ask (.parse source)
    | .error _ => l

/-- The ledger after steps. -/
def run (l : Ledger) (steps : List Session.Step) : Ledger := steps.foldl step l

end Ledger

namespace Session

variable {σ : Type} {s : Session} {l : Ledger}

/-- The caches of the session are the ones that the histories tell, and its environments
use the ones that the ledger says. -/
structure Follows (s : Session) (l : Ledger) : Prop where
  places : s.members.map Member.cache = l.places
  caches : s.caches = l.histories.map History.cache
  current : s.current = l.current

/-! ## Changing the environment in use -/

theorem map_modify {α β : Type} {f : α → α} {g : β → β} {k : α → β} (hk : ∀ a, k (f a) = g (k a))
    (xs : List α) (i : Nat) : (xs.modify i f).map k = (xs.map k).modify i g := by
  refine List.ext_getElem? fun j => ?_
  rw [List.getElem?_map, List.getElem?_modify, List.getElem?_modify, List.getElem?_map]
  cases xs[j]? with
  | none => rfl
  | some a => by_cases hj : i = j <;> simp [hj, hk]

/-- An environment that is put back still uses the same cache. -/
theorem map_cache_update (s : Session) (e : Environment) :
    (s.update e).members.map Member.cache = s.members.map Member.cache := by
  rw [update, put]
  split
  · rename_i m hm
    have hplace : (s.members.map Member.cache)[s.current]? = some m.cache := by simp [hm]
    obtain ⟨hlt, hplace⟩ := List.getElem?_eq_some_iff.mp hplace
    rw [List.map_set, ← hplace, List.set_getElem_self]
  · rfl

/-- Changing the cache of the environment in use changes it where it is held. -/
theorem caches_update (f : Cache → Cache) (s : Session) (globals : Entries Value) :
    (s.update ⟨globals, f s.environment.cache⟩).caches =
      match (s.members.map Member.cache)[s.current]? with
      | some place => s.caches.modify place f
      | none => s.caches := by
  rw [update, put, environment, view, List.getElem?_map]
  cases s.members[s.current]? with
  | none => rfl
  | some m => exact (List.modify_eq_set f m.cache s.caches).symm

theorem current_update (s : Session) (e : Environment) : (s.update e).current = s.current := by
  rw [update, put]
  split <;> rfl

/-- Other globals do not change what the caches are. -/
theorem Follows.update_globals (h : s.Follows l) (globals : Entries Value) :
    (s.update ⟨globals, s.environment.cache⟩).Follows l := by
  refine ⟨(map_cache_update s _).trans h.places, ?_, (current_update s _).trans h.current⟩
  refine (caches_update id s globals).trans (Eq.trans ?_ h.caches)
  split
  · exact List.modify_id _ _
  · rfl

/-- A request of the environment in use is the last one in the history of its cache. -/
theorem Follows.ask (h : s.Follows l) (globals : Entries Value) (r : Request) :
    (s.update ⟨globals, s.environment.cache.ask r⟩).Follows (l.ask r) := by
  have hplaces : (l.ask r).places = l.places ∧ (l.ask r).current = l.current := by
    rw [Ledger.ask]
    split <;> exact ⟨rfl, rfl⟩
  refine ⟨?_, ?_, ?_⟩
  · rw [map_cache_update, h.places, hplaces.1]
  · rw [caches_update (·.ask r), h.places, h.current, h.caches, Ledger.ask]
    split
    · exact (map_modify (fun history => history.cache_ask r) _ _).symm
    · rfl
  · rw [current_update, h.current, hplaces.2]

theorem Follows.setCapacity (h : s.Follows l) (capacity : Nat) :
    (s.setCapacity capacity).Follows (l.step (.setCapacity capacity)) := by
  refine ⟨?_, ?_, h.current⟩
  · simp only [Session.setCapacity, Ledger.step, ← h.places, ← h.current, h.caches, List.length_map]
    exact map_modify (k := Member.cache) (fun _ => rfl) s.members s.current
  · simp only [Session.setCapacity, Ledger.step, h.caches, List.map_append]
    rfl

theorem Follows.copy (h : s.Follows l) : s.copy.Follows (l.step .copy) := by
  refine ⟨?_, h.caches, h.current⟩
  simp only [Session.copy, Ledger.step, ← h.places, ← h.current, List.map_append, List.getElem?_map]
  cases s.members[s.current]? with
  | none => rfl
  | some m => rfl

/-! ## Runs -/

/-- Rendering leaves the globals alone, and asks the cache for the source if the context is
valid. -/
theorem render_environment (host : Host σ) (e : Environment) (source : String) (ctx : Value)
    (withGlobals : Bool) (st : σ) :
    ∃ result st', e.render host source ctx withGlobals st =
      ((result, ⟨e.globals,
        match ctx.validate with
        | .ok _ => e.cache.ask (.parse source)
        | .error _ => e.cache⟩), st') := by
  rw [Environment.render]
  cases ctx.validate with
  | error err => exact ⟨_, _, rfl⟩
  | ok ctx =>
    simp only [Environment.parse]
    cases hr : (e.cache.parse source).1 with
    | error err => exact ⟨_, _, rfl⟩
    | ok tree => exact ⟨_, _, rfl⟩

/-- A step keeps the session in line with the ledger. -/
theorem step_follows (h : s.Follows l) (host : Host σ) (step : Step) (st : σ) :
    ∃ answer s' st', s.step host step st = ((answer, s'), st') ∧ s'.Follows (l.step step) := by
  cases step with
  | addGlobal name v => exact ⟨_, _, st, rfl, h.update_globals _⟩
  | removeGlobal name => exact ⟨_, _, st, rfl, h.update_globals _⟩
  | setCapacity capacity => exact ⟨_, _, st, rfl, h.setCapacity capacity⟩
  | clear => exact ⟨_, _, st, rfl, h.ask _ .clear⟩
  | use place => exact ⟨_, _, st, rfl, ⟨h.places, h.caches, rfl⟩⟩
  | copy => exact ⟨_, _, st, rfl, h.copy⟩
  | parse source => exact ⟨_, _, st, rfl, h.ask _ (.parse source)⟩
  | render source ctx withGlobals =>
    obtain ⟨result, st', hr⟩ := render_environment host s.environment source ctx withGlobals st
    refine ⟨_, _, st', by simp only [Session.step, bind, StateT.bind, hr]; rfl, ?_⟩
    rw [Ledger.step]
    cases ctx.validate with
    | ok _ => exact h.ask _ (.parse source)
    | error _ => exact h.update_globals _

/-- A run keeps the session in line with the ledger. -/
theorem run_follows (h : s.Follows l) (host : Host σ) (steps : List Step) (st : σ) :
    ∃ answers s' st', s.run host steps st = ((answers, s'), st') ∧ s'.Follows (l.run steps) := by
  induction steps generalizing s l st with
  | nil => exact ⟨_, _, _, rfl, h⟩
  | cons step rest ih =>
    obtain ⟨answer, s₁, st₁, hs, h₁⟩ := step_follows h host step st
    obtain ⟨answers, s₂, st₂, hs', h₂⟩ := ih h₁ st₁
    refine ⟨answer :: answers, s₂, st₂, ?_, h₂⟩
    simp only [Session.run, bind, StateT.bind, hs, hs']
    rfl

/-- Environments use caches of some capacities, several of them the same cache perhaps.
Whatever is done, each cache is a queue: it holds, in order, the last insertions since it
was created or last cleared, as many as its capacity lets it hold, whichever environments
they came from. What is held or cannot be read changes nothing, and making room for what
comes in comes to an end. -/
theorem caches_hold_last_insertions (host : Host σ) (members : List Member) (capacities : List Nat)
    (current : Nat) (steps : List Step) (st : σ) :
    ∃ answers s st',
      run host { members, caches := capacities.map fun capacity => { capacity }, current } steps st =
        ((answers, s), st') ∧
      List.Forall₂ (fun (c : Cache) (h : History) => c.HoldsLast h.capacity h.insertions) s.caches
        (Ledger.run ⟨members.map Member.cache, current, capacities.map fun capacity => { capacity }⟩
          steps).histories := by
  have hstart : Follows { members, caches := capacities.map fun capacity => { capacity }, current }
      ⟨members.map Member.cache, current, capacities.map fun capacity => { capacity }⟩ :=
    ⟨rfl, by simp [History.cache], rfl⟩
  obtain ⟨answers, s, st', hs, h⟩ := run_follows hstart host steps st
  refine ⟨answers, s, st', hs, ?_⟩
  rw [h.caches, List.forall₂_map_left_iff, List.forall₂_same]
  exact fun history _ => history.holdsLast

end Session

end Stencil

import Stencil.Environment

/-!
# Sessions

A session works on a list of environments, one of which is in use. A copy of an
environment has globals of its own and shares the cache, until one of the two is
given a new one.

* `Session.view`, `Session.put`: an environment with its cache, taken out and
  put back;
* `Session.step`: what one step does to the session and to the host, and what it
  answers;
* `Session.run`: the answers to a list of steps.
-/

namespace Stencil

open Template (Tree)

/-- An environment of a session: its globals, and the place of its cache. -/
structure Member where
  globals : Entries Value
  cache : Nat

/-- Environments, the caches they share, and which environment is in use. -/
structure Session where
  members : List Member
  caches : List Cache
  current : Nat := 0

namespace Session

/-- A session on one environment. -/
def start (e : Environment) : Session :=
  { members := [⟨e.globals, 0⟩], caches := [e.cache] }

/-- The environment at a place. -/
def view (s : Session) (place : Nat) : Environment :=
  match s.members[place]? with
  | some m => ⟨m.globals, s.caches[m.cache]?.getD default⟩
  | none => default

/-- Puts an environment back in a place; its cache goes back for all that share it. -/
def put (s : Session) (place : Nat) (e : Environment) : Session :=
  match s.members[place]? with
  | some m =>
    { s with members := s.members.set place { m with globals := e.globals },
             caches := s.caches.set m.cache e.cache }
  | none => s

/-- The environment in use. -/
def environment (s : Session) : Environment := s.view s.current

/-- Changes the environment in use. -/
def update (s : Session) (e : Environment) : Session := s.put s.current e

/-- Uses another environment from now on. -/
def use (s : Session) (place : Nat) : Session := { s with current := place }

/-- Adds a copy of the environment in use, which shares the cache. -/
def copy (s : Session) : Session :=
  { s with members := s.members ++ s.members[s.current]?.toList }

/-- Gives the environment in use an empty cache of its own. Copies keep the old one. -/
def setCapacity (s : Session) (capacity : Nat) : Session :=
  { s with members := s.members.modify s.current fun m => { m with cache := s.caches.length },
           caches := s.caches ++ [{ capacity }] }

/-- Empties the cache of the environment in use. -/
def clear (s : Session) : Session :=
  let e := s.environment
  s.update { e with cache := e.cache.clear }

/-! ## Steps -/

/-- A step of a session. -/
inductive Step
  | addGlobal (name : String) (v : Value)
  | removeGlobal (name : String)
  /-- Gives the environment in use an empty cache of its own. -/
  | setCapacity (capacity : Nat)
  /-- Empties the cache of the environment in use. -/
  | clear
  /-- Uses another environment from now on. -/
  | use (place : Nat)
  /-- Adds a copy of the environment in use; the copy shares its cache. -/
  | copy
  | parse (source : String)
  | render (source : String) (ctx : Value) (withGlobals : Bool)

/-- What a step answers. -/
inductive Answer
  | done
  /-- The place of a copy. -/
  | place (n : Nat)
  | tree (result : Except Error Tree)
  | text (result : Except Error String)

variable {σ : Type}

/-- Takes a step: its answer, and the session afterwards. -/
def step (host : Host σ) (s : Session) : Step → StateM σ (Answer × Session)
  | .addGlobal name v => return (.done, s.update (s.environment.addGlobal name v))
  | .removeGlobal name => return (.done, s.update (s.environment.removeGlobal name))
  | .setCapacity capacity => return (.done, s.setCapacity capacity)
  | .clear => return (.done, s.clear)
  | .use place => return (.done, s.use place)
  | .copy => return (.place s.members.length, s.copy)
  | .parse source =>
    let (result, e) := s.environment.parse source
    return (.tree result, s.update e)
  | .render source ctx withGlobals => do
    let (result, e) ← s.environment.render host source ctx withGlobals
    return (.text result, s.update e)

/-- Takes steps one after the other. -/
def run (host : Host σ) : Session → List Step → StateM σ (List Answer × Session)
  | s, [] => return ([], s)
  | s, step :: rest => do
    let (answer, s) ← s.step host step
    let (answers, s) ← run host s rest
    return (answer :: answers, s)

end Session

end Stencil

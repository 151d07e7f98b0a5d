import Stencil.Cache
import Stencil.Function.Base
import Stencil.Render
import Stencil.Value.Merge

/-!
# Environments

An environment holds the globals that its templates see below their context, and
a cache of the trees that it has read.

* `Environment.new`, `Environment.empty`: with the base functions, and with
  nothing;
* `Environment.render`: reads and renders a template.
-/

namespace Stencil

open Template (Tree)

/-- Globals and a cache of trees. -/
structure Environment where
  globals : Entries Value := []
  cache : Cache := default

namespace Environment

instance : Inhabited Environment := ⟨{}⟩

/-- An environment without globals. -/
def empty : Environment := {}

/-- An environment with the base functions. -/
def new : Environment := { globals := Base.globals }

/-- Adds a global, in the place of one of the same name. -/
def addGlobal (e : Environment) (name : String) (v : Value) : Environment :=
  { e with globals := e.globals.insert name v }

/-- Removes a global. -/
def removeGlobal (e : Environment) (name : String) : Environment :=
  { e with globals := e.globals.erase name }

/-- Reads a template through the cache. -/
def parse (e : Environment) (source : String) : Except Error Tree × Environment :=
  let (result, cache) := e.cache.parse source
  (result, { e with cache })

/-- The context that a template sees: the given one, over the globals if they are
included. -/
def context (e : Environment) (ctx : Value) (withGlobals : Bool) : Value :=
  if withGlobals then .merge [.map e.globals, ctx] else ctx

variable {σ : Type}

/-- Reads and renders a template, and gives the environment afterwards. An invalid
context stops the run before the source is read, and a source that cannot be read stops
it before any function is called. -/
def render (host : Host σ) (e : Environment) (source : String) (ctx : Value)
    (withGlobals : Bool) : StateM σ (Except Error String × Environment) := do
  match ctx.validate with
  | .error err => return (.error err, e)
  | .ok ctx =>
    match e.parse source with
    | (.error err, e) => return (.error err, e)
    | (.ok tree, e) =>
      let result ← (tree.render host (e.context ctx withGlobals)).run
      return (result, e)

/-- The structural view lists the names of the globals and shows the cache. -/
def outline (e : Environment) : Text.Outline :=
  .record "Environment"
    [("globals", .list (e.globals.names.map .ofString)), ("cache", e.cache.outline)]

end Environment

end Stencil

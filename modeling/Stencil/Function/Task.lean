import Stencil.Function.Parameter

/-!
# Functions with effects

A function of the host works on the host's state. It either runs through at
once, or suspends between parts of its work; whoever calls it waits until it is
done, so all its effects come before those of the next call.

* `Task.run`: the work of a call up to its end;
* `Function.call`: binds the arguments, then runs the task;
* `Value.call`: calls a value, which is an error unless it is callable.
-/

namespace Stencil

variable {σ : Type}

/-- A computation that may fail and changes the state of the host. -/
abbrev Effect (σ : Type) := ExceptT Error (StateM σ)

/-- A result as a computation without effects. -/
def Effect.ofExcept {α : Type} (r : Except Error α) : Effect σ α :=
  match r with
  | .ok a => return a
  | .error e => throw e

/-- The work of a function: a last part with a result, after parts with effects alone. -/
inductive Task (σ : Type)
  | done (last : Effect σ Value)
  | suspend (part : σ → σ) (rest : Task σ)

/-- Runs a task to its end. -/
def Task.run : Task σ → Effect σ Value
  | done last => last
  | suspend part rest => do
    modifyThe σ part
    rest.run

/-- A function of the host: its parameters and its work. -/
structure Function (σ : Type) where
  params : List Parameter
  body : Arguments params → Task σ

namespace Function

/-- A function that only computes a value. -/
def pure (params : List Parameter) (f : Arguments params → Value) : Function σ :=
  ⟨params, fun args => .done (return f args)⟩

/-- A function that fails or computes a value. -/
def fallible (params : List Parameter) (f : Arguments params → Except Error Value) : Function σ :=
  ⟨params, fun args => .done (.ofExcept (f args))⟩

/-- A function that changes the state at once. -/
def effect (params : List Parameter) (f : Arguments params → Effect σ Value) : Function σ :=
  ⟨params, fun args => .done (f args)⟩

/-- The same function with a suspension before its work. -/
def suspended (f : Function σ) : Function σ :=
  ⟨f.params, fun args => .suspend id (f.body args)⟩

/-- Calls a function. -/
def call (f : Function σ) (args : List Value) : Effect σ Value :=
  match bindArguments f.params args with
  | .error m => throw m.toError
  | .ok xs => (f.body xs).run

end Function

/-- What calling a callable by its name does. -/
abbrev Host (σ : Type) := String → List Value → Effect σ Value

/-- The host of a table of functions; a name outside the table takes anything and gives
undefined. -/
def Host.ofFunctions (functions : List (String × Function σ)) : Host σ := fun name args =>
  match functions.lookup name with
  | some f => f.call args
  | none => return .undefined

/-- Calls a value. -/
def Value.call (host : Host σ) (v : Value) (args : List Value) : Effect σ Value :=
  match v with
  | .callable name => host name args
  | _ => throw (.ofKind .invalidOperation (v.kind.description ++ " is not callable"))

end Stencil

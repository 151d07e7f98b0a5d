import Stencil.Function.Task

/-!
# Base functions

The functions that a new environment knows: `if`, `and`, `or`, `not` and
`concat`. Arguments are always evaluated before a function runs.
-/

namespace Stencil.Base

variable {σ : Type}

/-- The second argument if the first is true, and the third otherwise. -/
def choose : Function σ :=
  .pure [.value, .value, .value] fun (condition, yes, no, ()) => if condition.isTrue then yes else no

/-- All arguments are true. -/
def all : Function σ := .pure [.rest .value] fun (vs, ()) => .bool (vs.all Value.isTrue)

/-- Some argument is true. -/
def any : Function σ := .pure [.rest .value] fun (vs, ()) => .bool (vs.any Value.isTrue)

/-- The argument is false. -/
def not : Function σ := .pure [.value] fun (v, ()) => .bool (!v.isTrue)

/-- The plain texts of all arguments, joined. -/
def concat : Function σ :=
  .pure [.rest .value] fun (vs, ()) => .string (String.join (vs.map Value.display))

/-- The base functions by name, in the order in which an environment lists them. -/
def functions : List (String × Function σ) :=
  [("if", choose), ("and", all), ("or", any), ("not", not), ("concat", concat)]

/-- The host of the base functions. -/
def host : Host σ := .ofFunctions functions

/-- The globals that hold the base functions. -/
def globals : Entries Value :=
  ["if", "and", "or", "not", "concat"].map fun name => (name, .callable name)

end Stencil.Base

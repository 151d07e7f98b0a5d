import Stencil.Function.Task
import Stencil.Path
import Stencil.Template.Basic

/-!
# Rendering

A tree is rendered against a context. Its nodes, and the arguments of each call,
are evaluated from left to right; a path that leads to a callable is called with
its arguments, and any other is its value, its arguments left alone.

* `Template.Call.eval`: the value of a call;
* `Template.Tree.render`: the text of a tree;
* `render`: the same for a context that is checked first.
-/

namespace Stencil

variable {σ : Type}

namespace Template

/-- The value at a path, called with arguments if it is callable. The arguments are
not evaluated otherwise. -/
def lookUp (host : Host σ) (ctx : Value) (path : String) (args : Effect σ (List Value)) :
    Effect σ Value := do
  let v := Path.resolve ctx path
  if v.isCallable then
    v.call host (← args)
  else
    return v

mutual

/-- The value of an argument. -/
def Argument.eval (host : Host σ) (ctx : Value) : Argument → Effect σ Value
  | .string s => return .string s
  | .number x => return .float x
  | .call path args => lookUp host ctx path (Argument.evalAll host ctx args)

/-- The values of arguments, from left to right. -/
def Argument.evalAll (host : Host σ) (ctx : Value) : List Argument → Effect σ (List Value)
  | [] => return []
  | a :: rest => do
    let v ← a.eval host ctx
    return v :: (← Argument.evalAll host ctx rest)

end

/-- The value of a call. -/
def Call.eval (host : Host σ) (ctx : Value) (c : Call) : Effect σ Value :=
  lookUp host ctx c.path (Argument.evalAll host ctx c.args)

/-- The text of a value that a template prints; an invalid value is an error. -/
def printed (v : Value) : Except Error String := v.validate.map Value.display

/-- The text of a node. -/
def Node.render (host : Host σ) (ctx : Value) : Node → Effect σ String
  | .text s => return s
  | .call c => do .ofExcept (printed (← c.eval host ctx))

/-- The text of nodes after what is written already. -/
def renderNodes (host : Host σ) (ctx : Value) : List Node → String → Effect σ String
  | [], out => return out
  | node :: rest, out => do
    let text ← node.render host ctx
    renderNodes host ctx rest (out ++ text)

/-- The text of a tree. -/
def Tree.render (host : Host σ) (ctx : Value) (t : Tree) : Effect σ String :=
  renderNodes host ctx t.nodes ""

end Template

/-- The text of a tree in a context; an invalid context is an error. -/
def render (host : Host σ) (tree : Template.Tree) (ctx : Value) : Effect σ String := do
  tree.render host (← .ofExcept ctx.validate)

end Stencil

import Stencil.Text.Outline
import Stencil.Decimal.Layout

/-!
# Templates

A template is a list of nodes: literal text, or an injected variable given as a
path with arguments. Arguments are texts, numbers and nested calls.

* `Tree.equal`: equality node by node, numbers compared as numbers;
* `Tree.outline`: the structural view.
-/

namespace Stencil.Template

open Text (Outline)
open Decimal (Layout)

/-- An argument of a call. A nested call without arguments is a plain reference. -/
inductive Argument
  | string (s : String)
  | number (x : Float)
  | call (path : String) (args : List Argument)

/-- A path with arguments. The forms `{a}` and `{a()}` are the same call. -/
structure Call where
  path : String
  args : List Argument

/-- A piece of a template. -/
inductive Node
  | text (s : String)
  | call (c : Call)

/-- A template that has been read. -/
structure Tree where
  nodes : List Node

instance : Inhabited Tree := ⟨⟨[]⟩⟩

/-! ## Equality -/

mutual

/-- Two arguments are equal; a number that is not a number differs from itself. -/
def Argument.equal : Argument → Argument → Bool
  | .string a, .string b => a == b
  | .number a, .number b => a == b
  | .call p as, .call q bs => p == q && Argument.equalAll as bs
  | _, _ => false

/-- Two argument lists are equal one by one. -/
def Argument.equalAll : List Argument → List Argument → Bool
  | [], [] => true
  | a :: as, b :: bs => a.equal b && Argument.equalAll as bs
  | _, _ => false

end

/-- Two calls have the same path and equal arguments. -/
def Call.equal (a b : Call) : Bool := a.path == b.path && Argument.equalAll a.args b.args

/-- Two nodes are equal. -/
def Node.equal : Node → Node → Bool
  | .text a, .text b => a == b
  | .call a, .call b => a.equal b
  | _, _ => false

/-- Two trees have equal nodes in the same order. -/
def Tree.equal (a b : Tree) : Bool :=
  a.nodes.length == b.nodes.length && (a.nodes.zip b.nodes).all fun (x, y) => x.equal y

instance : BEq Tree := ⟨Tree.equal⟩

/-! ## Structural views -/

/-- A call shows its path, and its arguments if there are any. -/
def Call.outlineOf (path : String) (args : List Outline) : Outline :=
  .record "Var" <|
    ("path", .ofString path) :: if args.isEmpty then [] else [("args", .list args)]

mutual

/-- The structural view of an argument. -/
def Argument.outline : Argument → Outline
  | .string s => .ofString s
  | .number x => .atom (Layout.structural.write x)
  | .call path args => Call.outlineOf path (Argument.outlines args)

/-- The structural views of arguments. -/
def Argument.outlines : List Argument → List Outline
  | [] => []
  | a :: rest => a.outline :: Argument.outlines rest

end

/-- The structural view of a node. -/
def Node.outline : Node → Outline
  | .text s => .tuple "Text" [.ofString s]
  | .call c => Call.outlineOf c.path (Argument.outlines c.args)

/-- The structural view of a tree. -/
def Tree.outline (t : Tree) : Outline := .list (t.nodes.map Node.outline)

end Stencil.Template

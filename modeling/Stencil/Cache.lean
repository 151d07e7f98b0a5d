import Stencil.Template.Reader

/-!
# Caches of trees

A cache holds the trees of templates by their source, up to a capacity. When it
is full the oldest entry goes; a look-up does not make an entry younger. A
source that cannot be read is not held, and a capacity of zero holds nothing.

* `Cache.parse`: the tree of a source, and the cache afterwards.
-/

namespace Stencil

open Template (Tree)

/-- A bounded cache, oldest entry first. -/
structure Cache where
  capacity : Nat
  entries : List (String × Tree) := []

namespace Cache

/-- The capacity of a cache that is not given one. -/
def defaultCapacity : Nat := 100

instance : Inhabited Cache := ⟨{ capacity := defaultCapacity }⟩

/-- The tree that is held for a source. -/
def find? (c : Cache) (source : String) : Option Tree := c.entries.lookup source

/-- The source is held. -/
def contains (c : Cache) (source : String) : Bool := (c.find? source).isSome

/-- The number of trees. -/
def length (c : Cache) : Nat := c.entries.length

/-- Adds a tree and drops the oldest ones that leave no room for it. -/
def store (c : Cache) (source : String) (tree : Tree) : Cache :=
  if c.capacity = 0 then c
  else { c with entries := c.entries.drop (c.length + 1 - c.capacity) ++ [(source, tree)] }

/-- Removes all trees. -/
def clear (c : Cache) : Cache := { c with entries := [] }

/-- The tree of a source, and the cache that holds it afterwards. -/
def parse (c : Cache) (source : String) : Except Error Tree × Cache :=
  match c.find? source with
  | some tree => (.ok tree, c)
  | none =>
    match Template.parseTree source with
    | .ok tree => (.ok tree, c.store source tree)
    | .error e => (.error e, c)

/-- The structural view tells the capacity and the number of trees. -/
def outline (c : Cache) : Text.Outline :=
  .record "TemplateCache"
    [("capacity", .atom (toString c.capacity)), ("len", .atom (toString c.length))]

end Cache

end Stencil

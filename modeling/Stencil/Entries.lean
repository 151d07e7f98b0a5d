/-!
# Entries in insertion order

A finite map from names as the list of its entries, in the order in which the
names were first inserted. Writing to a name that is there keeps its place.

* `insert`, `erase`: write and remove an entry;
* `merge`: write all entries of a second map over a first;
* `get?_insert`: what a look-up sees after a write;
* `sizeOf_lt_of_get?`: a function on nested maps may go on with what it finds.
-/

namespace Stencil

/-- A map from names, in insertion order. -/
abbrev Entries (α : Type) := List (String × α)

namespace Entries

variable {α : Type}

/-- The entry under a name. -/
def get? (es : Entries α) (name : String) : Option α := es.lookup name

/-- The names in order. -/
def names (es : Entries α) : List String := es.map Prod.fst

/-- Writes an entry: in place if the name is there, at the end otherwise. -/
def insert : Entries α → String → α → Entries α
  | [], name, a => [(name, a)]
  | (n, b) :: rest, name, a => if n = name then (n, a) :: rest else (n, b) :: insert rest name a

/-- Removes the entry under a name. -/
def erase (es : Entries α) (name : String) : Entries α := es.eraseP (·.1 = name)

/-- Writes the entries of `new` over `es`, in order. -/
def merge (es new : Entries α) : Entries α :=
  new.foldl (fun m (name, a) => m.insert name a) es

/-- The map that a list of pairs makes: first places, last values. -/
def ofList (pairs : List (String × α)) : Entries α := merge [] pairs

theorem get?_insert (es : Entries α) (name other : String) (a : α) :
    get? (insert es name a) other = if other = name then some a else get? es other := by
  unfold get?
  induction es with
  | nil => by_cases h : other = name <;> grind [insert]
  | cons e rest ih =>
    obtain ⟨n, b⟩ := e
    by_cases hn : n = name <;> by_cases ho : other = n <;> grind [insert]

/-- What is found in a map is smaller than the map. -/
theorem sizeOf_lt_of_get? [SizeOf α] {es : Entries α} {name : String} {a : α}
    (h : es.get? name = some a) : sizeOf a < sizeOf es := by
  induction es with
  | nil => cases h
  | cons e rest ih =>
    obtain ⟨n, b⟩ := e
    rw [List.cons.sizeOf_spec, Prod.mk.sizeOf_spec]
    rw [get?, List.lookup_cons] at h
    split at h
    · cases h
      omega
    · have := ih h
      omega

end Entries

end Stencil

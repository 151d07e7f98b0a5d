import Mathlib.Data.List.DropRight
import Stencil.Cache

/-!
# Caches are queues

Whatever is asked of a cache, it holds the sources that came in last, in the order in
which they came in, as many as its capacity lets it hold. Which requests bring a source
in depends on what is held when they come: a source may come in, be dropped to make room,
and come in again.

* `Cache.Request`, `Cache.ask`: what can be asked of a cache, and the cache afterwards;
* `Cache.History`: all that was asked of a cache since it was created;
* `Cache.History.insertions`: the sources that came in since it was created or last
  cleared;
* `Cache.Evicts`: dropping oldest entries, one at a time, until there is room for one more;
* `Cache.HoldsLast`: what it means to be a queue of some capacity over a list of
  insertions;
* `Cache.History.holdsLast`: every cache is one, whatever was asked of it.
-/

namespace Stencil

open Template (Tree parseTree)

namespace Cache

/-! ## Requests -/

/-- What can be asked of a cache. -/
inductive Request
  | parse (source : String)
  | clear

/-- The cache after a request. -/
def ask (c : Cache) : Request → Cache
  | .parse source => (c.parse source).2
  | .clear => c.clear

/-- The sources that are held, oldest first. -/
def sources (c : Cache) : List String := c.entries.map Prod.fst

/-- Reading the source brings it in: it is not held, and it can be read. -/
def inserts (c : Cache) (source : String) : Bool := !c.contains source && (parseTree source).isOk

/-- The list of insertions after a request. -/
def record (c : Cache) (log : List String) : Request → List String
  | .parse source => if c.inserts source then log ++ [source] else log
  | .clear => []

variable {c : Cache} {log : List String} {source : String} {tree : Tree} {α : Type}

theorem contains_iff_mem_sources : c.contains source = true ↔ source ∈ c.sources := by
  simp only [contains, find?, List.lookup_isSome_iff, beq_iff_eq, sources, List.mem_map]
  exact ⟨fun ⟨p, hp, h⟩ => ⟨p, hp, h.symm⟩, fun ⟨p, hp, h⟩ => ⟨p, hp, h.symm⟩⟩

theorem length_sources (c : Cache) : c.sources.length = c.length := List.length_map _

/-- Reading a source that does not come in leaves the cache as it is. -/
theorem parse_of_not_inserts (h : c.inserts source = false) : (c.parse source).2 = c := by
  simp only [inserts, contains, Bool.and_eq_false_iff, Bool.not_eq_false'] at h
  rw [parse]
  split
  · rfl
  · rename_i hf
    split
    · rename_i tree hp
      rw [hf, hp] at h
      simp [Except.isOk, Except.toBool] at h
    · rfl

theorem parse_of_inserts (hc : c.contains source = false) (hp : parseTree source = .ok tree) :
    (c.parse source).2 = c.store source tree := by
  have hf : c.find? source = none := by simpa [contains] using hc
  simp only [parse, hf, hp]

theorem exists_tree_of_inserts (h : c.inserts source = true) :
    c.contains source = false ∧ ∃ tree, parseTree source = .ok tree := by
  simp only [inserts, Bool.and_eq_true, Bool.not_eq_true'] at h
  refine ⟨h.1, ?_⟩
  cases hp : parseTree source with
  | ok tree => exact ⟨tree, rfl⟩
  | error e => simp [hp, Except.isOk, Except.toBool] at h

/-! ## Making room -/

/-- Dropping the oldest of the entries for as long as they fill the capacity comes to an
end and leaves `kept`. -/
inductive Evicts (capacity : Nat) : List α → List α → Prop
  | done {es : List α} : es.length < capacity → Evicts capacity es es
  | next {es kept : List α} : capacity ≤ es.length → Evicts capacity es.tail kept → Evicts capacity es kept

variable {capacity : Nat}

/-- With a capacity at all, making room comes to an end, with the entries that `store`
keeps. -/
theorem evicts_drop (hc : 0 < capacity) (es : List α) :
    Evicts capacity es (es.drop (es.length + 1 - capacity)) := by
  induction es with
  | nil =>
    rw [List.drop_nil]
    exact .done hc
  | cons e es ih =>
    by_cases hlen : (e :: es).length < capacity
    · rw [Nat.sub_eq_zero_of_le hlen, List.drop_zero]
      exact .done hlen
    · refine .next (Nat.le_of_not_lt hlen) ?_
      have hdrop : (e :: es).length + 1 - capacity = es.length + 1 - capacity + 1 := by
        simp only [List.length_cons] at hlen ⊢
        omega
      rwa [hdrop, List.drop_succ_cons]

/-! ## The queue -/

/-- A cache that holds the last of the insertions. Reading what is held, or what cannot
be read, changes nothing; otherwise oldest entries are dropped until there is room, and
the source comes last. -/
structure HoldsLast (c : Cache) (capacity : Nat) (log : List String) : Prop where
  capacity_eq : c.capacity = capacity
  sources_eq : c.sources = log.rtake (min capacity log.length)
  length_le : c.length ≤ capacity
  nodup : c.sources.Nodup
  empty : capacity = 0 → c.entries = []
  held : ∀ source, c.contains source = true → (c.parse source).2 = c
  failed : ∀ source e, parseTree source = .error e → (c.parse source).2 = c
  inserted : ∀ source tree, c.contains source = false → parseTree source = .ok tree → 0 < capacity →
    ∃ kept, Evicts capacity c.entries kept ∧ (c.parse source).2.entries = kept ++ [(source, tree)]

/-- The order of the sources and that none is held twice is all there is to show. -/
theorem HoldsLast.of_sources (hs : c.sources = log.rtake (min c.capacity log.length))
    (hn : c.sources.Nodup) : HoldsLast c c.capacity log := by
  have hlen : c.length ≤ c.capacity := by
    rw [← length_sources, hs, List.rtake, List.length_drop]
    omega
  refine ⟨rfl, hs, hlen, hn, fun h0 => ?_, fun source h => ?_, fun source e he => ?_,
    fun source tree hc hp h0 => ?_⟩
  · exact List.eq_nil_of_length_eq_zero (Nat.le_zero.mp (h0 ▸ hlen))
  · exact parse_of_not_inserts (by simp [inserts, h])
  · exact parse_of_not_inserts (by simp [inserts, he, Except.isOk, Except.toBool])
  · refine ⟨_, evicts_drop h0 c.entries, ?_⟩
    rw [parse_of_inserts hc hp, store, if_neg (Nat.pos_iff_ne_zero.mp h0)]
    rfl

theorem holdsLast_clear (c : Cache) : HoldsLast c.clear c.capacity [] :=
  .of_sources (c := c.clear) (by simp [sources, clear, List.rtake]) (by simp [sources, clear])

/-- Storing a source drops from the sources what it drops from the entries. -/
theorem sources_store (h0 : c.capacity ≠ 0) (source : String) (tree : Tree) :
    (c.store source tree).sources = c.sources.drop (c.length + 1 - c.capacity) ++ [source] := by
  simp [store, h0, sources]

/-- A source that comes in becomes the last insertion. -/
theorem HoldsLast.store (h : HoldsLast c capacity log) (hc : c.contains source = false) (tree : Tree) :
    HoldsLast (c.store source tree) capacity (log ++ [source]) := by
  obtain rfl := h.capacity_eq
  by_cases h0 : c.capacity = 0
  · have hsame : c.store source tree = c := if_pos h0
    have hnil : c.sources = [] := by simp [sources, h.empty h0]
    rw [hsame]
    exact .of_sources (by simp [hnil, h0, List.rtake]) h.nodup
  have hlen : c.length = log.length - (log.length - min c.capacity log.length) := by
    rw [← length_sources, h.sources_eq, List.rtake, List.length_drop]
  have hcap : (c.store source tree).capacity = c.capacity := by rw [Cache.store, if_neg h0]
  rw [← hcap]
  refine .of_sources ?_ ?_
  · rw [hcap, sources_store h0, h.sources_eq, List.rtake, List.rtake, List.drop_drop,
      ← List.drop_append_of_le_length (by omega), List.length_append, List.length_singleton]
    congr 1
    omega
  · rw [sources_store h0, List.nodup_append]
    refine ⟨h.nodup.sublist (List.drop_sublist ..), by simp, fun s hs t ht => ?_⟩
    rw [List.mem_singleton.mp ht]
    rintro rfl
    have := contains_iff_mem_sources.mpr (List.mem_of_mem_drop hs)
    simp [hc] at this

/-- Every request leaves a queue over the insertions up to then. -/
theorem HoldsLast.ask (h : HoldsLast c capacity log) (r : Request) :
    HoldsLast (c.ask r) capacity (c.record log r) := by
  cases r with
  | clear =>
    rw [← h.capacity_eq]
    exact holdsLast_clear c
  | parse source =>
    simp only [Cache.ask, record]
    split
    · rename_i hi
      obtain ⟨hc, tree, hp⟩ := exists_tree_of_inserts hi
      rw [parse_of_inserts hc hp]
      exact h.store hc tree
    · rename_i hi
      rwa [parse_of_not_inserts (by simpa using hi)]

/-! ## Histories -/

/-- All that was asked of a cache since it was created. -/
structure History where
  capacity : Nat
  requests : List Request := []

/-- The insertions into a cache after more requests. -/
def insertionsFrom (c : Cache) (log : List String) : List Request → List String
  | [] => log
  | r :: rest => insertionsFrom (c.ask r) (c.record log r) rest

namespace History

/-- The cache after all requests. -/
def cache (h : History) : Cache := h.requests.foldl Cache.ask { capacity := h.capacity }

/-- The insertions into the cache since it was created or last cleared. -/
def insertions (h : History) : List String := insertionsFrom { capacity := h.capacity } [] h.requests

/-- One more request. -/
def ask (h : History) (r : Request) : History := { h with requests := h.requests ++ [r] }

theorem cache_ask (h : History) (r : Request) : (h.ask r).cache = h.cache.ask r := by
  simp only [cache, ask, List.foldl_append, List.foldl_cons, List.foldl_nil]

/-- Whatever was asked of a cache, it is a queue over its insertions. -/
theorem holdsLast (h : History) : HoldsLast h.cache h.capacity h.insertions := by
  -- From any queue on, since the insertions depend on what is held when a request comes.
  have hrun (requests : List Request) {c : Cache} {log : List String} (hq : HoldsLast c h.capacity log) :
      HoldsLast (requests.foldl Cache.ask c) h.capacity (c.insertionsFrom log requests) := by
    induction requests generalizing c log with
    | nil => exact hq
    | cons r rest ih => exact ih (hq.ask r)
  exact hrun h.requests (holdsLast_clear { capacity := h.capacity })

/-- A source that was dropped comes in again. -/
example :
    let h : History := ⟨2, [.parse "a", .parse "b", .parse "a", .parse "c", .parse "a"]⟩
    h.insertions = ["a", "b", "c", "a"] ∧ h.cache.sources = ["c", "a"] :=
  ⟨rfl, rfl⟩

end History

end Cache

end Stencil

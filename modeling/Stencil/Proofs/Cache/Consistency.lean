import Stencil.Environment

/-!
# Consistent caches

A cache is consistent if every tree in it is the one that its source has when it is
read afresh. Everything that is done to a cache keeps it so, and a consistent cache
never changes what reading or rendering a template answers.

* `Cache.Consistent`: the invariant;
* `Cache.Consistent.parse`: reading through a consistent cache;
* `renderAfresh`: rendering a source without a cache;
* `Environment.render_eq`: rendering with a consistent cache is `renderAfresh`.
-/

namespace Stencil

open Template (Tree parseTree)

namespace Cache

/-- Every tree that is held is the tree of its source. -/
def Consistent (c : Cache) : Prop :=
  ∀ source tree, (source, tree) ∈ c.entries → parseTree source = .ok tree

variable {c : Cache} {source : String} {tree : Tree}

theorem consistent_empty (capacity : Nat) : Consistent { capacity } := by
  intro _ _ h
  cases h

theorem Consistent.find? (h : c.Consistent) (hf : c.find? source = some tree) :
    parseTree source = .ok tree := by
  obtain ⟨before, after, he, -⟩ := List.lookup_eq_some_iff.1 hf
  apply h
  rw [he]
  exact List.mem_append_right _ (List.mem_cons_self ..)

theorem Consistent.store (h : c.Consistent) (hp : parseTree source = .ok tree) :
    (c.store source tree).Consistent := by
  intro source' tree' hm
  rw [Cache.store] at hm
  split at hm
  · exact h _ _ hm
  · rcases List.mem_append.1 hm with hm | hm
    · exact h _ _ (List.mem_of_mem_drop hm)
    · rw [List.mem_singleton, Prod.mk.injEq] at hm
      rw [hm.1, hm.2, hp]

theorem consistent_clear (c : Cache) : c.clear.Consistent := by
  intro _ _ h
  cases h

/-- Reading through a consistent cache gives what reading afresh gives, and keeps the
cache consistent. -/
theorem Consistent.parse (h : c.Consistent) (source : String) :
    (c.parse source).1 = parseTree source ∧ (c.parse source).2.Consistent := by
  rw [Cache.parse]
  split
  · rename_i tree hf
    exact ⟨(h.find? hf).symm, h⟩
  · split
    · rename_i tree hp
      exact ⟨hp.symm, h.store hp⟩
    · rename_i e hp
      exact ⟨hp.symm, h⟩

end Cache

/-! ## Environments -/

variable {σ : Type}

/-- Renders a source without a cache: checks the context, reads the source and renders
its tree, against the context over the globals if they are included. -/
def renderAfresh (host : Host σ) (globals : Entries Value) (source : String) (ctx : Value)
    (withGlobals : Bool) : Effect σ String := do
  let ctx ← .ofExcept ctx.validate
  let tree ← .ofExcept (parseTree source)
  tree.render host (if withGlobals then .merge [.map globals, ctx] else ctx)

section

variable {source : String} {ctx : Value} {globals : Entries Value} {withGlobals : Bool}

theorem renderAfresh_of_invalid (host : Host σ) (message : String) :
    renderAfresh host globals source (.invalid message) withGlobals = throw (.conversion message) := rfl

theorem renderAfresh_of_error {err : Error} (hv : ctx.validate = .ok ctx)
    (h : parseTree source = .error err) (host : Host σ) :
    renderAfresh host globals source ctx withGlobals = throw err := by
  rw [renderAfresh, hv, h]
  rfl

theorem renderAfresh_of_ok {tree : Tree} (hv : ctx.validate = .ok ctx) (h : parseTree source = .ok tree)
    (host : Host σ) :
    renderAfresh host globals source ctx withGlobals =
      tree.render host (if withGlobals then .merge [.map globals, ctx] else ctx) := by
  rw [renderAfresh, hv, h]
  rfl

end

/-- Without globals, rendering a source is rendering its tree. -/
theorem renderAfresh_of_parseTree {source : String} {tree : Tree} (h : parseTree source = .ok tree)
    (host : Host σ) (globals : Entries Value) (ctx : Value) :
    renderAfresh host globals source ctx false = render host tree ctx := by
  rw [renderAfresh, render, h]
  rfl

namespace Environment

/-- Rendering in an environment with a consistent cache is rendering without a cache; it
leaves the globals alone and the cache consistent. -/
theorem render_eq {e : Environment} (h : e.cache.Consistent) (host : Host σ) (source : String)
    (ctx : Value) (withGlobals : Bool) (st : σ) :
    ∃ result cache st', e.render host source ctx withGlobals st = ((result, ⟨e.globals, cache⟩), st') ∧
      (renderAfresh host e.globals source ctx withGlobals).run st = (result, st') ∧
      cache.Consistent := by
  obtain ⟨hr, hc⟩ := h.parse source
  rw [Environment.render, renderAfresh]
  cases ctx.validate with
  | error err => exact ⟨.error err, e.cache, st, rfl, rfl, h⟩
  | ok ctx =>
    rw [← hr]
    simp only [Environment.parse]
    cases (e.cache.parse source).1 with
    | error err => exact ⟨.error err, (e.cache.parse source).2, st, rfl, rfl, hc⟩
    | ok tree => exact ⟨_, (e.cache.parse source).2, _, rfl, rfl, hc⟩

end Environment

end Stencil

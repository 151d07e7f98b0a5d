import Stencil.Proofs.Cache.Queue
import Stencil.Proofs.Render.Invocation
import Stencil.Proofs.Session.Transparency

/-!
# Reachable sessions

What can be said of every state that a session comes to, whatever was done to it before.
Rendering fails in a fixed order: first an invalid context, then a source that cannot be
read, and only then the evaluation. The first two are refusals, which change nothing and
call no function; the third leaves what reading the source alone leaves.

* `Session.Reachable`: the sessions that environments with empty caches come to;
* `Session.Reachable.consistent`: their caches are consistent;
* `Session.Refuses`: a step that is answered by an error and has no effect at all;
* `Environment.render_eq_refused`, `Environment.render_eq_evaluated`: what rendering does to
  an environment, by what the context and the source are;
* `Session.Reachable.render_refuses_or_evaluates`: the same for a step of a session.
-/

namespace Stencil

open Template (Tree parseTree)

variable {σ : Type} {host : Host σ}

/-- A value that is not invalid is valid. -/
theorem Value.validate_cases (v : Value) : (∃ message, v = .invalid message) ∨ v.validate = .ok v := by
  cases v with
  | invalid message => exact .inl ⟨message, rfl⟩
  | _ => exact .inr rfl

/-! ## Environments -/

namespace Environment

variable {e : Environment} {source : String} {ctx : Value} {tree : Tree} {err : Error}

theorem parse_of_error (h : e.cache.Consistent) (hp : parseTree source = .error err) :
    e.parse source = (.error err, e) := by
  have hr : (e.cache.parse source).1 = .error err := by rw [(h.parse source).1, hp]
  have hc : (e.cache.parse source).2 = e.cache :=
    Cache.parse_of_not_inserts (by simp [Cache.inserts, hp, Except.isOk, Except.toBool])
  have hparse : e.cache.parse source = (.error err, e.cache) := Prod.ext hr hc
  rw [parse, hparse]

theorem parse_of_ok (h : e.cache.Consistent) (hp : parseTree source = .ok tree) :
    e.parse source = (.ok tree, { e with cache := (e.cache.parse source).2 }) := by
  have hr : (e.cache.parse source).1 = .ok tree := by rw [(h.parse source).1, hp]
  have hparse : e.cache.parse source = (.ok tree, (e.cache.parse source).2) := Prod.ext hr rfl
  rw [parse, hparse]

/-- A source that cannot be read stops a render before anything is done. -/
theorem render_eq_refused (h : e.cache.Consistent) (hv : ctx.validate = .ok ctx)
    (hp : parseTree source = .error err) (host : Host σ) (withGlobals : Bool) (st : σ) :
    e.render host source ctx withGlobals st = ((.error err, e), st) := by
  rw [render, hv]
  simp only [parse_of_error h hp]
  rfl

/-- Evaluation, however it ends, leaves what reading the source leaves. -/
theorem render_eq_evaluated (h : e.cache.Consistent) (hv : ctx.validate = .ok ctx)
    (hp : parseTree source = .ok tree) {withGlobals : Bool} {st st' : σ} {result : Except Error String}
    (hr : (tree.render host (e.context ctx withGlobals)).run st = (result, st')) :
    e.render host source ctx withGlobals st = ((result, (e.parse source).2), st') := by
  -- The context is made of the globals, which reading the source leaves alone.
  have hr' : (tree.render host
      (context { e with cache := (e.cache.parse source).2 } ctx withGlobals)).run st = (result, st') := hr
  rw [render, hv]
  simp only [parse_of_ok h hp, bind, StateT.bind, hr']
  rfl

end Environment

/-! ## Sessions -/

namespace Session

variable {s : Session}

/-- The sessions that environments with empty caches come to. Every step counts, those that
fail included, and the host may be in any state when a step is taken. -/
inductive Reachable (host : Host σ) : Session → Prop
  | start (members : List Member) (capacities : List Nat) (current : Nat) :
      Reachable host { members, caches := capacities.map fun capacity => { capacity }, current }
  | step {s s' : Session} {step : Step} {answer : Answer} {st st' : σ} (h : Reachable host s)
      (hs : s.step host step st = ((answer, s'), st')) : Reachable host s'

theorem Reachable.consistent (h : s.Reachable host) : s.Consistent := by
  induction h with
  | start members capacities current =>
    intro c hc
    obtain ⟨capacity, -, rfl⟩ := List.mem_map.1 hc
    exact Cache.consistent_empty capacity
  | @step s s' step answer st st' _ hs ih =>
    obtain ⟨answer', t, st'', ht, -, hc⟩ := step_uncached ih host step st
    obtain ⟨-, rfl⟩ := Prod.mk.inj (Prod.mk.inj (hs.symm.trans ht)).1
    exact hc

/-- Putting an environment back as it is changes nothing. -/
theorem update_environment (s : Session) : s.update s.environment = s := by
  rw [update, put, environment, view]
  cases hm : s.members[s.current]? with
  | none => rfl
  | some m =>
    obtain ⟨hlt, rfl⟩ := List.getElem?_eq_some_iff.1 hm
    have hmembers : s.members.set s.current s.members[s.current] = s.members := List.set_getElem_self hlt
    have hcaches : s.caches.set s.members[s.current].cache (s.caches[s.members[s.current].cache]?.getD default) =
        s.caches := by
      by_cases hc : s.members[s.current].cache < s.caches.length
      · rw [List.getElem?_eq_getElem hc, Option.getD_some, List.set_getElem_self]
      · rw [List.set_eq_of_length_le (by omega)]
    simp only [hmembers, hcaches]

theorem step_render {source : String} {ctx : Value} {withGlobals : Bool} {st st' : σ}
    {result : Except Error String} {e : Environment}
    (h : s.environment.render host source ctx withGlobals st = ((result, e), st')) :
    s.step host (.render source ctx withGlobals) st = ((.text result, s.update e), st') := by
  simp only [step, bind, StateT.bind, h]
  rfl

/-- The step is answered by an error, without a call of any function, and the session with all
its caches stays as it is. -/
def Refuses (host : Host σ) (s : Session) (step : Step) (err : Error) : Prop :=
  ∀ st, s.step host step st = ((.text (.error err), s), st) ∧
    s.step host.recorded step (st, []) = ((.text (.error err), s), (st, []))

/-- A render that leaves the environment alone, whatever the host, is refused. -/
theorem refuses_of_render {source : String} {ctx : Value} {withGlobals : Bool} {err : Error}
    (h : ∀ {τ : Type} (host : Host τ) (st : τ),
      s.environment.render host source ctx withGlobals st = ((.error err, s.environment), st)) :
    s.Refuses host (.render source ctx withGlobals) err := by
  intro st
  have hs := step_render (h host st)
  have hr := step_render (h host.recorded (st, []))
  rw [update_environment] at hs hr
  exact ⟨hs, hr⟩

/-- What a render does to a session. An invalid context refuses it, whether or not the source
can be read, and so does a source that cannot be read. Otherwise it ends as the evaluation of
the tree ends, and it leaves the session that reading the source leaves, whether the evaluation
succeeds or fails. -/
theorem Reachable.render_refuses_or_evaluates (h : s.Reachable host) (source : String) (ctx : Value)
    (withGlobals : Bool) :
    (∀ message, ctx = .invalid message →
      s.Refuses host (.render source ctx withGlobals) (.conversion message)) ∧
    (∀ err, (∀ message, ctx ≠ .invalid message) → parseTree source = .error err →
      s.Refuses host (.render source ctx withGlobals) err) ∧
    (∀ tree, (∀ message, ctx ≠ .invalid message) → parseTree source = .ok tree →
      ∀ st, ∃ s' result st',
        s.step host (.parse source) st = ((.tree (.ok tree), s'), st) ∧
        (tree.render host (s.environment.context ctx withGlobals)).run st = (result, st') ∧
        s.step host (.render source ctx withGlobals) st = ((.text result, s'), st')) := by
  have hc : s.environment.cache.Consistent := h.consistent.view s.current
  have hvalid : (∀ message, ctx ≠ .invalid message) → ctx.validate = .ok ctx := fun hne =>
    ctx.validate_cases.resolve_left fun ⟨message, hm⟩ => hne message hm
  refine ⟨fun message hm => ?_, fun err hne hp => ?_, fun tree hne hp st => ?_⟩
  · subst hm
    exact refuses_of_render fun _ _ => rfl
  · exact refuses_of_render fun host st => Environment.render_eq_refused hc (hvalid hne) hp host withGlobals st
  · refine ⟨s.update (s.environment.parse source).2, _, _, ?_, rfl,
      step_render (Environment.render_eq_evaluated hc (hvalid hne) hp rfl)⟩
    rw [Session.step, Environment.parse_of_ok hc hp]
    rfl

/-- A source that calls a function before its error calls none, and a full cache keeps what
it holds. -/
theorem refuses_unterminated :
    let host : Host Unit := Base.host
    let s : Session := ⟨[⟨Base.globals, 0⟩], [⟨1, [("a", ⟨[.text "a"]⟩)]⟩], 0⟩
    let err : Error := ⟨.syntaxError, some "unterminated injected variable", some 7, none⟩
    s.Reachable host ∧ parseTree "\x7bnot()\x7d\x7b" = .error err ∧
      s.Refuses host (.render "\x7bnot()\x7d\x7b" .none true) err := by
  intro host s err
  have hstart : Reachable host ⟨[⟨Base.globals, 0⟩], [⟨1, []⟩], 0⟩ := .start [⟨Base.globals, 0⟩] [1] 0
  have hread : Session.step host ⟨[⟨Base.globals, 0⟩], [⟨1, []⟩], 0⟩ (.parse "a") () =
      ((.tree (.ok ⟨[.text "a"]⟩), s), ()) := rfl
  have hs : s.Reachable host := hstart.step hread
  have hp : parseTree "\x7bnot()\x7d\x7b" = .error err := rfl
  obtain ⟨-, h, -⟩ := hs.render_refuses_or_evaluates "\x7bnot()\x7d\x7b" .none true
  exact ⟨hs, hp, h err nofun hp⟩

end Session

end Stencil

import Stencil.Proofs.Session.Reachable
import Stencil.Proofs.Value.Entries

/-!
# The names of a template

A template reads its context under few names: the paths that occur in it, and their first
segments. Contexts that answer alike under these cannot be told apart by rendering, so
nothing that stands under other names has an effect, be it in the context or among the
globals, and neither has the order of the entries.

* `Tree.paths`, `Tree.names`: the paths of a template, and the names that they look up first;
* `Path.resolve_congr`: a path depends on its names alone;
* `Argument.eval_congr`, `Tree.render_congr`: evaluation depends on what the paths lead to;
* `renderAfresh_congr`: changes outside the names of a source have no effect;
* `render_depends_on_names`: the same for trees, and for environments in any state.
-/

namespace Stencil

open Entries (Agree)

variable {σ : Type}

/-- The names that a path looks up in the root: the whole path, and its first segment if there
is one. -/
def Path.names (path : String) : List String := path :: (split path).head?.toList

/-- A path depends on what stands under its names alone. -/
theorem Path.resolve_congr {path : String} {es es' : Entries Value} (h : Agree (names path) es es') :
    resolve (.map es) path = resolve (.map es') path := by
  have hwhole : es.get? path = es'.get? path := h path List.mem_cons_self
  have hattr {name : String} (hn : name ∈ names path) : Value.attr (.map es) name = Value.attr (.map es') name := by
    rw [Value.attr, Value.attr, h name hn]
  have hentry : (Value.map es).entries?.bind (Entries.get? · path) =
      (Value.map es').entries?.bind (Entries.get? · path) := hwhole
  rw [resolve, resolve, hentry, hattr List.mem_cons_self]
  cases hs : split path with
  | nil => rfl
  | cons first rest =>
    have hfirst : first ∈ names path := by
      rw [names, hs]
      exact List.mem_cons_of_mem _ List.mem_cons_self
    simp only [hattr hfirst]

namespace Template

open Stencil.Path (resolve)

/-! ## Paths and names -/

mutual

/-- The paths in an argument. -/
def Argument.paths : Argument → List String
  | .string _ | .number _ => []
  | .call path args => path :: Argument.pathsAll args

/-- The paths in arguments. -/
def Argument.pathsAll : List Argument → List String
  | [] => []
  | a :: rest => a.paths ++ Argument.pathsAll rest

end

/-- The paths in a node. -/
def Node.paths : Node → List String
  | .text _ => []
  | .call c => c.path :: Argument.pathsAll c.args

/-- The paths in a template. -/
def Tree.paths (t : Tree) : List String := t.nodes.flatMap Node.paths

/-- The names that a template looks up in its context. -/
def Tree.names (t : Tree) : List String := t.paths.flatMap Path.names

/-- The names of a source; one that cannot be read has none. -/
def namesOf (source : String) : List String :=
  match parseTree source with
  | .ok tree => tree.names
  | .error _ => []

/-! ## Evaluation -/

variable {host : Host σ} {ctx ctx' : Value}

theorem lookUp_congr {path : String} {args args' : Effect σ (List Value)}
    (h : resolve ctx path = resolve ctx' path) (ha : args = args') :
    lookUp host ctx path args = lookUp host ctx' path args' := by
  rw [lookUp, lookUp, h, ha]

mutual

/-- An argument depends on what its paths lead to. -/
theorem Argument.eval_congr (a : Argument) (h : ∀ path ∈ a.paths, resolve ctx path = resolve ctx' path) :
    a.eval host ctx = a.eval host ctx' := by
  cases a with
  | string s => rfl
  | number x => rfl
  | call path args =>
    refine lookUp_congr (h path List.mem_cons_self) ?_
    exact Argument.evalAll_congr args fun p hp => h p (List.mem_cons_of_mem _ hp)

theorem Argument.evalAll_congr (as : List Argument)
    (h : ∀ path ∈ Argument.pathsAll as, resolve ctx path = resolve ctx' path) :
    Argument.evalAll host ctx as = Argument.evalAll host ctx' as := by
  cases as with
  | nil => rfl
  | cons a rest =>
    rw [Argument.evalAll, Argument.evalAll, a.eval_congr fun p hp => h p (List.mem_append_left _ hp),
      Argument.evalAll_congr rest fun p hp => h p (List.mem_append_right _ hp)]

end

theorem Node.render_congr (node : Node) (h : ∀ path ∈ node.paths, resolve ctx path = resolve ctx' path) :
    node.render host ctx = node.render host ctx' := by
  cases node with
  | text s => rfl
  | call c =>
    have heval : c.eval host ctx = c.eval host ctx' :=
      lookUp_congr (h c.path List.mem_cons_self)
        (Argument.evalAll_congr c.args fun p hp => h p (List.mem_cons_of_mem _ hp))
    rw [Node.render, Node.render, heval]

/-- Contexts in which all paths of a template lead to the same values give the same rendering. -/
theorem Tree.render_congr (t : Tree) (h : ∀ path ∈ t.paths, resolve ctx path = resolve ctx' path) :
    t.render host ctx = t.render host ctx' := by
  have hnodes (nodes : List Node) (hn : ∀ node ∈ nodes, node ∈ t.nodes) (out : String) :
      renderNodes host ctx nodes out = renderNodes host ctx' nodes out := by
    induction nodes generalizing out with
    | nil => rfl
    | cons node rest ih =>
      have hnode : node.render host ctx = node.render host ctx' :=
        node.render_congr fun p hp => h p (List.mem_flatMap.2 ⟨node, hn node List.mem_cons_self, hp⟩)
      rw [renderNodes, renderNodes, hnode]
      exact congrArg _ (funext fun text => ih (fun n hr => hn n (List.mem_cons_of_mem _ hr)) (out ++ text))
  exact hnodes t.nodes (fun _ hn => hn) ""

/-- Maps that answer alike under the names of a template give the same rendering. -/
theorem Tree.render_map_congr (t : Tree) {es es' : Entries Value} (h : Agree t.names es es') :
    t.render host (.map es) = t.render host (.map es') :=
  t.render_congr fun path hp => Path.resolve_congr fun name hn => h name (List.mem_flatMap.2 ⟨path, hp, hn⟩)

end Template

/-! ## Sources -/

open Template (Tree parseTree namesOf)

/-- A context is changed outside some names; what is no map stays what it is. -/
inductive Value.ChangedOutside (names : List String) : Value → Value → Prop
  | refl (v : Value) : ChangedOutside names v v
  | map {es es' : Entries Value} (h : Entries.ChangedOutside names es es') :
      ChangedOutside names (.map es) (.map es')

theorem Value.ChangedOutside.entries {names : List String} {v v' : Value} (h : v.ChangedOutside names v') :
    Entries.ChangedOutside names (v.entries?.getD []) (v'.entries?.getD []) := by
  cases h with
  | refl => exact .refl _
  | map h => exact h

/-- A changed context is invalid if and only if it was. -/
theorem Value.ChangedOutside.validate_cases {names : List String} {v v' : Value}
    (h : v.ChangedOutside names v') :
    (∃ message, v = .invalid message ∧ v' = .invalid message) ∨ v.validate = .ok v ∧ v'.validate = .ok v' := by
  cases h with
  | refl => exact v.validate_cases.imp (fun ⟨message, hm⟩ => ⟨message, hm, hm⟩) fun hv => ⟨hv, hv⟩
  | map => exact .inr ⟨rfl, rfl⟩

variable {globals globals' : Entries Value} {ctx ctx' : Value} {source : String}

/-- A template does not see changes outside its names, neither those of the context nor those
of the globals under it. -/
theorem Template.Tree.render_changed (host : Host σ) (tree : Tree)
    (hg : globals.ChangedOutside tree.names globals') (hc : ctx.ChangedOutside tree.names ctx')
    (withGlobals : Bool) :
    tree.render host (if withGlobals then .merge [.map globals, ctx] else ctx) =
      tree.render host (if withGlobals then .merge [.map globals', ctx'] else ctx') := by
  cases withGlobals with
  | true => exact tree.render_map_congr (hg.merge hc.entries)
  | false =>
    cases hc with
    | refl => rfl
    | map h => exact tree.render_map_congr h.agree

theorem renderAfresh_congr (host : Host σ) (hg : globals.ChangedOutside (namesOf source) globals')
    (hc : ctx.ChangedOutside (namesOf source) ctx') (withGlobals : Bool) :
    renderAfresh host globals source ctx withGlobals = renderAfresh host globals' source ctx' withGlobals := by
  rcases hc.validate_cases with ⟨message, rfl, rfl⟩ | ⟨hv, hv'⟩
  · rw [renderAfresh_of_invalid, renderAfresh_of_invalid]
  cases hp : parseTree source with
  | error err => rw [renderAfresh_of_error hv hp, renderAfresh_of_error hv' hp]
  | ok tree =>
    have hnames : namesOf source = tree.names := by rw [namesOf, hp]
    rw [hnames] at hg hc
    rw [renderAfresh_of_ok hv hp, renderAfresh_of_ok hv' hp]
    exact tree.render_changed host hg hc withGlobals

/-- Rendering depends only on what stands under the names of the template. Maps that answer
alike under these give the same result with the same calls. In every environment that comes
about, a change under other names or to the order of the entries, of the context or of the
globals, does not change what rendering a source answers. -/
theorem render_depends_on_names (host : Host σ) :
    (∀ (t : Tree) (es es' : Entries Value), Agree t.names es es' → ∀ st,
      (t.render host (.map es)).run st = (t.render host (.map es')).run st ∧
      (t.render host.recorded (.map es)).run (st, []) =
        (t.render host.recorded (.map es')).run (st, [])) ∧
    ∀ (s : Session), s.Reachable host →
      ∀ (place : Nat) (source : String) (globals : Entries Value) (ctx ctx' : Value)
        (withGlobals : Bool) (st : σ),
        (s.view place).globals.ChangedOutside (namesOf source) globals →
        ctx.ChangedOutside (namesOf source) ctx' →
        ∃ result e e' st',
          (s.view place).render host source ctx withGlobals st = ((result, e), st') ∧
          Environment.render host { s.view place with globals } source ctx' withGlobals st =
            ((result, e'), st') := by
  refine ⟨fun t es es' h st => ?_, fun s hs place source globals ctx ctx' withGlobals st hg hc => ?_⟩
  · rw [t.render_map_congr h, t.render_map_congr h]
    exact ⟨rfl, rfl⟩
  · have hcache : (s.view place).cache.Consistent := hs.consistent.view place
    obtain ⟨result, cache, st', hr, ha, -⟩ := Environment.render_eq hcache host source ctx withGlobals st
    obtain ⟨result', cache', st'', hr', ha', -⟩ :=
      Environment.render_eq (e := { s.view place with globals }) hcache host source ctx' withGlobals st
    rw [renderAfresh_congr host hg hc withGlobals, ha'] at ha
    obtain ⟨rfl, rfl⟩ := Prod.mk.inj ha
    exact ⟨_, _, _, _, hr, hr'⟩

/-- An entry under the whole path, between others that come and go, and a global that goes. -/
theorem render_ignores_other_names :
    let host : Host Unit := Base.host
    let s : Session := ⟨[⟨[("c", .none)], 0⟩], [⟨1, []⟩], 0⟩
    let ctx : Value := .map [("z", .none), ("a.b", .string "x")]
    let ctx' : Value := .map [("a.b", .string "x"), ("y", .bool true)]
    s.Reachable host ∧ (s.view 0).globals.ChangedOutside (namesOf "\x7ba.b\x7d") [] ∧
      ctx.ChangedOutside (namesOf "\x7ba.b\x7d") ctx' ∧
      ∃ e e', (s.view 0).render host "\x7ba.b\x7d" ctx true () = ((.ok "x", e), ()) ∧
        Environment.render host { s.view 0 with globals := [] } "\x7ba.b\x7d" ctx' true () =
          ((.ok "x", e'), ()) := by
  intro host s ctx ctx'
  have hnames : namesOf "\x7ba.b\x7d" = ["a.b", "a"] := by decide +kernel
  have hs : s.Reachable host := .start [⟨[("c", .none)], 0⟩] [1] 0
  have hg : (s.view 0).globals.ChangedOutside (namesOf "\x7ba.b\x7d") [] := by
    rw [hnames]
    exact .erase (by decide : "c" ∉ ["a.b", "a"]) [("c", Value.none)]
  have hc : ctx.ChangedOutside (namesOf "\x7ba.b\x7d") ctx' := by
    rw [hnames]
    exact .map (.trans (.erase (by decide : "z" ∉ ["a.b", "a"]) _) (.insert (by decide : "y" ∉ ["a.b", "a"]) _ _))
  obtain ⟨-, h⟩ := render_depends_on_names host
  obtain ⟨result, e, e', _, hr, hr'⟩ := h s hs 0 "\x7ba.b\x7d" [] ctx ctx' true () hg hc
  have hvalid : ctx.validate = .ok ctx := rfl
  have hparse : parseTree "\x7ba.b\x7d" = .ok ⟨[.call ⟨"a.b", []⟩]⟩ := rfl
  have hrun : (Template.Tree.render host ((s.view 0).context ctx true) ⟨[.call ⟨"a.b", []⟩]⟩).run () =
      (.ok "x", ()) := rfl
  have htext := Environment.render_eq_evaluated (hs.consistent.view 0) hvalid hparse hrun
  obtain ⟨rfl, -⟩ := Prod.mk.inj (Prod.mk.inj (hr.symm.trans htext)).1
  exact ⟨hs, hg, hc, e, e', hr, hr'⟩

end Stencil

import Stencil.Proofs.Render.Order
import Stencil.Proofs.Session.Reachable

/-!
# Invalid values

An invalid value stands for host data that could not be taken in. The node that would print
one fails the render with its message. Only there it is looked for: a function gets it like
any other argument, and a sequence or a map that holds one is printed with its text inside.
A template in which no invalid value can come to such a place is guarded.

* `Value.Carries`, `Value.Clean`: an invalid value at some depth, and at none;
* `Value.Carries.infix_display`: its text is part of the text of what holds it;
* `Tree.Guarded`: the paths of a template lead to clean values, those that it prints perhaps
  to an invalid one;
* `Host.KeepsClean`: functions that answer clean arguments with clean values;
* `Executes.clean`: a run on clean values stays clean;
* `Tree.render_invalid`: what becomes of invalid values when a template is rendered.
-/

namespace Stencil

/-! ## Values that hold invalid ones -/

/-- The value is the invalid one with a message, or holds it at some depth. -/
inductive Value.Carries (m : String) : Value → Prop
  | invalid : Carries m (.invalid m)
  | item {v : Value} {items : List Value} (hv : v ∈ items) (h : Carries m v) : Carries m (.seq items)
  | entry {key : String} {v : Value} {entries : Entries Value} (hv : (key, v) ∈ entries)
      (h : Carries m v) : Carries m (.map entries)

/-- The value holds no invalid one at any depth. -/
def Value.Clean (v : Value) : Prop := ∀ m, ¬v.Carries m

/-- The text of an invalid value. -/
def invalidText (m : String) : String := "<invalid value: " ++ m ++ ">"

/-- A sequence is shown as its items with commas between them. -/
theorem Value.display_seq (items : List Value) :
    (seq items).display = ",".intercalate (items.map display) := by
  have h : displayItems items = items.map display := by
    induction items with
    | nil => rfl
    | cons v rest ih => rw [displayItems, ih, List.map_cons]
  exact congrArg (",".intercalate ·) h

/-- The text of an entry of a map. -/
def Value.displayEntry (e : String × Value) : String :=
  Text.Quoted.ofString e.1 ++ ": " ++ displayInMap e.2.display e.2

/-- A map is shown as its entries in braces. -/
theorem Value.display_map (entries : Entries Value) :
    (map entries).display = "\x7b" ++ ", ".intercalate (entries.map displayEntry) ++ "\x7d" := by
  have h : displayEntries entries = entries.map displayEntry := by
    induction entries with
    | nil => rfl
    | cons e rest ih => rw [displayEntries, ih, List.map_cons, displayEntry]
  exact congrArg (fun texts => "\x7b" ++ ", ".intercalate texts ++ "\x7d") h

theorem infix_intercalate (sep : String) {s : String} {ss : List String} (h : s ∈ ss) :
    s.toList <:+: (sep.intercalate ss).toList := by
  rw [String.toList_intercalate]
  induction ss with
  | nil => cases h
  | cons s' rest ih =>
    cases rest with
    | nil =>
      obtain rfl := List.mem_singleton.1 h
      simp
    | cons s'' rest =>
      rw [List.map_cons, List.map_cons, List.intercalate_cons_cons, ← List.map_cons]
      rcases List.mem_cons.1 h with rfl | h
      · rw [List.append_assoc]
        exact (List.prefix_append _ _).isInfix
      · exact (ih h).trans (List.suffix_append _ _).isInfix

/-- The text of an invalid value is part of the text of a value that holds it. -/
theorem Value.Carries.infix_display {m : String} {v : Value} (h : v.Carries m) :
    (invalidText m).toList <:+: v.display.toList := by
  induction h with
  | invalid => exact List.infix_rfl
  | @item v items hv _ ih =>
    rw [display_seq]
    exact ih.trans (infix_intercalate _ (List.mem_map_of_mem hv))
  | @entry key v entries hv h ih =>
    -- A map shows only texts and absent values in another way, and these hold nothing.
    have hplain : displayInMap v.display v = v.display := by cases h <;> rfl
    have hshown : v.display.toList <:+: (displayEntry (key, v)).toList := by
      rw [displayEntry, hplain, String.toList_append]
      exact (List.suffix_append _ _).isInfix
    have hentries : (displayEntry (key, v)).toList <:+: (", ".intercalate (entries.map displayEntry)).toList :=
      infix_intercalate _ (List.mem_map_of_mem hv)
    rw [display_map, String.toList_append, String.toList_append]
    exact (ih.trans (hshown.trans hentries)).trans
      ((List.suffix_append _ _).isInfix.trans (List.prefix_append _ _).isInfix)

namespace Value

theorem clean_string (s : String) : (string s).Clean := nofun

theorem clean_float (x : Float) : (float x).Clean := nofun

theorem clean_bool (b : Bool) : (bool b).Clean := nofun

theorem clean_undefined : undefined.Clean := nofun

end Value

variable {σ : Type}

/-- The answers to clean arguments are clean. -/
def Host.KeepsClean (host : Host σ) : Prop :=
  ∀ name args st v st', (∀ a ∈ args, Value.Clean a) → (host name args).run st = (.ok v, st') → v.Clean

/-- The same for one function. -/
def Function.KeepsClean (f : Function σ) : Prop :=
  ∀ args st v st', (∀ a ∈ args, Value.Clean a) → (f.call args).run st = (.ok v, st') → v.Clean

theorem Host.ofFunctions_keepsClean {functions : List (String × Function σ)}
    (h : ∀ p ∈ functions, p.2.KeepsClean) : (Host.ofFunctions functions).KeepsClean := by
  intro name args st v st' ha hr
  rw [ofFunctions] at hr
  split at hr
  · rename_i f hf
    obtain ⟨before, after, he, -⟩ := List.lookup_eq_some_iff.1 hf
    have hmem : (name, f) ∈ functions := by
      rw [he]
      exact List.mem_append_right _ List.mem_cons_self
    exact h _ hmem args st v st' ha hr
  · cases hr
    exact Value.clean_undefined

theorem Function.pure_keepsClean {params : List Parameter} {f : Arguments params → Value}
    (h : ∀ args xs, (∀ a ∈ args, Value.Clean a) → bindArguments params args = .ok xs → (f xs).Clean) :
    (Function.pure params f : Function σ).KeepsClean := by
  intro args st v st' ha hr
  rw [call] at hr
  split at hr
  · cases hr
  · rename_i xs hx
    cases hr
    exact h args xs ha hx

/-- A value parameter gets a clean value of clean arguments, undefined if there is none. -/
theorem clean_of_bindArguments_value {params : List Parameter} {args : List Value}
    {xs : Arguments (.value :: params)} (ha : ∀ a ∈ args, Value.Clean a)
    (h : bindArguments (.value :: params) args = .ok xs) :
    Value.Clean xs.1 ∧ bindArguments params args.tail = .ok xs.2 := by
  simp only [bindArguments, Parameter.take, Parameter.read, Except.map] at h
  split at h
  · cases h
  · rename_i ys hy
    cases h
    refine ⟨?_, hy⟩
    cases args with
    | nil => exact Value.clean_undefined
    | cons a rest => exact ha a List.mem_cons_self

/-- The base functions make no invalid values. -/
theorem Base.host_keepsClean : (Base.host : Host σ).KeepsClean := by
  refine Host.ofFunctions_keepsClean fun p hp => ?_
  simp only [functions, List.mem_cons, List.not_mem_nil, or_false] at hp
  rcases hp with rfl | rfl | rfl | rfl | rfl
  · refine Function.pure_keepsClean fun args xs ha hx => ?_
    obtain ⟨-, hx⟩ := clean_of_bindArguments_value ha hx
    have ha₁ : ∀ a ∈ args.tail, Value.Clean a := fun a h => ha a (List.mem_of_mem_tail h)
    obtain ⟨hyes, hx⟩ := clean_of_bindArguments_value ha₁ hx
    obtain ⟨hno, -⟩ := clean_of_bindArguments_value (fun a h => ha₁ a (List.mem_of_mem_tail h)) hx
    show Value.Clean (if xs.1.isTrue then xs.2.1 else xs.2.2.1)
    split
    · exact hyes
    · exact hno
  · exact Function.pure_keepsClean fun _ _ _ _ => Value.clean_bool _
  · exact Function.pure_keepsClean fun _ _ _ _ => Value.clean_bool _
  · exact Function.pure_keepsClean fun _ _ _ _ => Value.clean_bool _
  · exact Function.pure_keepsClean fun _ _ _ _ => Value.clean_string _

namespace Template

open Stencil.Path (resolve)

/-! ## Guarded templates -/

mutual

/-- What the paths in an argument lead to is clean. Arguments count where they are evaluated:
after a path that leads to a callable. -/
def Argument.Guarded (ctx : Value) : Argument → Prop
  | .string _ | .number _ => True
  | .call path args =>
    (resolve ctx path).Clean ∧ ((resolve ctx path).isCallable = true → Argument.GuardedAll ctx args)

/-- All arguments are guarded. -/
def Argument.GuardedAll (ctx : Value) : List Argument → Prop
  | [] => True
  | a :: rest => a.Guarded ctx ∧ Argument.GuardedAll ctx rest

end

/-- The path of a variable leads to a clean value, or to an invalid one that the node would
print itself, and its arguments are guarded. -/
def Call.Guarded (ctx : Value) (c : Call) : Prop :=
  ((resolve ctx c.path).Clean ∨ ∃ m, resolve ctx c.path = .invalid m) ∧
    ((resolve ctx c.path).isCallable = true → Argument.GuardedAll ctx c.args)

/-- No invalid value can come to another place than a node that would print it. -/
def Tree.Guarded (ctx : Value) (t : Tree) : Prop := ∀ c, .call c ∈ t.nodes → c.Guarded ctx

/-- A value that is known before any call is clean. -/
def Operand.Clean (o : Operand) : Prop := ∀ v, o = .known v → v.Clean

/-- The known operands of a call are clean. -/
def Request.Clean (q : Request) : Prop := ∀ o ∈ q.operands, o.Clean

variable {ctx : Value}

theorem operand_clean_of_known {v : Value} (h : v.Clean) : (Operand.known v).Clean := by
  rintro _ ⟨⟩
  exact h

theorem request_clean {path : String} {n : Nat} {args : List Request × List Operand}
    (ha : (resolve ctx path).isCallable = true → (∀ q ∈ args.1, q.Clean) ∧ ∀ o ∈ args.2, o.Clean) :
    ∀ q ∈ (request ctx path n args).1, q.Clean := by
  intro q hq
  cases hv : resolve ctx path with
  | callable name =>
    simp only [request, hv] at hq
    rw [hv] at ha
    obtain ⟨hcalls, hops⟩ := ha rfl
    rcases List.mem_append.1 hq with hq | hq
    · exact hcalls q hq
    · rw [List.mem_singleton.1 hq]
      exact hops
  | _ =>
    simp only [request, hv] at hq
    cases hq

/-- The value of a path that is not called is what it leads to. -/
theorem request_operand {path : String} {n : Nat} {args : List Request × List Operand} {v : Value}
    (h : (request ctx path n args).2 = .known v) : v = resolve ctx path := by
  cases hv : resolve ctx path with
  | callable name =>
    simp only [request, hv] at h
    cases h
  | _ =>
    simp only [request, hv] at h
    cases h
    rfl

mutual

/-- The plan of a guarded argument uses clean values only. -/
theorem Argument.plan_clean (a : Argument) (h : a.Guarded ctx) (n : Nat) :
    (∀ q ∈ (a.plan ctx n).1, q.Clean) ∧ (a.plan ctx n).2.Clean := by
  cases a with
  | string s => exact ⟨nofun, operand_clean_of_known (Value.clean_string s)⟩
  | number x => exact ⟨nofun, operand_clean_of_known (Value.clean_float x)⟩
  | call path args =>
    obtain ⟨hv, hargs⟩ := h
    refine ⟨request_clean fun hc => Argument.planAll_clean args (hargs hc) n, fun v ho => ?_⟩
    rw [request_operand ho]
    exact hv

theorem Argument.planAll_clean (as : List Argument) (h : Argument.GuardedAll ctx as) (n : Nat) :
    (∀ q ∈ (Argument.planAll ctx n as).1, q.Clean) ∧ ∀ o ∈ (Argument.planAll ctx n as).2, o.Clean := by
  cases as with
  | nil => exact ⟨nofun, nofun⟩
  | cons a rest =>
    obtain ⟨hcalls, hop⟩ := a.plan_clean h.1 n
    obtain ⟨hothers, hops⟩ := Argument.planAll_clean rest h.2 (n + (a.plan ctx n).1.length)
    refine ⟨fun q hq => ?_, List.forall_mem_cons.2 ⟨hop, hops⟩⟩
    rcases List.mem_append.1 hq with hq | hq
    · exact hcalls q hq
    · exact hothers q hq

end

/-! ## Programs of guarded templates -/

theorem print_mem_of_mem_prints {is : List Instruction} {o : Operand} (h : o ∈ prints is) :
    .print o ∈ is := by
  obtain ⟨i, hi, ho⟩ := List.mem_filterMap.1 h
  cases i with
  | invoke q => cases ho
  | print o' =>
    cases ho
    exact hi

/-- An instruction of a program comes from one of the nodes. -/
theorem exists_node_of_mem {i : Instruction} {n : Nat} {nodes : List Node}
    (h : i ∈ Node.programAll ctx n nodes) : ∃ node ∈ nodes, ∃ k, i ∈ node.program ctx k := by
  induction nodes generalizing n with
  | nil => cases h
  | cons node rest ih =>
    rcases List.mem_append.1 h with h | h
    · exact ⟨node, List.mem_cons_self, n, h⟩
    · obtain ⟨node', hn, k, hi⟩ := ih h
      exact ⟨node', List.mem_cons_of_mem _ hn, k, hi⟩

variable {t : Tree}

/-- The calls of a guarded template use clean values only. -/
theorem Tree.Guarded.calls_clean (h : t.Guarded ctx) {q : Request} (hq : .invoke q ∈ t.program ctx) :
    q.Clean := by
  obtain ⟨node, hn, k, hi⟩ := exists_node_of_mem hq
  cases node with
  | text s => cases List.mem_singleton.1 hi
  | call c =>
    rcases List.mem_append.1 hi with hi | hi
    · obtain ⟨q', hq', he⟩ := List.mem_map.1 hi
      cases he
      exact request_clean (fun hc => Argument.planAll_clean c.args ((h c hn).2 hc) k) q hq'
    · cases List.mem_singleton.1 hi

/-- What a guarded template prints is clean, or it is an invalid value that one of its nodes
leads to. -/
theorem Tree.Guarded.known_clean (h : t.Guarded ctx) {v : Value} (hv : .print (.known v) ∈ t.program ctx) :
    v.Clean ∨ ∃ c m, .call c ∈ t.nodes ∧ resolve ctx c.path = .invalid m ∧ v = .invalid m := by
  obtain ⟨node, hn, k, hi⟩ := exists_node_of_mem hv
  cases node with
  | text s =>
    cases List.mem_singleton.1 hi
    exact .inl (Value.clean_string s)
  | call c =>
    rcases List.mem_append.1 hi with hi | hi
    · obtain ⟨q, -, he⟩ := List.mem_map.1 hi
      cases he
    · have ho : (c.plan ctx k).2 = .known v := (Instruction.print.inj (List.mem_singleton.1 hi)).symm
      obtain rfl := request_operand ho
      exact (h c hn).1.imp id fun ⟨m, hm⟩ => ⟨c, m, hn, hm, hm⟩

/-! ## Clean runs -/

variable {host : Host σ} {vs : List Value}

theorem Operand.Clean.value {o : Operand} {v : Value} (h : o.Clean) (hvs : ∀ v ∈ vs, v.Clean)
    (hv : o.value? vs = some v) : v.Clean := by
  cases o with
  | known w =>
    cases hv
    exact h v rfl
  | result n => exact hvs v (List.mem_of_getElem? hv)

theorem Request.Clean.args {q : Request} {args : List Value} (h : q.Clean) (hvs : ∀ v ∈ vs, v.Clean)
    (ha : q.operands.map (·.value? vs) = args.map some) : ∀ v ∈ args, v.Clean := by
  intro v hv
  have hmem : some v ∈ q.operands.map (·.value? vs) := by
    rw [ha]
    exact List.mem_map_of_mem hv
  obtain ⟨o, ho, hval⟩ := List.mem_map.1 hmem
  exact (h o ho).value hvs hval

theorem exists_of_mem_results {log : List Invocation} {v : Value} (h : v ∈ results log) :
    ∃ i ∈ log, i.outcome = .ok v := by
  obtain ⟨i, hi, ho⟩ := List.mem_filterMap.1 h
  refine ⟨i, hi, ?_⟩
  cases hout : i.outcome with
  | error e =>
    rw [hout] at ho
    cases ho
  | ok w =>
    rw [hout] at ho
    cases ho
    rfl

/-- A run of calls on clean values stays clean, whatever comes of it: all arguments are, and
all results. -/
theorem Executes.clean {out : String} {is : List Instruction} {st st' : σ} {log : List Invocation}
    {r : Except Error (List Value × String)} (h : Executes host vs out is st log r st')
    (hk : host.KeepsClean) (hq : ∀ q, .invoke q ∈ is → q.Clean) (hvs : ∀ v ∈ vs, v.Clean) :
    ∀ i ∈ log, (∀ v ∈ i.args, v.Clean) ∧ ∀ v, i.outcome = .ok v → v.Clean := by
  -- By induction on the run; the results so far are the invariant.
  induction h with
  | done | unprintable => nofun
  | @failed vs args out q is e st st' ha h =>
    refine List.forall_mem_singleton.2 ⟨?_, nofun⟩
    exact (hq q List.mem_cons_self).args hvs ha
  | @answered vs args out q is v log r st mid st' ha h _ ih =>
    have hargs := (hq q List.mem_cons_self).args hvs ha
    have hv : v.Clean := hk q.name args st v mid hargs h
    refine List.forall_mem_cons.2 ⟨⟨hargs, ?_⟩, ?_⟩
    · rintro _ ⟨⟩
      exact hv
    · refine ih (fun q' h' => hq q' (List.mem_cons_of_mem _ h')) fun w hw => ?_
      rcases List.mem_append.1 hw with hw | hw
      · exact hvs w hw
      · rw [List.mem_singleton.1 hw]
        exact hv
  | printed _ _ _ ih => exact ih (fun q' h' => hq q' (List.mem_cons_of_mem _ h')) hvs

/-! ## Values of nodes -/

variable {nodes after : List Node} {c : Call} {v : Value} {out out' s m : String} {st st₁ st' : σ}

theorem renderNodes_append (h : (renderNodes host ctx nodes out).run st = (.ok out', st₁)) :
    (renderNodes host ctx (nodes ++ after) out).run st = (renderNodes host ctx after out').run st₁ := by
  induction nodes generalizing out st with
  | nil =>
    cases h
    rfl
  | cons node rest ih =>
    rw [renderNodes] at h
    rw [List.cons_append, renderNodes]
    cases hn : (node.render host ctx).run st with
    | mk r st₂ =>
      cases r with
      | error e =>
        rw [run_bind_error hn] at h
        cases h
      | ok text =>
        rw [run_bind_ok hn] at h
        rw [run_bind_ok hn]
        exact ih h

/-- What is written stays in front. -/
theorem prefix_of_renderNodes (h : (renderNodes host ctx nodes out).run st = (.ok s, st')) :
    out.toList <+: s.toList := by
  induction nodes generalizing out st with
  | nil =>
    cases h
    exact List.prefix_rfl
  | cons node rest ih =>
    rw [renderNodes] at h
    cases hn : (node.render host ctx).run st with
    | mk r st₂ =>
      cases r with
      | error e =>
        rw [run_bind_error hn] at h
        cases h
      | ok text =>
        rw [run_bind_ok hn] at h
        refine .trans ?_ (ih h)
        rw [String.toList_append]
        exact List.prefix_append _ _

/-- Rendering comes to a node and evaluates it to a value, in a state of the host. -/
def Tree.Reaches (host : Host σ) (ctx : Value) (t : Tree) (st : σ) (v : Value) (st' : σ) : Prop :=
  ∃ before c after out st₁, t.nodes = before ++ .call c :: after ∧
    (renderNodes host ctx before "").run st = (.ok out, st₁) ∧ (c.eval host ctx).run st₁ = (.ok v, st')

theorem Node.render_call (h : (c.eval host ctx).run st = (.ok v, st')) :
    (Node.render host ctx (.call c)).run st = (printed v, st') := by
  rw [Node.render, run_bind_ok h]
  cases printed v with
  | ok text => rfl
  | error e => rfl

/-- A node whose value is invalid fails the render, and nothing after it is evaluated. -/
theorem Tree.Reaches.render_eq_error (h : t.Reaches host ctx st (.invalid m) st') :
    (t.render host ctx).run st = (.error (.conversion m), st') := by
  obtain ⟨before, c, after, out, st₁, hn, hb, hc⟩ := h
  have hnode : (Node.render host ctx (.call c)).run st₁ = (.error (.conversion m), st') :=
    Node.render_call hc
  rw [Tree.render, hn, renderNodes_append hb, renderNodes, run_bind_error hnode]

/-- In a text that is rendered, the text of every node is found. -/
theorem Tree.Reaches.infix_render {st'' : σ} (h : t.Reaches host ctx st v st')
    (hs : (t.render host ctx).run st = (.ok s, st'')) : v.display.toList <:+: s.toList := by
  obtain ⟨before, c, after, out, st₁, hn, hb, hc⟩ := h
  have hnode := Node.render_call hc
  rw [Tree.render, hn, renderNodes_append hb, renderNodes] at hs
  obtain ⟨m, -, hp⟩ | ⟨-, hp⟩ := printed_cases v
  · rw [hp] at hnode
    rw [run_bind_error hnode] at hs
    cases hs
  · rw [hp] at hnode
    rw [run_bind_ok hnode] at hs
    have hprefix := prefix_of_renderNodes hs
    rw [String.toList_append] at hprefix
    exact (List.suffix_append _ _).isInfix.trans hprefix.isInfix

/-! ## Templates -/

/-- The recorded rendering runs the program too, and the program runs in one way only. -/
theorem Tree.executes_recorded (host : Host σ) (ctx : Value) (t : Tree) (st : σ) :
    ∃ log r st', Executes host [] "" (t.program ctx) st log r st' ∧
      (t.render host ctx).run st = (r.map Prod.snd, st') ∧
      (t.render host.recorded ctx).run (st, []) = (r.map Prod.snd, st', log) := by
  obtain ⟨log, r, s', he, hr⟩ := t.executes_program host.recorded ctx (st, [])
  obtain ⟨he, hl⟩ := he.of_recorded
  obtain ⟨log', r', st', he', hr'⟩ := t.executes_program host ctx st
  obtain ⟨rfl, rfl, rfl⟩ := he'.unique he
  refine ⟨log', r', s'.1, he, hr', ?_⟩
  rw [hr, ← List.nil_append log', ← hl]

section

variable {log : List Invocation} {text : Except Error String}

theorem Tree.Guarded.print_clean (h : t.Guarded ctx) {o : Operand} (ho : .print o ∈ t.program ctx)
    (hres : ∀ v ∈ results log, v.Clean) (hv : o.value? (results log) = some v) :
    v.Clean ∨ ∃ c m, .call c ∈ t.nodes ∧ resolve ctx c.path = .invalid m ∧ v = .invalid m := by
  cases o with
  | known w =>
    cases hv
    exact h.known_clean ho
  | result n => exact .inl (hres v (List.mem_of_getElem? hv))

/-- How a guarded template ends after calls with clean results: with the error of a call, with
an invalid value that a node leads to, or with a text of clean values. -/
theorem Tree.Guarded.outcome (h : t.Guarded ctx) (hres : ∀ v ∈ results log, v.Clean)
    (ho : Outcome (t.program ctx) log (results log) text) :
    (∀ s, text = .ok s → ∃ ws : List Value,
      (prints (t.program ctx)).map (·.value? (results log)) = ws.map some ∧
      (∀ w ∈ ws, w.Clean) ∧ s = String.join (ws.map Value.display)) ∧
    ∀ e, text = .error e → (∃ i ∈ log, i.outcome = .error e) ∨
      ∃ c m, .call c ∈ t.nodes ∧ resolve ctx c.path = .invalid m ∧ e = .conversion m := by
  cases ho with
  | @failed front back q before i e hi hp hl hn hs he =>
    refine ⟨nofun, ?_⟩
    rintro _ ⟨⟩
    refine .inl ⟨i, ?_, he⟩
    rw [hl]
    exact List.mem_append_right _ List.mem_cons_self
  | @invalid front back o m hi hp hn hs hv =>
    refine ⟨nofun, ?_⟩
    rintro _ ⟨⟩
    have hmem : .print o ∈ t.program ctx := by
      rw [hi]
      exact List.mem_append_right _ List.mem_cons_self
    obtain hc | ⟨c, m', hn, hc, hm⟩ := h.print_clean hmem hres hv
    · exact absurd .invalid (hc m)
    · cases hm
      exact .inr ⟨c, m, hn, hc, rfl⟩
  | finished ws hn hs hw hvalid =>
    refine ⟨?_, nofun⟩
    rintro _ ⟨⟩
    refine ⟨ws, hw, fun w hmem => ?_, rfl⟩
    have hsome : some w ∈ (prints (t.program ctx)).map (·.value? (results log)) := by
      rw [hw]
      exact List.mem_map_of_mem hmem
    obtain ⟨o, ho, hv⟩ := List.mem_map.1 hsome
    obtain hc | ⟨c, m, -, -, rfl⟩ := h.print_clean (print_mem_of_mem_prints ho) hres hv
    · exact hc
    · exact absurd rfl (hvalid _ hmem m)

end

/-- What becomes of invalid values. One that is the value of a node fails the render with its
message; one that a value of a node holds is shown with its text, if the render succeeds. In a
guarded template, with functions that keep values clean, there is no other use of one: all
arguments are clean, a text is made of clean values, and only functions and invalid values that
nodes would print make it fail. -/
theorem Tree.render_invalid (host : Host σ) (ctx : Value) (t : Tree) (st : σ) :
    (∀ m st', t.Reaches host ctx st (.invalid m) st' →
      (t.render host ctx).run st = (.error (.conversion m), st')) ∧
    (∀ v m s st' st'', t.Reaches host ctx st v st' → v.Carries m →
      (t.render host ctx).run st = (.ok s, st'') → (invalidText m).toList <:+: s.toList) ∧
    (t.Guarded ctx → host.KeepsClean → ∃ log text st',
      (t.render host ctx).run st = (text, st') ∧
      (t.render host.recorded ctx).run (st, []) = (text, st', log) ∧
      (∀ i ∈ log, ∀ v ∈ i.args, v.Clean) ∧
      (∀ s, text = .ok s → ∃ ws : List Value,
        (prints (t.program ctx)).map (·.value? (results log)) = ws.map some ∧
        (∀ w ∈ ws, w.Clean) ∧ s = String.join (ws.map Value.display)) ∧
      ∀ e, text = .error e → (∃ i ∈ log, i.outcome = .error e) ∨
        ∃ c m, .call c ∈ t.nodes ∧ resolve ctx c.path = .invalid m ∧ e = .conversion m) := by
  refine ⟨fun m st' h => h.render_eq_error, fun v m s st' st'' h hv hs => ?_, fun hg hk => ?_⟩
  · exact hv.infix_display.trans (h.infix_render hs)
  · obtain ⟨log, r, st', he, hr, hrec⟩ := t.executes_recorded host ctx st
    have hclean := he.clean hk (fun q hq => hg.calls_clean hq) nofun
    have hres : ∀ v ∈ results log, v.Clean := by
      intro v hv
      obtain ⟨i, hi, ho⟩ := exists_of_mem_results hv
      exact (hclean i hi).2 v ho
    obtain ⟨text, ho, ht⟩ := he.outcome
    have htext : r.map Prod.snd = text := by
      rw [ht]
      cases text with
      | error _ => rfl
      | ok text => exact congrArg Except.ok String.empty_append
    rw [htext] at hr hrec
    exact ⟨log, text, st', hr, hrec, fun i hi => (hclean i hi).1, hg.outcome hres ho⟩

/-- A guarded template: the call of a base function comes before the node that prints an
invalid value. -/
theorem render_invalid_after_call :
    let host : Host Unit := Base.host
    let ctx : Value := .map [("f", .callable "concat"), ("y", .string "b"), ("x", .invalid "nope")]
    let t : Tree := ⟨[.text "a", .call ⟨"f", [.call "y" []]⟩, .call ⟨"x", []⟩]⟩
    t.Guarded ctx ∧ host.KeepsClean ∧ t.Reaches host ctx () (.invalid "nope") () ∧
      (t.render host ctx).run () = (.error (.conversion "nope"), ()) ∧
      ∃ log, (t.render host.recorded ctx).run ((), []) = (.error (.conversion "nope"), (), log) ∧
        ∀ i ∈ log, ∀ v ∈ i.args, v.Clean := by
  intro host ctx t
  obtain ⟨hfails, -, hguarded⟩ := t.render_invalid host ctx ()
  have hreaches : t.Reaches host ctx () (.invalid "nope") () :=
    ⟨[.text "a", .call ⟨"f", [.call "y" []]⟩], ⟨"x", []⟩, [], "ab", (), rfl, rfl, rfl⟩
  have hg : t.Guarded ctx := by
    intro c hc
    simp only [t, List.mem_cons, List.not_mem_nil, or_false, reduceCtorEq, false_or, Node.call.injEq] at hc
    rcases hc with rfl | rfl
    · exact ⟨.inl nofun, fun _ => ⟨⟨Value.clean_string "b", nofun⟩, trivial⟩⟩
    · exact ⟨.inr ⟨"nope", rfl⟩, nofun⟩
  have hk : host.KeepsClean := Base.host_keepsClean
  have htext := hfails _ _ hreaches
  obtain ⟨log, text, st', hr, hrec, hclean, -⟩ := hguarded hg hk
  obtain ⟨rfl, rfl⟩ := Prod.mk.inj (htext.symm.trans hr)
  exact ⟨hg, hk, hreaches, htext, log, hrec, hclean⟩

end Template

/-- A base function is called with an invalid value and joins its text, and a sequence that
holds one is printed. Both renders succeed. -/
theorem Environment.render_shows_invalid :
    let host : Host Unit := Base.host
    let call : Invocation := ⟨"concat", [.invalid "nope"], .ok (.string (invalidText "nope"))⟩
    (∃ e, new.render host.recorded "\x7bconcat(x)\x7d" (.map [("x", .invalid "nope")]) true ((), []) =
      ((.ok (invalidText "nope"), e), ((), [call]))) ∧
    ∃ e, new.render host "\x7bx\x7d" (.map [("x", .seq [.invalid "nope"])]) true () =
      ((.ok (invalidText "nope"), e), ()) := by
  intro host call
  have hcache : new.cache.Consistent := Cache.consistent_empty _
  have hcalls : Template.parseTree "\x7bconcat(x)\x7d" = .ok ⟨[.call ⟨"concat", [.call "x" []]⟩]⟩ := rfl
  have hprints : Template.parseTree "\x7bx\x7d" = .ok ⟨[.call ⟨"x", []⟩]⟩ := rfl
  have hjoined : String.join [invalidText "nope"] = invalidText "nope" := String.empty_append
  refine ⟨⟨_, render_eq_evaluated hcache rfl hcalls ?_⟩, _, render_eq_evaluated hcache rfl hprints ?_⟩
  · show (Except.ok ("" ++ String.join [invalidText "nope"]), ((), [(⟨"concat", [.invalid "nope"],
      .ok (.string (String.join [invalidText "nope"]))⟩ : Invocation)])) = _
    rw [String.empty_append, hjoined]
  · show (Except.ok ("" ++ invalidText "nope"), ()) = _
    rw [String.empty_append]

end Stencil

import Stencil.Proofs.Render.Invocation
import Stencil.Render

/-!
# The program of a template

In a fixed context a template asks for a fixed list of calls. They are numbered in the
order of the template, arguments before the call that they are for, and each argument
is either known from the context or the result of a call with a smaller number. With
the values that the template prints in between they make a program without branches.

* `Argument.plan`: the calls of an argument, and where its value is found;
* `Tree.program`, `Tree.calls`: the program of a template, and its calls;
* `Executes`: a run of a program, up to the first failure;
* `Tree.executes_program`: rendering a template is running its program.
-/

namespace Stencil.Template

variable {σ : Type}

/-- Where a value is found: it is known before any call, or it is the result of the call
with a number. -/
inductive Operand
  | known (v : Value)
  | result (n : Nat)

/-- The value, after calls with results. -/
def Operand.value? (results : List Value) : Operand → Option Value
  | known v => some v
  | result n => results[n]?

/-- A call that a template asks for. -/
structure Request where
  name : String
  operands : List Operand

/-! ## Calls in order -/

/-- The calls of a path whose arguments are planned: theirs, and then its own if it leads
to a callable. Any other path has no calls at all. -/
def request (ctx : Value) (path : String) (n : Nat) (args : List Request × List Operand) :
    List Request × Operand :=
  match Path.resolve ctx path with
  | .callable name => (args.1 ++ [⟨name, args.2⟩], .result (n + args.1.length))
  | v => ([], .known v)

mutual

/-- The calls of an argument, numbered from `n` on, and where its value is found. -/
def Argument.plan (ctx : Value) (n : Nat) : Argument → List Request × Operand
  | .string s => ([], .known (.string s))
  | .number x => ([], .known (.float x))
  | .call path args => request ctx path n (Argument.planAll ctx n args)

/-- The calls of arguments from left to right, and where their values are found. -/
def Argument.planAll (ctx : Value) (n : Nat) : List Argument → List Request × List Operand
  | [] => ([], [])
  | a :: rest =>
    let (calls, operand) := a.plan ctx n
    let (others, operands) := Argument.planAll ctx (n + calls.length) rest
    (calls ++ others, operand :: operands)

end

/-- The calls of a variable, and where its value is found. -/
def Call.plan (ctx : Value) (n : Nat) (c : Call) : List Request × Operand :=
  request ctx c.path n (Argument.planAll ctx n c.args)

/-- A step of a program. -/
inductive Instruction
  | invoke (q : Request)
  | print (o : Operand)

/-- The call that an instruction asks for. -/
def Instruction.request? : Instruction → Option Request
  | invoke q => some q
  | print _ => none

/-- The value that an instruction prints. -/
def Instruction.printed? : Instruction → Option Operand
  | invoke _ => none
  | print o => some o

/-- The calls of a program. -/
def calls (is : List Instruction) : List Request := is.filterMap Instruction.request?

/-- The values that a program prints. -/
def prints (is : List Instruction) : List Operand := is.filterMap Instruction.printed?

/-- The program of a node, its calls numbered from `n` on: the calls, then the value. -/
def Node.program (ctx : Value) (n : Nat) : Node → List Instruction
  | .text s => [.print (.known (.string s))]
  | .call c =>
    let (calls, operand) := c.plan ctx n
    calls.map .invoke ++ [.print operand]

/-- The program of nodes from left to right. -/
def Node.programAll (ctx : Value) (n : Nat) : List Node → List Instruction
  | [] => []
  | node :: rest =>
    let is := node.program ctx n
    is ++ Node.programAll ctx (n + (calls is).length) rest

/-- The program of a template in a context. -/
def Tree.program (ctx : Value) (t : Tree) : List Instruction := Node.programAll ctx 0 t.nodes

/-- The calls of a template in a context: those whose path leads to a callable, from left
to right, arguments before their call. -/
def Tree.calls (ctx : Value) (t : Tree) : List Request := Template.calls (t.program ctx)

/-! ## Runs -/

/-- A run of a program after calls with results `vs` and text `out`: the invocations that
it makes, and the results and the text at its end or the error that ends it. -/
inductive Executes (host : Host σ) : List Value → String → List Instruction → σ → List Invocation →
    Except Error (List Value × String) → σ → Prop
  | done {vs : List Value} {out : String} {st : σ} : Executes host vs out [] st [] (.ok (vs, out)) st
  | failed {vs args : List Value} {out : String} {q : Request} {is : List Instruction} {e : Error}
      {st st' : σ} (ha : q.operands.map (·.value? vs) = args.map some)
      (h : host.Answers ⟨q.name, args, .error e⟩ st st') :
      Executes host vs out (.invoke q :: is) st [⟨q.name, args, .error e⟩] (.error e) st'
  | answered {vs args : List Value} {out : String} {q : Request} {is : List Instruction} {v : Value}
      {log : List Invocation} {r : Except Error (List Value × String)} {st mid st' : σ}
      (ha : q.operands.map (·.value? vs) = args.map some) (h : host.Answers ⟨q.name, args, .ok v⟩ st mid)
      (hr : Executes host (vs ++ [v]) out is mid log r st') :
      Executes host vs out (.invoke q :: is) st (⟨q.name, args, .ok v⟩ :: log) r st'
  | unprintable {vs : List Value} {out : String} {o : Operand} {is : List Instruction} {v : Value}
      {e : Error} {st : σ} (ho : o.value? vs = some v) (h : printed v = .error e) :
      Executes host vs out (.print o :: is) st [] (.error e) st
  | printed {vs : List Value} {out text : String} {o : Operand} {is : List Instruction} {v : Value}
      {log : List Invocation} {r : Except Error (List Value × String)} {st st' : σ}
      (ho : o.value? vs = some v) (h : printed v = .ok text)
      (hr : Executes host vs (out ++ text) is st log r st') :
      Executes host vs out (.print o :: is) st log r st'

variable {host : Host σ} {vs vs' : List Value} {out out' : String} {is js : List Instruction}
  {log log' : List Invocation} {r : Except Error (List Value × String)} {e : Error} {st st' st'' : σ}

/-- Later results do not change the values that are there. -/
theorem Operand.value?_of_prefix {o : Operand} {v : Value} (h : o.value? vs = some v) (hp : vs <+: vs') :
    o.value? vs' = some v := by
  obtain ⟨us, rfl⟩ := hp
  cases o with
  | known _ => exact h
  | result n =>
    obtain ⟨hn, -⟩ := List.getElem?_eq_some_iff.1 h
    rw [value?, List.getElem?_append_left hn]
    exact h

@[simp] theorem calls_map_invoke (qs : List Request) : calls (qs.map .invoke) = qs := by
  induction qs with
  | nil => rfl
  | cons q qs ih => exact congrArg (q :: ·) ih

namespace Executes

theorem append (h : Executes host vs out is st log (.ok (vs', out')) st')
    (hj : Executes host vs' out' js st' log' r st'') :
    Executes host vs out (is ++ js) st (log ++ log') r st'' := by
  -- The result is generalised so that the induction reaches the runs of all shorter programs.
  generalize hr : (Except.ok (vs', out') : Except Error (List Value × String)) = r' at h
  induction h with
  | done => cases hr; exact hj
  | failed => cases hr
  | answered ha h _ ih => exact .answered ha h (ih hj hr)
  | unprintable => cases hr
  | printed ho h _ ih => exact .printed ho h (ih hj hr)

/-- What comes after a failure is not run. -/
theorem append_error (h : Executes host vs out is st log (.error e) st') :
    Executes host vs out (is ++ js) st log (.error e) st' := by
  generalize hr : (Except.error e : Except Error (List Value × String)) = r' at h
  induction h with
  | done => cases hr
  | failed ha h => cases hr; exact .failed ha h
  | answered ha h _ ih => exact .answered ha h (ih hr)
  | unprintable ho h => cases hr; exact .unprintable ho h
  | printed ho h _ ih => exact .printed ho h (ih hr)

/-- A complete run adds one result for each call. -/
theorem results (h : Executes host vs out is st log (.ok (vs', out')) st') :
    vs <+: vs' ∧ vs'.length = vs.length + (calls is).length := by
  generalize hr : (Except.ok (vs', out') : Except Error (List Value × String)) = r' at h
  induction h with
  | done => cases hr; exact ⟨List.prefix_rfl, rfl⟩
  | failed => cases hr
  | answered _ _ _ ih =>
    obtain ⟨hp, hl⟩ := ih hr
    refine ⟨(List.prefix_append _ _).trans hp, ?_⟩
    rw [hl, List.length_append, calls, calls, List.filterMap_cons]
    simp only [Instruction.request?, List.length_cons, List.length_nil]
    omega
  | unprintable => cases hr
  | printed _ _ _ ih => exact ih hr

end Executes

/-! ## Evaluation -/

variable {α β : Type} {qs qs' : List Request} {P : List Value → α → Prop} {Q : List Value → β → Prop}
  {m : Effect σ α} {k : α → Effect σ β}

theorem run_bind_ok {a : α} (h : m.run st = (.ok a, st')) : (m >>= k).run st = (k a).run st' := by
  show (let (r, s) := m.run st; ExceptT.bindCont k r s) = _
  rw [h]
  rfl

theorem run_bind_error (h : m.run st = (.error e, st')) : (m >>= k).run st = (.error e, st') := by
  show (let (r, s) := m.run st; ExceptT.bindCont k r s) = _
  rw [h]
  rfl

/-- After calls with results `vs`, a computation makes the calls `qs` in order. It fails
with the first of them that fails, and otherwise its value is as `P` says of all results. -/
def Makes (host : Host σ) (vs : List Value) (qs : List Request) (P : List Value → α → Prop)
    (m : Effect σ α) : Prop :=
  ∀ st out,
    (∃ a vs' log st', m.run st = (.ok a, st') ∧ P vs' a ∧
      Executes host vs out (qs.map .invoke) st log (.ok (vs', out)) st') ∨
    ∃ e log st', m.run st = (.error e, st') ∧ Executes host vs out (qs.map .invoke) st log (.error e) st'

theorem Makes.pure {a : α} (h : P vs a) : Makes host vs [] P (pure a) :=
  fun st _ => .inl ⟨a, vs, [], st, rfl, h, .done⟩

theorem Makes.bind (h : Makes host vs qs P m)
    (hk : ∀ vs' a, vs <+: vs' → vs'.length = vs.length + qs.length → P vs' a → Makes host vs' qs' Q (k a)) :
    Makes host vs (qs ++ qs') Q (m >>= k) := by
  intro st out
  rw [List.map_append]
  obtain ⟨a, vs', log, st', hm, ha, he⟩ | ⟨e, log, st', hm, he⟩ := h st out
  · have hrun := run_bind_ok (k := k) hm
    obtain ⟨hp, hl⟩ := he.results
    rw [calls_map_invoke] at hl
    obtain ⟨b, vs'', log', st'', hm', hb, he'⟩ | ⟨e, log', st'', hm', he'⟩ := hk vs' a hp hl ha st' out
    · exact .inl ⟨b, vs'', log ++ log', st'', hrun.trans hm', hb, he.append he'⟩
    · exact .inr ⟨e, log ++ log', st'', hrun.trans hm', he.append he'⟩
  · exact .inr ⟨e, log, st', run_bind_error hm, he.append_error⟩

theorem Makes.map {f : α → β} (h : Makes host vs qs P m)
    (hf : ∀ vs' a, vs <+: vs' → P vs' a → Q vs' (f a)) :
    Makes host vs qs Q (m >>= fun a => Pure.pure (f a)) := by
  have hb := Makes.bind (Q := Q) (k := fun a => Pure.pure (f a)) h fun vs' a hp _ ha => .pure (hf vs' a hp ha)
  rwa [List.append_nil] at hb

/-- A host makes the call that it is asked for. -/
theorem Makes.answer {q : Request} {args : List Value} (ha : q.operands.map (·.value? vs) = args.map some) :
    Makes host vs [q] (fun vs' v => vs'[vs.length]? = some v) (host q.name args) := by
  intro st out
  cases h : (host q.name args).run st with
  | mk r st' =>
    cases r with
    | ok v =>
      exact .inl ⟨v, vs ++ [v], [⟨q.name, args, .ok v⟩], st', rfl, List.getElem?_concat_length,
        .answered ha h .done⟩
    | error e => exact .inr ⟨e, _, st', rfl, .failed ha h⟩

theorem Makes.lookUp {ctx : Value} {path : String} {args : Effect σ (List Value)}
    {plan : List Request × List Operand}
    (h : Makes host vs plan.1 (fun vs' ws => plan.2.map (·.value? vs') = ws.map some) args) :
    Makes host vs (request ctx path vs.length plan).1
      (fun vs' v => (request ctx path vs.length plan).2.value? vs' = some v)
      (lookUp host ctx path args) := by
  cases hv : Path.resolve ctx path with
  | callable name =>
    simp only [Template.lookUp, request, hv]
    refine Makes.bind h fun vs' ws hp hl hw => ?_
    rw [← hl]
    exact Makes.answer hw
  | _ =>
    simp only [Template.lookUp, request, hv]
    exact Makes.pure rfl

mutual

/-- Evaluating an argument makes the calls of its plan, and gives the value of its
operand. -/
theorem Argument.makes (host : Host σ) (ctx : Value) (a : Argument) (vs : List Value) :
    Makes host vs (a.plan ctx vs.length).1 (fun vs' v => (a.plan ctx vs.length).2.value? vs' = some v)
      (a.eval host ctx) := by
  cases a with
  | string s => exact Makes.pure rfl
  | number x => exact Makes.pure rfl
  | call path args => exact Makes.lookUp (Argument.makesAll host ctx args vs)

theorem Argument.makesAll (host : Host σ) (ctx : Value) (as : List Argument) (vs : List Value) :
    Makes host vs (Argument.planAll ctx vs.length as).1
      (fun vs' ws => (Argument.planAll ctx vs.length as).2.map (·.value? vs') = ws.map some)
      (Argument.evalAll host ctx as) := by
  cases as with
  | nil => exact Makes.pure rfl
  | cons a rest =>
    rw [Argument.evalAll]
    refine Makes.bind (a.makes host ctx vs) fun vs' v _ hl hv => ?_
    -- The numbers of the other arguments go on after the results of the first.
    rw [← hl]
    refine Makes.map (Argument.makesAll host ctx rest vs') fun us ws hp hw => ?_
    simp only [Argument.planAll, List.map_cons]
    rw [← hl, hw, Operand.value?_of_prefix hv hp]

end

/-! ## Rendering -/

/-- Rendering a node is running its program. -/
theorem Node.executes_program (host : Host σ) (ctx : Value) (node : Node) (vs : List Value) (out : String)
    (st : σ) :
    (∃ text vs' log st', (node.render host ctx).run st = (.ok text, st') ∧
      Executes host vs out (node.program ctx vs.length) st log (.ok (vs', out ++ text)) st') ∨
    ∃ e log st', (node.render host ctx).run st = (.error e, st') ∧
      Executes host vs out (node.program ctx vs.length) st log (.error e) st' := by
  cases node with
  | text s => exact .inl ⟨s, vs, [], st, rfl, .printed rfl rfl .done⟩
  | call c =>
    have hm : Makes host vs (c.plan ctx vs.length).1
        (fun vs' v => (c.plan ctx vs.length).2.value? vs' = some v) (c.eval host ctx) :=
      .lookUp (Argument.makesAll host ctx c.args vs)
    rw [Node.render]
    obtain ⟨v, vs', log, st', hr, hv, he⟩ | ⟨e, log, st', hr, he⟩ := hm st out
    · rw [run_bind_ok hr]
      cases hp : printed v with
      | ok text =>
        refine .inl ⟨text, vs', log ++ [], st', rfl, he.append (.printed hv hp .done)⟩
      | error e => exact .inr ⟨e, log ++ [], st', rfl, he.append (.unprintable hv hp)⟩
    · exact .inr ⟨e, log, st', run_bind_error hr, he.append_error⟩

theorem Node.executes_programAll (host : Host σ) (ctx : Value) (nodes : List Node) (vs : List Value)
    (out : String) (st : σ) :
    ∃ log r st', Executes host vs out (Node.programAll ctx vs.length nodes) st log r st' ∧
      (renderNodes host ctx nodes out).run st = (r.map Prod.snd, st') := by
  induction nodes generalizing vs out st with
  | nil => exact ⟨[], _, st, .done, rfl⟩
  | cons node rest ih =>
    rw [renderNodes]
    obtain ⟨text, vs', log, st', hr, he⟩ | ⟨e, log, st', hr, he⟩ := node.executes_program host ctx vs out st
    · obtain ⟨log', r, st'', he', hr'⟩ := ih vs' (out ++ text) st'
      rw [he.results.2] at he'
      exact ⟨log ++ log', r, st'', he.append he', (run_bind_ok hr).trans hr'⟩
    · exact ⟨log, .error e, st', he.append_error, run_bind_error hr⟩

/-- Rendering a template is running its program. -/
theorem Tree.executes_program (host : Host σ) (ctx : Value) (t : Tree) (st : σ) :
    ∃ log r st', Executes host [] "" (t.program ctx) st log r st' ∧
      (t.render host ctx).run st = (r.map Prod.snd, st') :=
  Node.executes_programAll host ctx t.nodes [] "" st

end Stencil.Template

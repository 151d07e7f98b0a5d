import Stencil.Proofs.Render.Program

/-!
# The order of calls

Rendering a template makes the calls of its program one after the other, up to the first
failure: an invocation that fails, or a value that cannot be printed.

* `Follows`: invocations are the first ones of a list of calls, each with the values of
  its operands;
* `Outcome`: how a rendering with given invocations ends;
* `Tree.render_in_order`: what rendering a template does.
-/

namespace Stencil.Template

variable {σ : Type}

/-- Invocations are the first calls of a list, in order, and each of them gets the values of
its operands, given the results `vs` and those of the invocations before it. -/
def Follows (vs : List Value) (qs : List Request) (log : List Invocation) : Prop :=
  ∀ (k : Nat) (i : Invocation), log[k]? = some i → ∃ q : Request, qs[k]? = some q ∧ i.name = q.name ∧
    i.args.map some = q.operands.map (·.value? (vs ++ results (log.take k)))

/-- No value that a program prints is invalid. -/
def Printable (vs : List Value) (is : List Instruction) : Prop :=
  ∀ o ∈ prints is, ∃ v, o.value? vs = some v ∧ ∀ m, v ≠ .invalid m

/-- How a rendering ends that made the invocations `log` and got the results `vs`. -/
inductive Outcome (is : List Instruction) (log : List Invocation) (vs : List Value) :
    Except Error String → Prop
  /-- All went well up to an invocation that failed, with its error. -/
  | failed (front back : List Instruction) (q : Request) (before : List Invocation) {i : Invocation}
      {e : Error} (hi : is = front ++ .invoke q :: back) (hp : Printable vs front)
      (hl : log = before ++ [i]) (hn : before.length = (calls front).length)
      (hs : ∀ j ∈ before, j.Succeeds) (h : i.outcome = .error e) : Outcome is log vs (.error e)
  /-- All went well up to a value that is invalid. -/
  | invalid (front back : List Instruction) {o : Operand} {m : String} (hi : is = front ++ .print o :: back)
      (hp : Printable vs front) (hn : log.length = (calls front).length) (hs : ∀ j ∈ log, j.Succeeds)
      (h : o.value? vs = some (.invalid m)) : Outcome is log vs (.error (.conversion m))
  /-- All went well; the text is made of the values that are printed. -/
  | finished (ws : List Value) (hn : log.length = (calls is).length) (hs : ∀ j ∈ log, j.Succeeds)
      (hw : (prints is).map (·.value? vs) = ws.map some) (h : ∀ w ∈ ws, ∀ m, w ≠ .invalid m) :
      Outcome is log vs (.ok (String.join (ws.map Value.display)))

variable {host : Host σ} {vs vs' : List Value} {out : String} {is : List Instruction}
  {log log' : List Invocation} {r r' : Except Error (List Value × String)} {st st' st'' : σ}

/-- A value is invalid and cannot be printed, or it is printed as it is displayed. -/
theorem printed_cases (v : Value) :
    (∃ m, v = .invalid m ∧ printed v = .error (.conversion m)) ∨
      (∀ m, v ≠ .invalid m) ∧ printed v = .ok v.display := by
  cases v with
  | invalid m => exact .inl ⟨m, rfl, rfl⟩
  | _ => exact .inr ⟨by simp, rfl⟩

theorem Follows.cons {q : Request} {qs : List Request} {args : List Value} {o : Except Error Value}
    (ha : q.operands.map (·.value? vs) = args.map some)
    (h : Follows (vs ++ results [⟨q.name, args, o⟩]) qs log) :
    Follows vs (q :: qs) (⟨q.name, args, o⟩ :: log) := by
  intro k i hk
  cases k with
  | zero =>
    rw [List.getElem?_cons_zero, Option.some.injEq] at hk
    subst hk
    refine ⟨q, rfl, rfl, ?_⟩
    rw [List.take_zero, results_nil, List.append_nil]
    exact ha.symm
  | succ k =>
    obtain ⟨q', hq, hn, ha'⟩ := h k i hk
    refine ⟨q', hq, hn, ?_⟩
    rw [ha', List.take_succ_cons, List.append_assoc, ← results_append, List.singleton_append]

theorem printable_nil (vs : List Value) : Printable vs [] := by
  intro o ho
  cases ho

theorem Printable.print {o : Operand} {v : Value} (ho : o.value? vs = some v) (hv : ∀ m, v ≠ .invalid m)
    (h : Printable vs is) : Printable vs (.print o :: is) := by
  intro o' ho'
  rcases List.mem_cons.1 ho' with rfl | ho'
  · exact ⟨v, ho, hv⟩
  · exact h o' ho'

namespace Outcome

variable {text : Except Error String}

theorem invoke {q : Request} {i : Invocation} (hi : i.Succeeds) (h : Outcome is log vs text) :
    Outcome (.invoke q :: is) (i :: log) vs text := by
  have hall {before : List Invocation} (hs : ∀ j ∈ before, j.Succeeds) : ∀ j ∈ i :: before, j.Succeeds :=
    List.forall_mem_cons.2 ⟨hi, hs⟩
  cases h with
  | failed front back q' before he hp hl hn hs h =>
    refine .failed (.invoke q :: front) back q' (i :: before) ?_ hp ?_ (congrArg Nat.succ hn) (hall hs) h
    · rw [he, List.cons_append]
    · rw [hl, List.cons_append]
  | invalid front back he hp hn hs h =>
    refine .invalid (.invoke q :: front) back ?_ hp (congrArg Nat.succ hn) (hall hs) h
    rw [he, List.cons_append]
  | finished ws hn hs hw h => exact .finished ws (congrArg Nat.succ hn) (hall hs) hw h

theorem print {o : Operand} {v : Value} (ho : o.value? vs = some v) (hv : ∀ m, v ≠ .invalid m)
    (h : Outcome is log vs text) : Outcome (.print o :: is) log vs (text.map (v.display ++ ·)) := by
  cases h with
  | failed front back q before he hp hl hn hs h =>
    refine .failed (.print o :: front) back q before ?_ (hp.print ho hv) hl hn hs h
    rw [he, List.cons_append]
  | invalid front back he hp hn hs h =>
    refine .invalid (.print o :: front) back ?_ (hp.print ho hv) hn hs h
    rw [he, List.cons_append]
  | finished ws hn hs hw h =>
    have hj : v.display ++ String.join (ws.map Value.display) = String.join ((v :: ws).map Value.display) := by
      rw [List.map_cons, String.join_cons]
    show Outcome _ _ _ (.ok (v.display ++ String.join (ws.map Value.display)))
    rw [hj]
    refine .finished (v :: ws) hn hs ?_ (List.forall_mem_cons.2 ⟨hv, h⟩)
    show o.value? vs :: (prints is).map (·.value? vs) = some v :: ws.map some
    rw [ho, hw]

end Outcome

/-- A call has one list of arguments, and the host one answer to it. -/
theorem answers_unique {q : Request} {args args' : List Value} {o o' : Except Error Value}
    (ha : q.operands.map (·.value? vs) = args.map some) (ha' : q.operands.map (·.value? vs) = args'.map some)
    (h : host.Answers ⟨q.name, args, o⟩ st st') (h' : host.Answers ⟨q.name, args', o'⟩ st st'') :
    args = args' ∧ o = o' ∧ st' = st'' := by
  obtain rfl : args = args' := (List.map_inj_right fun _ _ => Option.some.inj).1 (ha.symm.trans ha')
  obtain ⟨ho, hs⟩ := Prod.mk.inj (h.symm.trans h')
  exact ⟨rfl, ho, hs⟩

namespace Executes

/-- A program runs in one way only. -/
theorem unique (h : Executes host vs out is st log r st') (h' : Executes host vs out is st log' r' st'') :
    log = log' ∧ r = r' ∧ st' = st'' := by
  induction h generalizing log' with
  | done => cases h'; exact ⟨rfl, rfl, rfl⟩
  | failed ha h =>
    cases h' with
    | failed ha' h' =>
      obtain ⟨rfl, ho, rfl⟩ := answers_unique ha ha' h h'
      cases ho
      exact ⟨rfl, rfl, rfl⟩
    | answered ha' h' => cases (answers_unique ha ha' h h').2.1
  | answered ha h _ ih =>
    cases h' with
    | failed ha' h' => cases (answers_unique ha ha' h h').2.1
    | answered ha' h' hr' =>
      obtain ⟨rfl, ho, rfl⟩ := answers_unique ha ha' h h'
      cases ho
      obtain ⟨rfl, rfl, rfl⟩ := ih hr'
      exact ⟨rfl, rfl, rfl⟩
  | unprintable ho h =>
    cases h' with
    | unprintable ho' h' =>
      cases ho.symm.trans ho'
      cases h.symm.trans h'
      exact ⟨rfl, rfl, rfl⟩
    | printed ho' h' =>
      cases ho.symm.trans ho'
      cases h.symm.trans h'
  | printed ho h _ ih =>
    cases h' with
    | unprintable ho' h' =>
      cases ho.symm.trans ho'
      cases h.symm.trans h'
    | printed ho' h' hr' =>
      cases ho.symm.trans ho'
      cases h.symm.trans h'
      exact ih hr'

/-- A recorded run is the same run, and the record is the list of its invocations. -/
theorem of_recorded {s s' : σ × List Invocation} (h : Executes host.recorded vs out is s log r s') :
    Executes host vs out is s.1 log r s'.1 ∧ s'.2 = s.2 ++ log := by
  induction h with
  | done => exact ⟨.done, (List.append_nil _).symm⟩
  | failed ha h => exact ⟨.failed ha h.of_recorded.1, h.of_recorded.2⟩
  | answered ha h _ ih =>
    obtain ⟨h, hl⟩ := h.of_recorded
    refine ⟨.answered ha h ih.1, ?_⟩
    rw [ih.2, hl, List.append_assoc, List.singleton_append]
  | unprintable ho h => exact ⟨.unprintable ho h, (List.append_nil _).symm⟩
  | printed ho h _ ih => exact ⟨.printed ho h ih.1, ih.2⟩

theorem inTurn (h : Executes host vs out is st log r st') : InTurn host.Answers log st st' := by
  induction h with
  | done | unprintable => exact .nil
  | failed _ h => exact .cons h .nil
  | answered _ h _ ih => exact .cons h ih
  | printed _ _ _ ih => exact ih

theorem follows (h : Executes host vs out is st log r st') : Follows vs (calls is) log := by
  induction h with
  | done | unprintable =>
    intro k i hk
    cases hk
  | failed ha h =>
    refine .cons ha fun k i hk => ?_
    cases hk
  | answered ha h _ ih => exact .cons ha ih
  | printed _ _ _ ih => exact ih

/-- The outcome of a run. Its values are found among all results in the end, as later results
change none of them. -/
theorem outcome (h : Executes host vs out is st log r st') :
    ∃ text, Outcome is log (vs ++ Stencil.results log) text ∧ r.map Prod.snd = text.map (out ++ ·) := by
  induction h with
  | @done _ out =>
    refine ⟨.ok "", .finished [] rfl (by simp) rfl (by simp), ?_⟩
    show Except.ok out = Except.ok (out ++ "")
    rw [String.append_empty]
  | failed _ h =>
    exact ⟨.error _, .failed [] _ _ [] rfl (printable_nil _) rfl rfl (by simp) rfl, rfl⟩
  | answered _ _ _ ih =>
    obtain ⟨text, ho, hr⟩ := ih
    refine ⟨text, ?_, hr⟩
    rw [List.append_assoc] at ho
    exact ho.invoke ⟨_, rfl⟩
  | @unprintable vs _ o _ v _ _ ho h =>
    obtain ⟨m, rfl, hp⟩ | ⟨-, hp⟩ := printed_cases v
    · cases hp.symm.trans h
      refine ⟨.error (.conversion m), .invalid [] _ rfl (printable_nil _) rfl (by simp) ?_, rfl⟩
      exact Operand.value?_of_prefix ho (List.prefix_append _ _)
    · cases hp.symm.trans h
  | @printed vs out _ o _ v log r _ _ ho h _ ih =>
    obtain ⟨text, ho', hr⟩ := ih
    obtain ⟨m, -, hp⟩ | ⟨hv, hp⟩ := printed_cases v
    · cases hp.symm.trans h
    · cases hp.symm.trans h
      refine ⟨_, ho'.print (Operand.value?_of_prefix ho (List.prefix_append _ _)) hv, ?_⟩
      rw [hr]
      cases text with
      | error _ => rfl
      | ok text =>
        show Except.ok (out ++ v.display ++ text) = Except.ok (out ++ (v.display ++ text))
        rw [String.append_assoc]

end Executes

/-! ## Templates -/

/-- What rendering a template does. It makes the first calls of the template in order, each
with the values of its arguments and each of them over before the next one; functions
convert their arguments first and do the work before and after a suspension. It ends at the
first call that fails, with its error, or at the first value that is invalid, and otherwise
it makes all calls and gives the text. -/
theorem Tree.render_in_order (host : Host σ) (ctx : Value) (t : Tree) (st : σ) :
    ∃ log text st',
      (t.render host ctx).run st = (text, st') ∧
      (t.render host.recorded ctx).run (st, []) = (text, st', log) ∧
      InTurn host.Answers log st st' ∧
      (∀ functions, host = .ofFunctions functions → InTurn (Invocation.Served functions) log st st') ∧
      Follows [] (t.calls ctx) log ∧
      Outcome (t.program ctx) log (results log) text := by
  -- The recorded rendering runs the program too, and the program runs in one way only.
  obtain ⟨log, r, s', he, hr⟩ := t.executes_program host.recorded ctx (st, [])
  obtain ⟨he, hl⟩ := he.of_recorded
  obtain ⟨log', r', st', he', hr'⟩ := t.executes_program host ctx st
  obtain ⟨rfl, rfl, rfl⟩ := he'.unique he
  obtain ⟨text, ho, ht⟩ := he.outcome
  have htext : r'.map Prod.snd = text := by
    rw [ht]
    cases text with
    | error _ => rfl
    | ok text => exact congrArg Except.ok String.empty_append
  refine ⟨log', text, s'.1, ?_, ?_, he.inTurn, fun functions hf => ?_, he.follows, ho⟩
  · rw [hr', htext]
  · rw [hr, htext, ← List.nil_append log', ← hl]
  · subst hf
    exact he.inTurn.imp Host.Answers.served

/-- A suspended function that counts its calls, called with what it gave. -/
theorem render_in_order_nested :
    ∃ (functions : List (String × Function Nat)) (log : List Invocation),
      (Tree.render (.ofFunctions functions) (.map [("f", .callable "f")])
        ⟨[.call ⟨"f", [.call "f" [.string "a"]]⟩]⟩).run 0 = (.ok "a", 2) ∧
      results log = [.string "a", .string "a"] ∧ InTurn (Invocation.Served functions) log 0 2 := by
  let functions : List (String × Function Nat) :=
    [("f", ⟨[.text], fun xs => .suspend (· + 1) (.done (return .string xs.1))⟩)]
  obtain ⟨log, text, st', h, hl, -, hs, -⟩ := Tree.render_in_order (.ofFunctions functions)
    (.map [("f", .callable "f")]) ⟨[.call ⟨"f", [.call "f" [.string "a"]]⟩]⟩ 0
  obtain ⟨rfl, rfl⟩ : text = .ok "a" ∧ st' = 2 := Prod.mk.inj h.symm
  obtain ⟨-, hl⟩ := Prod.mk.inj (Prod.mk.inj hl).2
  exact ⟨functions, log, h, by rw [← hl]; rfl, hs functions rfl⟩

end Stencil.Template

import Stencil.Function.Task

/-!
# Invocations

What a host is asked to do while a template is rendered, and how it does it.

* `Invocation`: one call of the host with its outcome;
* `Host.recorded`: a host that writes down every call it has finished;
* `InTurn`: invocations one after the other, each of them from the state that the one
  before leaves;
* `Host.Answers`, `Invocation.Served`: what one invocation does, by a host and by a table
  of functions. The second sets out the conversion of the arguments and the parts of
  suspended work;
* `Host.Answers.served`: the host of a table does what the table does.
-/

namespace Stencil

variable {σ : Type}

/-- A call of the host: the name of the callable, the arguments and the outcome. -/
structure Invocation where
  name : String
  args : List Value
  outcome : Except Error Value

/-- The invocation gave a value. -/
def Invocation.Succeeds (i : Invocation) : Prop := ∃ v, i.outcome = .ok v

/-- The values that invocations gave, in order. -/
def results (log : List Invocation) : List Value := log.filterMap fun i => i.outcome.toOption

@[simp] theorem results_nil : results [] = [] := rfl

theorem results_append (log log' : List Invocation) : results (log ++ log') = results log ++ results log' :=
  List.filterMap_append

/-- The host that writes down what it is asked and what it answered, once it is done. -/
def Host.recorded (host : Host σ) : Host (σ × List Invocation) := fun name args (st, log) =>
  let (outcome, st) := (host name args).run st
  (outcome, st, log ++ [⟨name, args, outcome⟩])

/-- The host answers an invocation, on the way from one state to another. -/
def Host.Answers (host : Host σ) (i : Invocation) (st st' : σ) : Prop :=
  (host i.name i.args).run st = (i.outcome, st')

/-- A recorded host answers as the host does, and writes the invocation down. -/
theorem Host.Answers.of_recorded {host : Host σ} {i : Invocation} {s s' : σ × List Invocation}
    (h : host.recorded.Answers i s s') : host.Answers i s.1 s'.1 ∧ s'.2 = s.2 ++ [i] := by
  have ho : ((host i.name i.args).run s.1).1 = i.outcome := congrArg Prod.fst h
  obtain ⟨-, rfl⟩ := Prod.mk.inj h
  refine ⟨Prod.ext ho rfl, ?_⟩
  show s.2 ++ [⟨i.name, i.args, ((host i.name i.args).run s.1).1⟩] = s.2 ++ [i]
  rw [ho]

/-- Invocations in order, between two states. Each is over, with all its effects, before
the next one starts. -/
inductive InTurn (does : Invocation → σ → σ → Prop) : List Invocation → σ → σ → Prop
  | nil {st : σ} : InTurn does [] st st
  | cons {i : Invocation} {rest : List Invocation} {st mid st' : σ} (h : does i st mid)
      (hr : InTurn does rest mid st') : InTurn does (i :: rest) st st'

theorem InTurn.imp {does does' : Invocation → σ → σ → Prop} {log : List Invocation} {st st' : σ}
    (hi : ∀ {i st st'}, does i st st' → does' i st st') (h : InTurn does log st st') :
    InTurn does' log st st' := by
  induction h with
  | nil => exact .nil
  | cons h _ ih => exact .cons (hi h) ih

/-! ## Functions -/

/-- The work of a task from one state to another: all its parts, then the last one, which
gives the outcome. -/
inductive Task.Works : Task σ → σ → Except Error Value → σ → Prop
  | done {last : Effect σ Value} {st st' : σ} {outcome : Except Error Value}
      (h : last.run st = (outcome, st')) : Works (.done last) st outcome st'
  | suspend {part : σ → σ} {rest : Task σ} {st st' : σ} {outcome : Except Error Value}
      (h : Works rest (part st) outcome st') : Works (.suspend part rest) st outcome st'

/-- A table of functions serves an invocation: arguments that cannot be converted are its
error and change nothing, and otherwise the function does all its work. -/
inductive Invocation.Served (functions : List (String × Function σ)) (i : Invocation) : σ → σ → Prop
  | unknown {st : σ} (hf : functions.lookup i.name = none) (h : i.outcome = .ok .undefined) :
      Served functions i st st
  | mismatched {st : σ} {f : Function σ} {m : Mismatch} (hf : functions.lookup i.name = some f)
      (hm : bindArguments f.params i.args = .error m) (h : i.outcome = .error m.toError) :
      Served functions i st st
  | worked {st st' : σ} {f : Function σ} {xs : Arguments f.params}
      (hf : functions.lookup i.name = some f) (hx : bindArguments f.params i.args = .ok xs)
      (h : (f.body xs).Works st i.outcome st') : Served functions i st st'

theorem Task.works_of_run {task : Task σ} {st st' : σ} {outcome : Except Error Value}
    (h : task.run.run st = (outcome, st')) : task.Works st outcome st' := by
  induction task generalizing st with
  | done last => exact .done h
  | suspend part rest ih => exact .suspend (ih h)

/-- What the host of a table answers, the table serves. -/
theorem Host.Answers.served {functions : List (String × Function σ)} {i : Invocation} {st st' : σ}
    (h : (Host.ofFunctions functions).Answers i st st') : i.Served functions st st' := by
  rw [Answers, ofFunctions] at h
  split at h
  · rename_i f hf
    rw [Function.call] at h
    split at h
    · rename_i m hm
      obtain ⟨ho, rfl⟩ := Prod.mk.inj h
      exact .mismatched hf hm ho.symm
    · rename_i xs hx
      exact .worked hf hx (Task.works_of_run h)
  · rename_i hf
    obtain ⟨ho, rfl⟩ := Prod.mk.inj h
    exact .unknown hf ho.symm

end Stencil

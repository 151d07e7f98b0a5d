import Mathlib
import Stencil.Proofs.Template.Run

/-!
# The states of reading

Whatever has been read, the state holds it in order: outside braces no call is open, and inside
them either some calls are, each the argument of the one below, or the root call is complete. Every
part of this leans on the others: a quote can only be open in a text because a path is read before
arguments, and a call can only be closed into the one below because that one waits for it.

* `OpenCall.Current`, `OpenCall.Waiting`: the call at the top of a stack, and those below it;
* `State.Coherent`: the states;
* `State.Coherent.step`, `State.Coherent.read`: what a character keeps, and what a run of them.
-/

namespace Stencil.Template

/-! ## Coherent states -/

/-- The call at the top of a stack. It is reading its path, and has no arguments then, or an
argument that is its own; a quote is open only in a text. -/
structure OpenCall.Current (o : OpenCall) : Prop where
  pending : o.pending ≠ .nested
  quoted : o.quoted = true → o.phase = .arguments ∧ ∃ s, o.pending = .string s
  path : o.phase = .path → o.args = #[] ∧ o.pending = .unset

/-- A call below another one, which is the argument that it is reading. -/
structure OpenCall.Waiting (o : OpenCall) : Prop where
  phase : o.phase = .arguments
  pending : o.pending = .nested
  quoted : o.quoted = false

theorem OpenCall.Current.of_arguments {o : OpenCall} (hphase : o.phase = .arguments)
    (hpending : o.pending ≠ .nested) (hquoted : o.quoted = false) : o.Current := by
  refine ⟨hpending, fun h => ?_, fun h => ?_⟩
  · cases hquoted.symm.trans h
  · cases hphase.symm.trans h

theorem OpenCall.Current.of_text {o : OpenCall} {w : String} (hphase : o.phase = .arguments)
    (hpending : o.pending = .string w) : o.Current := by
  refine ⟨by simp [hpending], fun _ => ⟨hphase, w, hpending⟩, fun h => ?_⟩
  cases hphase.symm.trans h

theorem OpenCall.Current.of_start (p : String) : OpenCall.Current { path := p } :=
  ⟨by simp, by simp, fun _ => ⟨rfl, rfl⟩⟩

/-- No quote is open in a path. -/
theorem OpenCall.Current.quoted_of_path {o : OpenCall} (h : o.Current) (hphase : o.phase = .path) :
    o.quoted = false := by
  refine Bool.eq_false_iff.2 fun hquoted => ?_
  cases hphase.symm.trans (h.quoted hquoted).1

/-- The end of an argument changes nothing but the arguments, and that none is pending. -/
theorem OpenCall.finishArgument_ok {o o' : OpenCall} {pos : Nat} (h : o.finishArgument pos = .ok o') :
    ∃ args, o' = { o with pending := .unset, args } := by
  rw [OpenCall.finishArgument] at h
  split at h
  · cases h
    exact ⟨_, rfl⟩
  · cases h
    exact ⟨_, rfl⟩
  · cases h
    exact ⟨_, rfl⟩
  · split at h
    · cases h
      exact ⟨_, rfl⟩
    · cases h

theorem forall_mem_dropLast_cons {α : Type} {p : α → Prop} {x : α} {xs : List α} :
    (∀ y ∈ (x :: xs).dropLast, p y) ↔ (xs ≠ [] → p x) ∧ ∀ y ∈ xs.dropLast, p y := by
  cases xs with
  | nil => simp
  | cons x' xs => simp

namespace State

/-- A state that holds what it has read in order. -/
structure Coherent (s : State) : Prop where
  outside : s.opened = none → s.stack = [] ∧ s.closed = none
  inside : s.opened ≠ none → (s.stack ≠ [] ∧ s.closed = none) ∨ (s.stack = [] ∧ s.closed.isSome)
  depth : s.stack.length ≤ maxNesting
  top : ∀ o ∈ s.stack.head?, o.Current
  below : ∀ o ∈ s.stack.tail, o.Waiting
  /-- Only the call at the bottom may be without a path so far. -/
  path : ∀ o ∈ s.stack.dropLast, o.path ≠ ""
  /-- In a variable a backslash waits for its character only between quotes. -/
  escape : s.opened ≠ none → s.escape = true → ∃ o ∈ s.stack.head?, o.quoted = true

variable {s t : State} {start pos : Nat} {top o : OpenCall} {below : List OpenCall} {c : Char}

theorem coherent_start : Coherent {} where
  outside _ := ⟨rfl, rfl⟩
  inside h := absurd rfl h
  depth := Nat.zero_le _
  top := by simp
  below := by simp
  path := by simp
  escape h := absurd rfl h

/-- Between arguments and in a number: the end of the list, the end of an argument, a number that goes
on, or what may start an argument. -/
theorem readArguments_cases (ht : s.readArguments pos top below c = .ok t) :
    (∃ o, top.finishArgument pos = .ok o ∧ t = State.closeCall { s with stack := o :: below }) ∨
    (∃ o, top.finishArgument pos = .ok o ∧ t = { s with stack := o :: below }) ∨
    (∃ w, t = { s with stack := { top with pending := .number w } :: below }) ∨
    s.readArgument pos top below c = .ok t := by
  rw [readArguments] at ht
  split_ifs at ht
  · cases ho : top.finishArgument pos with
    | error f => simp [ho, Except.map] at ht
    | ok o =>
      rw [ho] at ht
      cases ht
      exact .inl ⟨o, rfl, rfl⟩
  · cases ho : top.finishArgument pos with
    | error f => simp [ho, Except.map] at ht
    | ok o =>
      rw [ho] at ht
      cases ht
      exact .inr (.inl ⟨o, rfl, rfl⟩)
  · split at ht
    · cases ht
      exact .inr (.inr (.inl ⟨_, rfl⟩))
    · exact .inr (.inr (.inr ht))

namespace Coherent

/-- Outside braces it is enough that there are no calls. -/
theorem of_outside (hopened : s.opened = none) (hs : s.stack = []) (hclosed : s.closed = none) :
    s.Coherent := by
  refine ⟨fun _ => ⟨hs, hclosed⟩, fun hne => absurd hopened hne, ?_, ?_, ?_, ?_,
    fun hne => absurd hopened hne⟩ <;> simp [hs]

/-- Calls are open only in a variable whose root call is not complete. -/
theorem of_stack (h : s.Coherent) (hs : s.stack = top :: below) : s.opened ≠ none ∧ s.closed = none := by
  have hopened : s.opened ≠ none := fun hnone => by
    have := (h.outside hnone).1
    simp [hs] at this
  refine ⟨hopened, (h.inside hopened).elim And.right fun hclosed => ?_⟩
  simp [hs] at hclosed

theorem current (h : s.Coherent) (hs : s.stack = top :: below) : top.Current :=
  h.top top (by simp [hs])

theorem waiting (h : s.Coherent) (hs : s.stack = top :: below) (ho : o ∈ below) : o.Waiting :=
  h.below o (by simpa [hs] using ho)

/-- The call at the top may go on to read. -/
theorem setTop (h : s.Coherent) (hs : s.stack = top :: below) (ho : o.Current)
    (hpath : top.path ≠ "" → o.path ≠ "") {escape : Bool} (he : escape = true → o.quoted = true) :
    ({ s with stack := o :: below, escape } : State).Coherent := by
  obtain ⟨hopened, hclosed⟩ := h.of_stack hs
  obtain ⟨htop, hnames⟩ := forall_mem_dropLast_cons.1 (hs ▸ h.path)
  have hdepth := h.depth
  rw [hs] at hdepth
  refine ⟨fun hnone => absurd hnone hopened, fun _ => .inl ⟨List.cons_ne_nil _ _, hclosed⟩, hdepth,
    fun o' ho' => ?_, fun o' ho' => h.waiting hs ho',
    forall_mem_dropLast_cons.2 ⟨fun hbelow => hpath (htop hbelow), hnames⟩,
    fun _ hescape => ⟨o, rfl, he hescape⟩⟩
  cases ho'
  exact ho

theorem escape_eq_false (h : s.Coherent) (hs : s.stack = top :: below) (hq : top.quoted = false) :
    s.escape = false := by
  refine Bool.eq_false_iff.2 fun hescape => ?_
  obtain ⟨o, ho, hquoted⟩ := h.escape (h.of_stack hs).1 hescape
  rw [hs] at ho
  cases ho
  cases hq.symm.trans hquoted

theorem closeCall_escape (s : State) : s.closeCall.escape = s.escape := by
  rw [State.closeCall]
  split <;> rfl

/-- A variable may wait for its closing brace. -/
theorem of_closed (hopened : s.opened ≠ none) (hs : s.stack = []) (hclosed : s.closed.isSome = true)
    (he : s.escape = false) : s.Coherent := by
  refine ⟨fun hnone => absurd hnone hopened, fun _ => .inr ⟨hs, hclosed⟩, ?_, ?_, ?_, ?_, ?_⟩ <;>
    simp [hs, he]

/-- The call at the top may be completed, if there is one. -/
theorem closeCall (h : s.Coherent) (he : s.escape = false) : s.closeCall.Coherent := by
  rw [State.closeCall]
  split
  · exact h
  · rename_i root hs
    exact .of_closed (h.of_stack hs).1 rfl rfl he
  · rename_i top parent below hs
    obtain ⟨hopened, hclosed⟩ := h.of_stack hs
    have hparent := h.waiting hs List.mem_cons_self
    obtain ⟨-, hnames⟩ := forall_mem_dropLast_cons.1 (hs ▸ h.path)
    have hdepth := h.depth
    rw [hs] at hdepth
    refine ⟨fun hnone => absurd hnone hopened, fun _ => .inl ⟨List.cons_ne_nil _ _, hclosed⟩,
      Nat.le_of_succ_le hdepth, fun o ho => ?_,
      fun o ho => h.waiting hs (List.mem_cons_of_mem _ ho),
      forall_mem_dropLast_cons.2 (forall_mem_dropLast_cons.1 hnames), by simp [he]⟩
    cases ho
    exact .of_arguments hparent.phase (by simp) hparent.quoted

/-- A variable may be left once no call is open. -/
theorem leave (hs : s.stack = []) (ht : s.leave start = .ok t) : t.Coherent := by
  rw [State.leave] at ht
  split at ht
  · rename_i hclosed
    cases ht
    exact .of_outside rfl hs hclosed
  · split at ht
    · cases ht
    · cases ht
      exact .of_outside rfl hs rfl

/-! ## The steps -/

theorem readText (h : s.Coherent) (hopened : s.opened = none) (pos : Nat) (c : Char) :
    (s.readText pos c).Coherent := by
  obtain ⟨hstack, hclosed⟩ := h.outside hopened
  rw [State.readText]
  split_ifs with hescape
  · exact .of_outside hopened hstack hclosed
  · exact .of_outside hopened hstack hclosed
  · have hflush : s.flush.stack = s.stack ∧ s.flush.closed = s.closed ∧ s.flush.escape = s.escape := by
      rw [flush]
      split <;> exact ⟨rfl, rfl, rfl⟩
    rw [hstack]
    refine ⟨by simp, fun _ => .inl ⟨List.cons_ne_nil _ _, hflush.2.1.trans hclosed⟩,
      Nat.le_of_ble_eq_true rfl, fun o ho => ?_, by simp, by simp,
      fun _ he => absurd (hflush.2.2.symm.trans he) hescape⟩
    cases ho
    exact .of_start ""
  · exact .of_outside hopened hstack hclosed

theorem readPath (h : s.Coherent) (hs : s.stack = top :: below) (hphase : top.phase = .path)
    (ht : s.readPath start pos top below c = .ok t) : t.Coherent := by
  have hcurrent := h.current hs
  have hquoted : top.quoted = false := hcurrent.quoted_of_path hphase
  have hescape := h.escape_eq_false hs hquoted
  have hclose := h.closeCall hescape
  rw [readPath.eq_def] at ht
  split at ht
  · cases ht
    exact h.setTop (o := { top with phase := .arguments }) hs
      (.of_arguments rfl hcurrent.pending hquoted) id (by simp [hescape])
  · cases ht
    exact hclose
  · cases ht
    exact hclose.closeCall (by rw [closeCall_escape, hescape])
  · split at ht
    · rename_i hbelow
      exact Coherent.leave (by rw [State.closeCall, hs, List.isEmpty_iff.1 hbelow]) ht
    · cases ht
  · cases ht
    exact h.setTop (o := { top with path := top.path.push _ }) hs
      ⟨hcurrent.pending, hcurrent.quoted, hcurrent.path⟩ (fun _ => String.push_ne_empty)
      (by simp [hescape])

theorem readQuoted (h : s.Coherent) (hs : s.stack = top :: below) (hquoted : top.quoted = true)
    (c : Char) : (s.readQuoted top below c).Coherent := by
  have hcurrent := h.current hs
  obtain ⟨hphase, w, hw⟩ := hcurrent.quoted hquoted
  have hpush : (top.pushQuoted c).Current := by
    rw [OpenCall.pushQuoted, hw]
    exact .of_text hphase rfl
  have hpath : (top.pushQuoted c).path = top.path := by
    rw [OpenCall.pushQuoted, hw]
  rw [State.readQuoted]
  split_ifs with hescape
  · exact h.setTop hs hpush (fun hne => hpath ▸ hne) (by simp)
  · have hwait : ({ s with stack := top :: below, escape := true } : State).Coherent :=
      h.setTop hs hcurrent id fun _ => hquoted
    rwa [← hs] at hwait
  · exact h.setTop (o := { top with quoted := false }) hs (.of_arguments hphase hcurrent.pending rfl)
      id fun he => absurd he hescape
  · exact h.setTop hs hpush (fun hne => hpath ▸ hne) fun he => absurd he hescape

/-- A nested call may be opened if there is room for one. -/
theorem nest (h : s.Coherent) (hs : s.stack = top :: below) (hphase : top.phase = .arguments)
    (hquoted : top.quoted = false) (hroom : s.stack.length < maxNesting) {p : String} (hp : p ≠ "") :
    ({ s with stack := { path := p } :: { top with pending := .nested } :: below } : State).Coherent := by
  obtain ⟨hopened, hclosed⟩ := h.of_stack hs
  rw [hs] at hroom
  refine ⟨fun hnone => absurd hnone hopened, fun _ => .inl ⟨List.cons_ne_nil _ _, hclosed⟩, hroom,
    fun o ho => ?_, fun o ho => ?_,
    forall_mem_dropLast_cons.2 ⟨fun _ => hp,
      forall_mem_dropLast_cons.2 (forall_mem_dropLast_cons.1 (hs ▸ h.path))⟩,
    by simp [h.escape_eq_false hs hquoted]⟩
  · cases ho
    exact .of_start p
  · rcases List.mem_cons.1 ho with rfl | ho
    · exact ⟨hphase, rfl, hquoted⟩
    · exact h.waiting hs ho

theorem readArgument (h : s.Coherent) (hs : s.stack = top :: below) (hphase : top.phase = .arguments)
    (hquoted : top.quoted = false) (ht : s.readArgument pos top below c = .ok t) : t.Coherent := by
  have hescape := h.escape_eq_false hs hquoted
  rw [State.readArgument] at ht
  split_ifs at ht with _ _ _ _ hdeep
  · cases ht
    exact h
  · cases ht
    exact h.setTop (o := { top with pending := .string "", quoted := true }) hs
      (.of_text hphase rfl) id (by simp [hescape])
  · cases ht
    exact h.setTop (o := { top with pending := .number c.toString }) hs (.of_arguments hphase (by simp) hquoted)
      id (by simp [hescape])
  · cases ht
    exact h.nest hs hphase hquoted (Nat.lt_of_not_le hdeep) (by simp [Char.toString])

/-- The pending argument may be added. -/
theorem finish (h : s.Coherent) (hs : s.stack = top :: below) (hphase : top.phase = .arguments)
    (hquoted : top.quoted = false) (args : Array Argument) :
    ({ s with stack := { top with pending := .unset, args } :: below } : State).Coherent := by
  have hescape := h.escape_eq_false hs hquoted
  exact h.setTop (o := { top with pending := .unset, args }) hs (.of_arguments hphase (by simp) hquoted) id
    (by simp [hescape])

theorem readArguments (h : s.Coherent) (hs : s.stack = top :: below) (hphase : top.phase = .arguments)
    (hquoted : top.quoted = false) (ht : s.readArguments pos top below c = .ok t) : t.Coherent := by
  have hescape := h.escape_eq_false hs hquoted
  have hfinish {o : OpenCall} (ho : top.finishArgument pos = .ok o) :
      ({ s with stack := o :: below } : State).Coherent := by
    obtain ⟨args, rfl⟩ := OpenCall.finishArgument_ok ho
    exact h.finish hs hphase hquoted args
  rcases readArguments_cases ht with ⟨o, ho, rfl⟩ | ⟨o, ho, rfl⟩ | ⟨w, rfl⟩ | ht
  · exact (hfinish ho).closeCall hescape
  · exact hfinish ho
  · exact h.setTop (o := { top with pending := .number w }) hs (.of_arguments hphase (by simp) hquoted) id
      (by simp [hescape])
  · exact h.readArgument hs hphase hquoted ht

theorem readVariable (h : s.Coherent) (ht : s.readVariable start pos c = .ok t) : t.Coherent := by
  rw [State.readVariable] at ht
  split at ht
  · rename_i hs
    split_ifs at ht
    exact .leave hs ht
  · rename_i top below hs
    split at ht
    · rename_i hphase
      exact h.readPath hs hphase ht
    · rename_i hphase
      split_ifs at ht with hquoted
      · cases ht
        exact h.readQuoted hs hquoted c
      · exact h.readArguments hs hphase (Bool.eq_false_iff.2 hquoted) ht

/-- One character keeps the state in order. -/
theorem step (h : s.Coherent) (ht : s.step pos c = .ok t) : t.Coherent := by
  rw [State.step] at ht
  split at ht
  · exact h.readVariable ht
  · rename_i hopened
    cases ht
    exact h.readText hopened pos c

/-- So do all the characters that are read. -/
theorem read {cs : List Char} (h : s.Coherent) (ht : s.read pos cs = .ok t) : t.Coherent := by
  induction cs generalizing s pos with
  | nil =>
    cases ht
    exact h
  | cons c cs ih =>
    rw [State.read] at ht
    split at ht
    · rename_i hnext
      exact ih (h.step hnext) ht
    · cases ht

end Coherent

end State

end Stencil.Template

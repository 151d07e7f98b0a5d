import Mathlib
import Stencil.Proofs.Template.Coherence
import Stencil.Proofs.Template.Failure

/-!
# What reading keeps

The step of the reader is written for every state, so it has arms that drop what the state holds: a
character between quotes when no text is pending, a nested call that is not complete, a variable
without a call. Beside it stands a step that gives up in these arms. In a coherent state the two are
the same, so the arms are never taken:

* `State.step?`: the step that gives up;
* `State.Coherent.step?_eq`: it never does;
* `State.Lossless`: this, and what becomes of calls, quoted characters and nested calls;
* `State.read_coherent`: every state of reading is coherent and drops nothing.
-/

namespace Stencil.Template

/-! ## The step that gives up -/

/-- Adds the pending text or number, and gives up on a nested call that is not complete. -/
def OpenCall.finishArgument? (o : OpenCall) (pos : Nat) : Option (Except Failure OpenCall) :=
  if o.pending = .nested then none else some (o.finishArgument pos)

/-- Adds a character to a quoted argument, and gives up if there is none. -/
def OpenCall.pushQuoted? (o : OpenCall) (c : Char) : Option OpenCall :=
  match o.pending with
  | .string _ => some (o.pushQuoted c)
  | _ => none

/-- The call with another one as the argument that it is reading. -/
def OpenCall.accept (o : OpenCall) (call : Call) : OpenCall :=
  { o with args := o.args.push (.call call.path call.args), pending := .unset }

namespace State

/-- Completes the call at the top, and gives up if there is none, if it has an argument to come, if
the call below has another argument, or if a root call is held already. -/
def closeCall? (s : State) : Option State :=
  match s.stack with
  | [] => none
  | [root] => if root.pending = .unset ∧ s.closed.isNone then some s.closeCall else none
  | top :: parent :: _ =>
    if top.pending = .unset ∧ parent.pending = .nested then some s.closeCall else none

/-- Leaves the variable, and gives up if calls are open or if no root call is held. -/
def leave? (s : State) (start : Nat) : Option (Except Failure State) :=
  if s.stack.isEmpty ∧ s.closed.isSome then some (s.leave start) else none

/-- A character of a path. The bracket behind the path of a root call has no second call to
complete. -/
def readPath? (s : State) (start pos : Nat) (top : OpenCall) (below : List OpenCall) (c : Char) :
    Option (Except Failure State) :=
  match c with
  | ',' => s.closeCall?.map .ok
  | ')' => s.closeCall?.bind fun t => if t.stack.isEmpty then some (.ok t) else t.closeCall?.map .ok
  | '}' => if below.isEmpty then s.closeCall?.bind (·.leave? start) else some (.error ⟨.unclosedCall, pos⟩)
  | c => some (s.readPath start pos top below c)

/-- A character between quotes. -/
def readQuoted? (s : State) (top : OpenCall) (below : List OpenCall) (c : Char) : Option State :=
  if s.escape ∨ c ≠ '\\' ∧ c ≠ '"' then
    (top.pushQuoted? c).map fun top => { s with escape := false, stack := top :: below }
  else some (s.readQuoted top below c)

/-- A character between arguments. -/
def readArguments? (s : State) (pos : Nat) (top : OpenCall) (below : List OpenCall) (c : Char) :
    Option (Except Failure State) :=
  if c = ')' then
    (top.finishArgument? pos).bind fun
      | .ok top => (closeCall? { s with stack := top :: below }).map .ok
      | .error f => some (.error f)
  else if c = ',' then
    (top.finishArgument? pos).map fun r => r.map fun top => { s with stack := top :: below }
  else some (s.readArguments pos top below c)

/-- A character of a variable. -/
def readVariable? (s : State) (start pos : Nat) (c : Char) : Option (Except Failure State) :=
  match s.stack with
  | [] => if c = '}' then s.leave? start else some (.error ⟨.unexpected c, pos⟩)
  | top :: below =>
    match top.phase with
    | .path => s.readPath? start pos top below c
    | .arguments =>
      if top.quoted then (s.readQuoted? top below c).map .ok else s.readArguments? pos top below c

/-- The step that gives up wherever something would be dropped, and is `step` elsewhere. -/
def step? (s : State) (pos : Nat) (c : Char) : Option (Except Failure State) :=
  match s.opened with
  | some start => s.readVariable? start pos c
  | none => some (.ok (s.readText pos c))

variable {s t : State} {start pos : Nat} {top parent o : OpenCall} {below : List OpenCall} {c : Char}

theorem closeCall_root (hs : s.stack = [top]) :
    s.closeCall = { s with stack := [], closed := some top.toCall } := by
  rw [closeCall, hs]

theorem closeCall_nested (hs : s.stack = top :: parent :: below) :
    s.closeCall = { s with stack := parent.accept top.toCall :: below } := by
  rw [closeCall, hs]
  rfl

namespace Coherent

theorem finishArgument?_eq (h : s.Coherent) (hs : s.stack = top :: below) (pos : Nat) :
    top.finishArgument? pos = some (top.finishArgument pos) :=
  if_neg (h.current hs).pending

theorem pushQuoted?_eq (h : s.Coherent) (hs : s.stack = top :: below) (hquoted : top.quoted = true)
    (c : Char) : top.pushQuoted? c = some (top.pushQuoted c) := by
  obtain ⟨-, w, hw⟩ := (h.current hs).quoted hquoted
  rw [OpenCall.pushQuoted?, hw]

theorem closeCall?_eq (h : s.Coherent) (hs : s.stack = top :: below) (hpending : top.pending = .unset) :
    s.closeCall? = some s.closeCall := by
  rw [closeCall?, hs]
  cases below with
  | nil => simp [hpending, (h.of_stack hs).2]
  | cons parent rest => simp [hpending, (h.waiting hs List.mem_cons_self).pending]

theorem leave?_eq (h : s.Coherent) (hopened : s.opened ≠ none) (hs : s.stack = []) (start : Nat) :
    s.leave? start = some (s.leave start) := by
  have hclosed : s.closed.isSome = true := (h.inside hopened).elim (fun h => absurd hs h.1) And.right
  simp [leave?, hs, hclosed]

theorem readPath?_eq (h : s.Coherent) (hs : s.stack = top :: below) (hphase : top.phase = .path)
    (start pos : Nat) (c : Char) :
    s.readPath? start pos top below c = some (s.readPath start pos top below c) := by
  have hcurrent := h.current hs
  have hescape := h.escape_eq_false hs (hcurrent.quoted_of_path hphase)
  have hclose := h.closeCall?_eq hs (hcurrent.path hphase).2
  have hclosed := h.closeCall hescape
  rw [readPath?.eq_def, readPath.eq_def]
  split
  · rw [hclose]
    rfl
  · rw [hclose, Option.bind_some]
    cases below with
    | nil =>
      -- The root call is complete, and nothing is left for the second half of the bracket.
      rw [closeCall_root hs]
      rfl
    | cons parent rest =>
      have hstack : s.closeCall.stack = parent.accept top.toCall :: rest := by rw [closeCall_nested hs]
      rw [hclosed.closeCall?_eq hstack rfl]
      simp [hstack]
  · split_ifs with hbelow
    · have hroot := closeCall_root (List.isEmpty_iff.1 hbelow ▸ hs)
      rw [hclose, Option.bind_some]
      exact hclosed.leave?_eq (by rw [hroot]; exact (h.of_stack hs).1) (by rw [hroot]) start
    · rfl
  · rw [readPath.eq_def]

theorem readQuoted?_eq (h : s.Coherent) (hs : s.stack = top :: below) (hquoted : top.quoted = true)
    (c : Char) : s.readQuoted? top below c = some (s.readQuoted top below c) := by
  rw [readQuoted?, h.pushQuoted?_eq hs hquoted]
  split_ifs with hkept
  · rw [State.readQuoted]
    rcases hkept with hescape | ⟨hbackslash, hquote⟩
    · simp [hescape]
    · cases hescape : s.escape <;> simp [hbackslash, hquote]
  · rfl

theorem readArguments?_eq (h : s.Coherent) (hs : s.stack = top :: below) (hphase : top.phase = .arguments)
    (hquoted : top.quoted = false) (pos : Nat) (c : Char) :
    s.readArguments? pos top below c = some (s.readArguments pos top below c) := by
  rw [readArguments?, h.finishArgument?_eq hs, State.readArguments]
  split_ifs
  · rw [Option.bind_some]
    cases ho : top.finishArgument pos with
    | error f => rfl
    | ok o =>
      obtain ⟨args, rfl⟩ := OpenCall.finishArgument_ok ho
      have hcoherent := h.finish hs hphase hquoted args
      simp [Except.map, hcoherent.closeCall?_eq rfl rfl]
  · rfl
  · rfl

theorem readVariable?_eq (h : s.Coherent) (hopened : s.opened ≠ none) (start pos : Nat) (c : Char) :
    s.readVariable? start pos c = some (s.readVariable start pos c) := by
  rw [State.readVariable?, State.readVariable]
  cases hs : s.stack with
  | nil =>
    simp only [h.leave?_eq hopened hs]
    split_ifs <;> rfl
  | cons top below =>
    cases hphase : top.phase with
    | path => simpa only [hphase] using h.readPath?_eq hs hphase start pos c
    | arguments =>
      simp only [hphase]
      split_ifs with hquoted
      · rw [h.readQuoted?_eq hs hquoted]
        rfl
      · exact h.readArguments?_eq hs hphase (Bool.eq_false_iff.2 hquoted) pos c

/-- A step never comes to where something would be dropped. -/
theorem step?_eq (h : s.Coherent) (pos : Nat) (c : Char) : s.step? pos c = some (s.step pos c) := by
  rw [State.step?, State.step]
  cases hopened : s.opened with
  | some start => exact h.readVariable?_eq (by simp [hopened]) start pos c
  | none => rfl

end Coherent

/-! ## What is kept -/

/-- The variable of `s` is left behind with its root call as a node. -/
def LeavesCall (s t : State) : Prop :=
  ∃ call, (s.closed = some call ∨ ∃ root, s.stack = [root] ∧ root.toCall = call) ∧ call.path ≠ "" ∧
    t = { s with nodes := s.nodes.push (.call call), stack := [], closed := none, opened := none }

/-- The call at the top is taken up by the one below, with the argument that it was reading. That one
may be complete then, too. -/
def TakesUp (s : State) (pos : Nat) (top parent : OpenCall) (below : List OpenCall) (t : State) : Prop :=
  ∃ call, (call = top ∧ top.pending = .unset ∨ top.finishArgument pos = .ok call) ∧
    ∃ u : State, u = { s with stack := parent.accept call.toCall :: below } ∧ (t = u ∨ t = u.closeCall)

/-- One more character drops nothing of what the state holds. -/
structure Lossless (s : State) : Prop where
  /-- The step is nowhere where it would give up. -/
  checked : ∀ pos c, s.step? pos c = some (s.step pos c)
  /-- Where a variable is left, its call becomes a node. -/
  left : ∀ start pos c t, s.opened = some start → s.step pos c = .ok t → t.opened = none →
    s.LeavesCall t
  /-- Between quotes a character goes into the text, unless it is a mark itself. -/
  quoted : ∀ top below, s.stack = top :: below → top.quoted = true →
    ∃ w, top.pending = .string w ∧ ∀ pos c, s.escape = true ∨ c ≠ '\\' ∧ c ≠ '"' →
      s.step pos c =
        .ok { s with escape := false, stack := { top with pending := .string (w.push c) } :: below }
  /-- The calls below the top go on waiting for it, or take it up. -/
  nested : ∀ top parent below pos c t, s.stack = top :: parent :: below → s.step pos c = .ok t →
    parent.pending = .nested ∧ (parent :: below <:+ t.stack ∨ s.TakesUp pos top parent below t)

theorem opened_readArgument (ht : s.readArgument pos top below c = .ok t) : t.opened = s.opened := by
  rw [readArgument] at ht
  split_ifs at ht <;> cases ht <;> rfl

theorem opened_readArguments (ht : s.readArguments pos top below c = .ok t) : t.opened = s.opened := by
  rcases readArguments_cases ht with ⟨o, -, rfl⟩ | ⟨o, -, rfl⟩ | ⟨w, rfl⟩ | ht
  · exact opened_closeCall _
  · rfl
  · rfl
  · exact opened_readArgument ht

/-- The call that is held becomes a node, or its path is empty and leaving fails. -/
theorem leave_closed {call : Call} (hclosed : s.closed = some call) (ht : s.leave start = .ok t) :
    call.path ≠ "" ∧ t = { s with nodes := s.nodes.push (.call call), closed := none, opened := none } := by
  simp only [leave, hclosed] at ht
  split_ifs at ht with hempty
  cases ht
  exact ⟨fun hpath => hempty (by simp [hpath]), rfl⟩

namespace Coherent

theorem left (h : s.Coherent) (hopened : s.opened = some start) (ht : s.step pos c = .ok t)
    (hleft : t.opened = none) : s.LeavesCall t := by
  have hstays : t.opened ≠ s.opened := by simp [hleft, hopened]
  simp only [State.step, hopened, State.readVariable] at ht
  cases hs : s.stack with
  | nil =>
    simp only [hs] at ht
    split_ifs at ht
    obtain ⟨call, hclosed⟩ := Option.isSome_iff_exists.1
      ((h.inside (by simp [hopened])).elim (fun h => absurd hs h.1) And.right)
    obtain ⟨hpath, rfl⟩ := leave_closed hclosed ht
    exact ⟨call, .inl hclosed, hpath, by rw [hs]⟩
  | cons top below =>
    simp only [hs] at ht
    split at ht
    · rw [readPath.eq_def] at ht
      split at ht
      · cases ht
        exact absurd rfl hstays
      · cases ht
        exact absurd (opened_closeCall s) hstays
      · cases ht
        exact absurd ((opened_closeCall _).trans (opened_closeCall s)) hstays
      · split_ifs at ht with hbelow
        obtain rfl := List.isEmpty_iff.1 hbelow
        rw [closeCall_root hs] at ht
        obtain ⟨hpath, rfl⟩ := leave_closed rfl ht
        exact ⟨top.toCall, .inr ⟨top, hs, rfl⟩, hpath, rfl⟩
      · cases ht
        exact absurd rfl hstays
    · split_ifs at ht
      · cases ht
        exact absurd (opened_readQuoted s top below c) hstays
      · exact absurd (opened_readArguments ht) hstays

theorem quoted (h : s.Coherent) (hs : s.stack = top :: below) (hquoted : top.quoted = true) :
    ∃ w, top.pending = .string w ∧ ∀ pos c, s.escape = true ∨ c ≠ '\\' ∧ c ≠ '"' →
      s.step pos c =
        .ok { s with escape := false, stack := { top with pending := .string (w.push c) } :: below } := by
  obtain ⟨hphase, w, hw⟩ := (h.current hs).quoted hquoted
  obtain ⟨start, hopened⟩ := Option.ne_none_iff_exists'.1 (h.of_stack hs).1
  refine ⟨w, hw, fun pos c hkept => ?_⟩
  have hpush : top.pushQuoted c = { top with pending := .string (w.push c) } := by
    rw [OpenCall.pushQuoted, hw]
  simp only [State.step, hopened, State.readVariable, hs, hphase, hquoted, if_true, State.readQuoted, hpush]
  rcases hkept with hescape | ⟨hbackslash, hquote⟩
  · simp [hescape]
  · cases hescape : s.escape <;> simp [hbackslash, hquote]

theorem nested (h : s.Coherent) (hs : s.stack = top :: parent :: below) (ht : s.step pos c = .ok t) :
    parent.pending = .nested ∧ (parent :: below <:+ t.stack ∨ s.TakesUp pos top parent below t) := by
  refine ⟨(h.waiting hs List.mem_cons_self).pending, ?_⟩
  obtain ⟨start, hopened⟩ := Option.ne_none_iff_exists'.1 (h.of_stack hs).1
  simp only [State.step, hopened, State.readVariable, hs] at ht
  split at ht
  · rename_i hphase
    have hpending := ((h.current hs).path hphase).2
    rw [readPath.eq_def] at ht
    split at ht
    · cases ht
      exact .inl (List.suffix_cons _ _)
    · cases ht
      exact .inr ⟨top, .inl ⟨rfl, hpending⟩, _, rfl, .inl (closeCall_nested hs)⟩
    · cases ht
      exact .inr ⟨top, .inl ⟨rfl, hpending⟩, _, rfl, .inr (by rw [closeCall_nested hs])⟩
    · cases ht
    · cases ht
      exact .inl (List.suffix_cons _ _)
  · split_ifs at ht
    · cases ht
      left
      rw [State.readQuoted]
      split_ifs
      · exact List.suffix_cons _ _
      · exact hs ▸ List.suffix_cons _ _
      · exact List.suffix_cons _ _
      · exact List.suffix_cons _ _
    · rcases readArguments_cases ht with ⟨o, ho, rfl⟩ | ⟨o, -, rfl⟩ | ⟨w, rfl⟩ | ht
      · exact .inr ⟨o, .inr ho, _, rfl, .inl (closeCall_nested rfl)⟩
      · exact .inl (List.suffix_cons _ _)
      · exact .inl (List.suffix_cons _ _)
      · left
        rw [State.readArgument] at ht
        split_ifs at ht <;> cases ht
        · exact hs ▸ List.suffix_cons _ _
        · exact List.suffix_cons _ _
        · exact List.suffix_cons _ _
        · exact (List.suffix_cons _ _).trans (List.suffix_cons _ _)

theorem lossless (h : s.Coherent) : s.Lossless where
  checked := h.step?_eq
  left _ _ _ _ := h.left
  quoted _ _ := h.quoted
  nested _ _ _ _ _ _ := h.nested

end Coherent

/-- Whatever part of a source has been read, the state holds it in order, and the next character
drops nothing of it. -/
theorem read_coherent (source : String) (n : Nat)
    (h : State.read {} 0 (source.toList.take n) = .ok s) : s.Coherent ∧ s.Lossless :=
  have hcoherent := coherent_start.read h
  ⟨hcoherent, hcoherent.lossless⟩

/-- Two calls are open, a quote in the upper one, and a backslash waits for its character. -/
theorem read_coherent_escaped :
    ∃ s : State, State.read {} 0 ("\x7bf(1, g(\"x\\\"y\"))\x7d".toList.take 11) = .ok s ∧
      s.stack.length = 2 ∧ s.escape = true ∧ s.Coherent ∧ s.Lossless :=
  have h : State.read {} 0 ("\x7bf(1, g(\"x\\\"y\"))\x7d".toList.take 11) =
      .ok { opened := some 0, escape := true,
            stack := [
              { path := "g", phase := .arguments, pending := .string "x", quoted := true },
              { path := "f", args := #[.number 1], phase := .arguments, pending := .nested }] } := by
    rfl
  ⟨_, h, rfl, rfl, read_coherent _ 11 h⟩

end State

end Stencil.Template

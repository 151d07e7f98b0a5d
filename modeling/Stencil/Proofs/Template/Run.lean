import Stencil.Proofs.Template.Grammar

/-!
# Runs of the reader

How the state of reading moves over the phrases of the grammar, one lemma for each
kind of phrase. The states are given by what they hold (`outside`, `inside`,
`closing`), the open calls by what they are reading (`naming`, `listing`,
`quoting`), everything as lists, so that a run over a phrase appends to a list.

* `Runs`: the characters lead from one state to another, wherever they stand;
* `Finishes`: the characters complete a tree from a state on;
* `runs_literal_text`, `runs_path`, `runs_quoted`, `runs_numeral`: runs over single
  words.
-/

namespace Stencil.Template

/-! ## Shapes of open calls and states -/

/-- A call whose path is being read. -/
def OpenCall.naming (p : List Char) : OpenCall := { path := String.ofList p }

/-- A call whose arguments are being read, between quotes if at all. -/
def OpenCall.listing (p : List Char) (as : List Argument) (pending : Pending) : OpenCall :=
  { path := String.ofList p, args := as.toArray, phase := .arguments, pending }

/-- A call that is reading a text in quotes. -/
def OpenCall.quoting (p : List Char) (as : List Argument) (s : List Char) : OpenCall :=
  { path := String.ofList p, args := as.toArray, phase := .arguments,
    pending := .string (String.ofList s), quoted := true }

namespace State

/-- Outside braces, with the literal text since the last variable. -/
def outside (nodes : List Node) (s : List Char) : State :=
  { nodes := nodes.toArray, text := String.ofList s }

/-- In the variable that was opened at `start`, with its open calls. -/
def inside (nodes : List Node) (start : Nat) (stack : List OpenCall) : State :=
  { nodes := nodes.toArray, opened := some start, stack }

/-- Before the closing brace of a variable whose root call is complete. -/
def closing (nodes : List Node) (start : Nat) (call : Call) : State :=
  { nodes := nodes.toArray, opened := some start, closed := some call }

/-! ## Runs -/

/-- The characters lead from `s` to `t`, whatever the offset of the first one is. -/
def Runs (s : State) (cs : List Char) (t : State) : Prop := ∀ pos, s.read pos cs = .ok t

/-- From `s` on the characters are the rest of a template with the tree `t`. -/
def Finishes (s : State) (cs : List Char) (t : Tree) : Prop :=
  ∃ pos u, s.read pos cs = .ok u ∧ u.finish = .ok t

variable {s t u : State} {c : Char} {cs xs ys : List Char} {tree : Tree}

theorem read_append (s : State) (pos : Nat) (xs ys : List Char) :
    s.read pos (xs ++ ys) =
      match s.read pos xs with
      | .ok t => t.read (pos + xs.length) ys
      | .error f => .error f := by
  induction xs generalizing s pos with
  | nil => simp [read]
  | cons x xs ih =>
    simp only [List.cons_append, read]
    cases s.step pos x with
    | error f => rfl
    | ok t => simp only [ih, List.length_cons, Nat.add_right_comm, Nat.add_assoc]

theorem Runs.nil : Runs s [] s := fun _ => rfl

theorem Runs.cons (h : ∀ pos, s.step pos c = .ok t) (ht : Runs t cs u) : Runs s (c :: cs) u := by
  intro pos
  simp only [read, h pos]
  exact ht (pos + 1)

theorem Runs.single (h : ∀ pos, s.step pos c = .ok t) : Runs s [c] t := .cons h .nil

theorem Runs.append (h : Runs s xs t) (ht : Runs t ys u) : Runs s (xs ++ ys) u := by
  intro pos
  rw [read_append, h pos]
  exact ht (pos + xs.length)

theorem Finishes.finish (h : Finishes s cs tree) (hr : Runs s cs t) : t.finish = .ok tree := by
  obtain ⟨pos, u, hu, hf⟩ := h
  rw [hr pos] at hu
  cases hu
  exact hf

theorem Finishes.step (h : Finishes s (c :: cs) tree) :
    ∃ pos t, s.step pos c = .ok t ∧ Finishes t cs tree := by
  obtain ⟨pos, u, hu, hf⟩ := h
  simp only [read] at hu
  split at hu
  · rename_i t ht
    exact ⟨pos, t, ht, pos + 1, u, hu, hf⟩
  · cases hu

/-- What finishes after a run still finishes from its end. -/
theorem Finishes.of_runs (h : Finishes s (xs ++ ys) tree) (hr : Runs s xs t) : Finishes t ys tree := by
  obtain ⟨pos, u, hu, hf⟩ := h
  rw [read_append, hr pos] at hu
  exact ⟨pos + xs.length, u, hu, hf⟩

/-- A variable that is left open at the end finishes nothing. -/
theorem Runs.not_finishes {start : Nat} (hr : Runs s cs t) (ht : t.opened = some start) :
    ¬ Finishes s cs tree := by
  rintro ⟨pos, u, hu, hf⟩
  rw [hr pos] at hu
  cases hu
  simp [State.finish, ht] at hf

/-! ## Literal text -/

variable {nodes : List Node} {start room : Nat} {d : Char} {p w s' : List Char} {as : List Argument}
  {below : List OpenCall}

theorem step_outside (hb : c ≠ '\\') (ho : c ≠ '{') (pos : Nat) :
    (outside nodes w).step pos c = .ok (outside nodes (w ++ [c])) := by
  simp [step, outside, readText, hb, ho]

theorem runs_outside_escaped : Runs (outside nodes w) ['\\', c] (outside nodes (w ++ [c])) := by
  intro pos
  simp [read, step, outside, readText]

/-- A run over literal text gathers it. -/
theorem runs_literal_text (h : Literal '{' cs s') : Runs (outside nodes w) cs (outside nodes (w ++ s')) := by
  induction h generalizing w with
  | nil => simpa using Runs.nil
  | @plain c cs s' hb ho _ ih =>
    rw [List.append_cons]
    exact .cons (step_outside hb ho) ih
  | @escaped c cs s' _ ih =>
    rw [List.append_cons]
    exact runs_outside_escaped.append ih

theorem step_open (pos : Nat) :
    (outside nodes w).step pos '{' = .ok (inside (nodes ++ textNodes w) pos [.naming []]) := by
  by_cases h : w = [] <;> simp [step, outside, inside, readText, flush, textNodes, OpenCall.naming, h]

/-- At the end of the source the text becomes the last node. -/
theorem finish_outside : (outside nodes w).finish = .ok ⟨nodes ++ textNodes w⟩ := by
  by_cases h : w = [] <;> simp [finish, outside, flush, textNodes, h]

/-! ## Paths -/

theorem step_naming (h : endsPath c = false) (pos : Nat) :
    (inside nodes start (.naming p :: below)).step pos c =
      .ok (inside nodes start (.naming (p ++ [c]) :: below)) := by
  simp only [endsPath, Bool.or_eq_false_iff, beq_eq_false_iff_ne] at h
  obtain ⟨⟨⟨h1, h2⟩, h3⟩, h4⟩ := h
  simp [step, inside, readVariable, OpenCall.naming, readPath]

/-- A run over the characters of a path gathers them. -/
theorem runs_path (h : ∀ c ∈ cs, endsPath c = false) :
    Runs (inside nodes start (.naming p :: below)) cs (inside nodes start (.naming (p ++ cs) :: below)) := by
  induction cs generalizing p with
  | nil => simpa using Runs.nil
  | cons c cs ih =>
    rw [List.append_cons]
    refine .cons (step_naming (h c (by simp))) (ih fun d hd => h d (by simp [hd]))

theorem step_naming_open (pos : Nat) :
    (inside nodes start (.naming p :: below)).step pos '(' =
      .ok (inside nodes start (.listing p [] .unset :: below)) := by
  simp [step, inside, readVariable, OpenCall.naming, OpenCall.listing, readPath]

/-! ## Closing calls -/

theorem closeCall_naming (x : Pending) :
    (inside nodes start (.naming w :: .listing p as x :: below)).closeCall =
      inside nodes start (.listing p (as ++ [.call (String.ofList w) []]) .unset :: below) := by
  simp [inside, closeCall, OpenCall.naming, OpenCall.listing]

theorem closeCall_listing {args : List Argument} (x y : Pending) :
    (inside nodes start (.listing w args x :: .listing p as y :: below)).closeCall =
      inside nodes start (.listing p (as ++ [.call (String.ofList w) args]) .unset :: below) := by
  simp [inside, closeCall, OpenCall.listing]

theorem closeCall_root_naming :
    (inside nodes start [.naming p]).closeCall = closing nodes start ⟨String.ofList p, []⟩ := by
  simp [inside, closing, closeCall, OpenCall.naming, OpenCall.toCall]

theorem closeCall_root_listing (x : Pending) :
    (inside nodes start [.listing p as x]).closeCall = closing nodes start ⟨String.ofList p, as⟩ := by
  simp [inside, closing, closeCall, OpenCall.listing, OpenCall.toCall]

/-- What a comma or a closing bracket behind an argument does to the list it stands in. -/
def pass (d : Char) (s : State) : State := if d = ')' then s.closeCall else s

/-- A comma or a bracket behind a path ends the call, and a bracket the one around it too. -/
theorem step_naming_pass (hd : endsNumber d) (pos : Nat) :
    (inside nodes start (.naming p :: below)).step pos d =
      .ok (pass d (inside nodes start (.naming p :: below)).closeCall) := by
  simp only [endsNumber, Bool.or_eq_true, beq_iff_eq] at hd
  rcases hd with rfl | rfl <;> simp [step, inside, readVariable, OpenCall.naming, readPath, pass]

/-- A comma or a bracket between arguments adds the argument that is being read. -/
theorem step_listing_pass (hd : endsNumber d) {x : Pending} {o : OpenCall} (pos : Nat)
    (ho : (OpenCall.listing p as x).finishArgument pos = .ok o) :
    (inside nodes start (.listing p as x :: below)).step pos d =
      .ok (pass d (inside nodes start (o :: below))) := by
  simp only [OpenCall.listing] at ho
  simp only [endsNumber, Bool.or_eq_true, beq_iff_eq] at hd
  rcases hd with rfl | rfl <;>
    simp [step, inside, readVariable, OpenCall.listing, readArguments, pass, ho, Except.map]

/-! ## Words -/

/-- Without a pending argument a separator is passed over. -/
theorem step_skip (hc : isSeparator c) (pos : Nat) :
    (inside nodes start (.listing p as .unset :: below)).step pos c =
      .ok (inside nodes start (.listing p as .unset :: below)) := by
  simp only [isSeparator, Bool.or_eq_true, beq_iff_eq] at hc
  rcases hc with rfl | rfl <;>
    simp [step, inside, readVariable, OpenCall.listing, readArguments, readArgument,
      OpenCall.finishArgument, Except.map]

theorem step_quote (pos : Nat) :
    (inside nodes start (.listing p as .unset :: below)).step pos '"' =
      .ok (inside nodes start (.quoting p as [] :: below)) := by
  simp [step, inside, readVariable, OpenCall.listing, OpenCall.quoting, readArguments, readArgument]

theorem step_digit (hc : c.isDigit) (pos : Nat) :
    (inside nodes start (.listing p as .unset :: below)).step pos c =
      .ok (inside nodes start (.listing p as (.number (String.ofList [c])) :: below)) := by
  have h : c ≠ ')' ∧ c ≠ ',' ∧ c ≠ ' ' ∧ c ≠ '"' := by
    refine ⟨?_, ?_, ?_, ?_⟩ <;> rintro rfl <;> simp at hc
  simp [step, inside, readVariable, OpenCall.listing, readArguments, readArgument, hc, h]

theorem step_nested (hc : startsNestedPath c) (hn : below.length + 1 < maxNesting) (pos : Nat) :
    (inside nodes start (.listing p as .unset :: below)).step pos c =
      .ok (inside nodes start (.naming [c] :: .listing p as .nested :: below)) := by
  simp only [startsNestedPath, Bool.not_eq_true', Bool.or_eq_false_iff, beq_eq_false_iff_ne] at hc
  simp [step, inside, readVariable, OpenCall.listing, OpenCall.naming, readArguments, readArgument,
    hc, Nat.not_le.mpr hn]

theorem step_quoting (hb : c ≠ '\\') (hq : c ≠ '"') (pos : Nat) :
    (inside nodes start (.quoting p as w :: below)).step pos c =
      .ok (inside nodes start (.quoting p as (w ++ [c]) :: below)) := by
  simp [step, inside, readVariable, OpenCall.quoting, readQuoted, OpenCall.pushQuoted, hb, hq]

theorem runs_quoting_escaped :
    Runs (inside nodes start (.quoting p as w :: below)) ['\\', c]
      (inside nodes start (.quoting p as (w ++ [c]) :: below)) := by
  intro pos
  simp [read, step, inside, readVariable, OpenCall.quoting, readQuoted, OpenCall.pushQuoted]

/-- A run over a quoted text gathers it. -/
theorem runs_quoted (h : Literal '"' cs s') :
    Runs (inside nodes start (.quoting p as w :: below)) cs
      (inside nodes start (.quoting p as (w ++ s') :: below)) := by
  induction h generalizing w with
  | nil => simpa using Runs.nil
  | @plain c cs s' hb hq _ ih =>
    rw [List.append_cons]
    exact .cons (step_quoting hb hq) ih
  | @escaped c cs s' _ ih =>
    rw [List.append_cons]
    exact runs_quoting_escaped.append ih

theorem step_unquote (pos : Nat) :
    (inside nodes start (.quoting p as w :: below)).step pos '"' =
      .ok (inside nodes start (.listing p as (.string (String.ofList w)) :: below)) := by
  simp [step, inside, readVariable, OpenCall.quoting, OpenCall.listing, readQuoted]

theorem step_space (x : Pending) (hx : ∀ t, x ≠ .number t) (pos : Nat) :
    (inside nodes start (.listing p as x :: below)).step pos ' ' =
      .ok (inside nodes start (.listing p as x :: below)) := by
  cases x with
  | number t => exact absurd rfl (hx t)
  | _ => simp [step, inside, readVariable, OpenCall.listing, readArguments, readArgument]

theorem runs_spaces (n : Nat) :
    Runs (inside nodes start (.listing p as (.string (String.ofList w)) :: below))
      (List.replicate n ' ') (inside nodes start (.listing p as (.string (String.ofList w)) :: below)) := by
  induction n with
  | zero => exact .nil
  | succ n ih => exact .cons (step_space _ (by simp)) ih

theorem step_number (hc : endsNumber c = false) (pos : Nat) :
    (inside nodes start (.listing p as (.number (String.ofList w)) :: below)).step pos c =
      .ok (inside nodes start (.listing p as (.number (String.ofList (w ++ [c]))) :: below)) := by
  simp only [endsNumber, Bool.or_eq_false_iff, beq_eq_false_iff_ne] at hc
  simp [step, inside, readVariable, OpenCall.listing, readArguments, hc]

theorem runs_number (h : ∀ c ∈ cs, endsNumber c = false) :
    Runs (inside nodes start (.listing p as (.number (String.ofList w)) :: below)) cs
      (inside nodes start (.listing p as (.number (String.ofList (w ++ cs))) :: below)) := by
  induction cs generalizing w with
  | nil => simpa using Runs.nil
  | cons c cs ih =>
    rw [List.append_cons]
    exact .cons (step_number (h c (by simp))) (ih fun d hd => h d (by simp [hd]))

/-- A run over a word and the character behind it adds the argument to the list. -/
theorem runs_word {a : Argument} (hw : Word room cs a) (hr : below.length + 1 + room = maxNesting)
    (hd : endsNumber d) :
    Runs (inside nodes start (.listing p as .unset :: below)) (cs ++ [d])
      (pass d (inside nodes start (.listing p (as ++ [a]) .unset :: below))) := by
  cases hw with
  | @string cs s n hl =>
    have hend : ∀ pos, (inside nodes start (.listing p as (.string (String.ofList s)) :: below)).step pos d =
        .ok (pass d (inside nodes start (.listing p (as ++ [.string (String.ofList s)]) .unset :: below))) :=
      fun pos => step_listing_pass hd pos (by simp [OpenCall.finishArgument, OpenCall.listing])
    have hrun := (runs_quoted (w := []) hl).append (.cons step_unquote ((runs_spaces n).append (.single hend)))
    simpa using Runs.cons step_quote hrun
  | @number cs x hn =>
    obtain @⟨c, cs, x, hc, hcs, hx⟩ := hn
    have hend : ∀ pos,
        (inside nodes start (.listing p as (.number (String.ofList ([c] ++ cs))) :: below)).step pos d =
        .ok (pass d (inside nodes start (.listing p (as ++ [.number x]) .unset :: below))) :=
      fun pos => step_listing_pass hd pos (by
        have : readNumber? (String.ofList ([c] ++ cs)) = some x := by
          rw [readNumber?, String.toList_ofList]
          exact hx
        simp only [OpenCall.finishArgument, OpenCall.listing, this, List.push_toArray])
    exact .cons (step_digit hc) ((runs_number hcs).append (.single hend))
  | @reference cs hroom hp =>
    obtain @⟨c, cs, hc, hcs⟩ := hp
    have hend : ∀ pos,
        (inside nodes start (.naming ([c] ++ cs) :: .listing p as .nested :: below)).step pos d =
        .ok (pass d (inside nodes start
          (.listing p (as ++ [.call (String.ofList (c :: cs)) []]) .unset :: below))) := fun pos => by
      rw [step_naming_pass hd, closeCall_naming]
      rfl
    exact .cons (step_nested hc (by omega)) ((runs_path hcs).append (.single hend))

end State

end Stencil.Template

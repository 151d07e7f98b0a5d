import Stencil.Proofs.Template.Concatenation

/-!
# Where and how reading fails

A source that is not accepted has one brace to blame: what stands before it is complete,
and what follows it does not go on to the closing brace of a variable. The failure is
found in what follows, or it is told at this brace, and no more characters can undo it
unless they may still close the variable.

* `OpensUnclosed`: the brace of a variable that is not completed;
* `source_or_opensUnclosed`: every text is a source of the grammar or has such a brace;
* `Failure.At`, `State.step_inside`: what can go wrong at a character of a variable;
* `parse_error`: which failures a source can have, and where;
* `parse_append_of_error`: more characters leave a failure as it is;
* `parseTree_errors_final`: the errors that are reported.
-/

namespace Stencil.Template

variable {cs ds : List Char}

/-! ## The brace to blame -/

/-- The brace at offset `i` opens a variable that is not completed: before it stands a
complete source, and after it no variable with its closing brace. -/
def OpensUnclosed (cs : List Char) (i : Nat) : Prop :=
  ∃ before rest nodes, cs = before ++ '{' :: rest ∧ before.length = i ∧
    Source before nodes ∧ ¬ EndsInEscape before ∧
    ∀ v tail call, Variable v call → rest ≠ v ++ '}' :: tail

theorem OpensUnclosed.getElem? {i : Nat} (h : OpensUnclosed cs i) : cs[i]? = some '{' := by
  obtain ⟨before, rest, _, rfl, rfl, -⟩ := h
  simp

/-- A source of the grammar, or a text with a variable that is not completed. -/
theorem source_or_opensUnclosed (cs : List Char) :
    (∃ nodes, Source cs nodes) ∨ ∃ i, OpensUnclosed cs i := by
  obtain ⟨w, s, hl, rfl | rfl | ⟨rest, rfl⟩⟩ := State.literal_split '{' (by decide) cs
  · exact .inl ⟨_, .text hl⟩
  · exact .inl ⟨_, .lone hl⟩
  by_cases hv : ∃ v tail call, Variable v call ∧ rest = v ++ '}' :: tail
  · obtain ⟨v, tail, call, hv, rfl⟩ := hv
    rcases source_or_opensUnclosed tail with ⟨nodes, hs⟩ | ⟨i, before, rest, nodes, rfl, rfl, hs, he, hu⟩
    · exact .inl ⟨_, .braces hl hv hs⟩
    · refine .inr ⟨_, w ++ '{' :: (v ++ '}' :: before), rest, _, by simp, rfl, .braces hl hv hs, ?_, hu⟩
      rwa [endsInEscape_braces]
  · refine .inr ⟨_, w, rest, _, rfl, rfl, .text hl, hl.not_endsInEscape, ?_⟩
    rintro v tail call hc rfl
    exact hv ⟨v, tail, call, hc, rfl⟩
termination_by cs.length
decreasing_by simp_all; omega

/-! ## Failures inside a variable -/

/-- A failure at the character at `pos` of a variable that was opened at `start`. Only a
variable without a path is told at its brace. -/
def Failure.At (start pos : Nat) (f : Failure) : Prop :=
  (f.fault = .emptyVariable ∧ f.offset = start) ∨
    (f.fault ≠ .emptyVariable ∧ f.fault ≠ .unterminated ∧ f.offset = pos)

/-- What may come of the character at `pos` of a variable that was opened at `start`. -/
def StaysIn (start pos : Nat) : Except Failure State → Prop
  | .ok t => t.opened = some start ∨ t.opened = none
  | .error f => f.At start pos

namespace State

variable {s : State} {start : Nat}

/-- A failure at the character that is read. -/
theorem staysIn_error {fault : Fault} (h : fault ≠ .emptyVariable ∧ fault ≠ .unterminated)
    (start pos : Nat) : StaysIn start pos (.error ⟨fault, pos⟩) := .inr ⟨h.1, h.2, rfl⟩

theorem opened_closeCall (s : State) : s.closeCall.opened = s.opened := by
  rw [closeCall]
  split <;> rfl

theorem staysIn_leave (s : State) (start pos : Nat) : StaysIn start pos (s.leave start) := by
  rw [leave]
  split
  · exact .inr rfl
  · split
    · exact .inl ⟨rfl, rfl⟩
    · exact .inr rfl

theorem staysIn_readPath (h : s.opened = some start) (pos : Nat) (top : OpenCall) (below : List OpenCall)
    (c : Char) : StaysIn start pos (s.readPath start pos top below c) := by
  rw [readPath.eq_def]
  split
  · exact .inl h
  · exact .inl (by rwa [opened_closeCall])
  · exact .inl (by rwa [opened_closeCall, opened_closeCall])
  · split
    · exact staysIn_leave ..
    · exact staysIn_error (by simp) ..
  · exact .inl h

theorem opened_readQuoted (s : State) (top : OpenCall) (below : List OpenCall) (c : Char) :
    (s.readQuoted top below c).opened = s.opened := by
  simp only [readQuoted]
  split_ifs <;> rfl

theorem staysIn_readArgument (h : s.opened = some start) (pos : Nat) (top : OpenCall)
    (below : List OpenCall) (c : Char) : StaysIn start pos (s.readArgument pos top below c) := by
  simp only [readArgument]
  split_ifs
  · exact .inl h
  · exact staysIn_error (by simp) ..
  · exact .inl h
  · exact .inl h
  · exact staysIn_error (by simp) ..
  · exact .inl h

/-- Only a number can fail to be an argument. -/
theorem staysIn_finishArgument (pos : Nat) (top : OpenCall) {next : OpenCall → State}
    (h : ∀ o, (next o).opened = some start) :
    StaysIn start pos ((top.finishArgument pos).map next) := by
  rw [OpenCall.finishArgument]
  split
  · exact .inl (h _)
  · exact .inl (h _)
  · exact .inl (h _)
  · split
    · exact .inl (h _)
    · exact staysIn_error (by simp) ..

theorem staysIn_readArguments (h : s.opened = some start) (pos : Nat) (top : OpenCall)
    (below : List OpenCall) (c : Char) : StaysIn start pos (s.readArguments pos top below c) := by
  rw [readArguments]
  split
  · exact staysIn_finishArgument pos top fun o => by rwa [opened_closeCall]
  split
  · exact staysIn_finishArgument pos top fun o => h
  split
  · exact .inl h
  · exact staysIn_readArgument h pos top below c

/-- A character of a variable leaves it open, closes it or fails. -/
theorem step_inside (h : s.opened = some start) (pos : Nat) (c : Char) :
    StaysIn start pos (s.step pos c) := by
  simp only [step, h, readVariable]
  split
  · split
    · exact staysIn_leave ..
    · exact staysIn_error (by simp) ..
  · split
    · exact staysIn_readPath h ..
    · split
      · exact .inl (by rwa [opened_readQuoted])
      · exact staysIn_readArguments h ..

/-- Characters that never close a variable leave it open or fail at one of them. -/
theorem read_inside (h : s.opened = some start) (pos : Nat) (cs : List Char)
    (hc : ∀ xs ys t, cs = xs ++ ys → s.read pos xs = .ok t → t.opened ≠ none) :
    (∃ t, s.read pos cs = .ok t ∧ t.opened = some start) ∨
      ∃ f i, s.read pos cs = .error f ∧ f.At start i ∧ pos ≤ i ∧ i < pos + cs.length := by
  -- The variable that stays open is the same one all along, so that `start` is fixed.
  induction cs generalizing s pos with
  | nil => exact .inl ⟨s, rfl, h⟩
  | cons c cs ih =>
    have hstep := step_inside h pos c
    cases hs : s.step pos c with
    | error f =>
      rw [hs] at hstep
      exact .inr ⟨f, pos, by simp only [read, hs], hstep, by simp⟩
    | ok t =>
      rw [hs] at hstep
      have ht : t.opened = some start := hstep.resolve_right (hc [c] cs t rfl (by simp only [read, hs]))
      have hrest := ih ht (pos + 1) fun xs ys u he hu => hc (c :: xs) ys u (by rw [he]; rfl)
        (by simp only [read, hs, hu])
      simp only [read, hs, List.length_cons]
      rcases hrest with hrest | ⟨f, i, hf, hat, hle, hlt⟩
      · exact .inl hrest
      · exact .inr ⟨f, i, hf, hat, by omega, by omega⟩

/-- As long as no variable is completed behind an opening brace, it stays open. -/
theorem opened_of_no_variable (hv : ∀ v tail call, Variable v call → cs ≠ v ++ '}' :: tail)
    {nodes : List Node} {pos : Nat} (xs ys : List Char) (t : State) (he : cs = xs ++ ys)
    (ht : (inside nodes start [.naming []]).read pos xs = .ok t) : t.opened ≠ none := by
  intro hnone
  have hfin : t.finish = .ok ⟨t.flush.nodes.toList⟩ := by simp only [finish, hnone]
  obtain ⟨v, rest, call, rfl, hc⟩ := exists_variable ⟨pos, t, ht, hfin⟩
  exact hv v (rest ++ ys) call hc (by simpa using he)

end State

/-! ## Failures of sources -/

/-- The failure of a source is told at the brace that is to blame, or found at a character
behind it. -/
theorem parse_error {source : String} {f : Failure} (h : parse source = .error f) :
    ∃ start, OpensUnclosed source.toList start ∧
      (f = ⟨.unterminated, start⟩ ∨ ∃ i, f.At start i ∧ start < i ∧ i < source.length) := by
  rcases source_or_opensUnclosed source.toList with ⟨nodes, hs⟩ | ⟨start, hu⟩
  · rw [parse_eq_ok_iff (t := ⟨nodes⟩) |>.mpr hs] at h
    cases h
  refine ⟨start, hu, ?_⟩
  obtain ⟨before, rest, nodes, hcs, rfl, hs, he, hv⟩ := hu
  obtain ⟨m, w, -, -, hr⟩ := runs_complete_source hs he []
  have hopen : (State.inside (m ++ textNodes w) before.length [.naming []]).complete
      (before.length + 1) rest = .error f := by
    have hrun := State.complete_of_runs hr 0 ('{' :: rest)
    simp only [List.nil_append, Nat.zero_add, ← hcs] at hrun
    simp only [State.complete, State.read, State.step_open] at hrun ⊢
    exact hrun.symm.trans h
  rw [State.complete] at hopen
  rcases State.read_inside rfl (before.length + 1) rest (State.opened_of_no_variable hv) with
    ⟨t, ht, hopened⟩ | ⟨g, i, hg, hat, hle, hlt⟩
  · rw [ht] at hopen
    simp only [State.finish, hopened] at hopen
    cases hopen
    exact .inl rfl
  · rw [hg] at hopen
    cases hopen
    have hlen : source.length = before.length + (rest.length + 1) := by
      rw [← String.length_toList, hcs, List.length_append, List.length_cons]
    exact .inr ⟨i, hat, by omega, by omega⟩

/-- More characters leave a failure as it is, unless a variable was just not closed. -/
theorem parse_append_of_error {source : String} {f : Failure} (h : parse source = .error f)
    (hf : f.fault ≠ .unterminated) (rest : String) : parse (source ++ rest) = .error f := by
  rw [parse] at h ⊢
  rw [String.toList_append, State.read_append]
  cases hr : State.read {} 0 source.toList with
  | ok t =>
    rw [hr] at h
    simp only [State.finish] at h
    split at h
    · cases h
      exact absurd rfl hf
    · cases h
  | error g =>
    rw [hr] at h
    exact h

/-! ## Reported errors -/

theorem append_ne_of_unrelated {p s : String} (h : ¬ p.toList <+: s.toList) (q : String) : p ++ q ≠ s := by
  rintro rfl
  rw [String.toList_append] at h
  exact h (List.prefix_append _ _)

/-- The texts of the two faults that are told at a brace are theirs alone. -/
theorem Fault.message_eq_iff (f : Fault) :
    (f.message = "unterminated injected variable" ↔ f = .unterminated) ∧
      (f.message = "empty injected variable" ↔ f = .emptyVariable) := by
  cases f with
  | unexpected c =>
    exact ⟨⟨fun h => absurd h (append_ne_of_unrelated (by decide) _), nofun⟩,
      ⟨fun h => absurd h (append_ne_of_unrelated (by decide) _), nofun⟩⟩
  | badNumber text =>
    exact ⟨⟨fun h => absurd h (append_ne_of_unrelated (by decide) _), nofun⟩,
      ⟨fun h => absurd h (append_ne_of_unrelated (by decide) _), nofun⟩⟩
  | unclosedCall | tooDeep | emptyVariable | unterminated => decide

theorem parseTree_error_iff {source : String} {e : Error} :
    parseTree source = .error e ↔ ∃ f, parse source = .error f ∧ f.toError = e := by
  rw [parseTree]
  cases parse source with
  | ok t =>
    refine ⟨fun h => ?_, ?_⟩
    · cases h
    · rintro ⟨f, hf, -⟩
      cases hf
  | error f =>
    constructor
    · intro h
      cases h
      exact ⟨f, rfl, rfl⟩
    · rintro ⟨g, hg, rfl⟩
      cases hg
      rfl

/-- An error of a template is a syntax error at one of its characters. If it is told at a
brace, this is the brace of the variable that is not completed. Unless a variable was just
not closed, more characters leave the error as it is; so what begins an accepted source is
accepted as well, or lacks nothing but the end of a variable. -/
theorem parseTree_errors_final (source : String) :
    (∀ e, parseTree source = .error e →
      e.kind = .syntaxError ∧ ∃ i, e.offset = some i ∧ i < source.length ∧
        (e.detail = some "unterminated injected variable" ∨ e.detail = some "empty injected variable" →
          source.toList[i]? = some '{' ∧ OpensUnclosed source.toList i) ∧
        (e.detail ≠ some "unterminated injected variable" →
          ∀ rest, parseTree (source ++ rest) = .error e)) ∧
      ∀ t, parseTree source = .ok t → ∀ before rest, source = before ++ rest →
        (∃ u, parseTree before = .ok u) ∨
          ∃ e, parseTree before = .error e ∧ e.kind = .syntaxError ∧
            e.detail = some "unterminated injected variable" := by
  have hfinal {s : String} {f : Failure} (hf : parse s = .error f)
      (hu : f.toError.detail ≠ some "unterminated injected variable") (rest : String) :
      parseTree (s ++ rest) = .error f.toError := by
    have hfault : f.fault ≠ .unterminated := fun h => hu (by rw [Failure.toError, h]; rfl)
    exact parseTree_error_iff.mpr ⟨f, parse_append_of_error hf hfault rest, rfl⟩
  constructor
  · intro e he
    obtain ⟨f, hf, rfl⟩ := parseTree_error_iff.mp he
    obtain ⟨start, hu, hat⟩ := parse_error hf
    have hstart : start < source.length := by
      have := (List.getElem?_eq_some_iff.mp hu.getElem?).1
      rwa [String.length_toList] at this
    refine ⟨rfl, f.offset, rfl, ?_, fun hd => ?_, hfinal hf⟩
    · rcases hat with rfl | ⟨i, ⟨-, ho⟩ | ⟨-, -, ho⟩, -, hi⟩
      · exact hstart
      · rwa [ho]
      · rwa [ho]
    · have hbrace : f.offset = start := by
        simp only [Failure.toError, Option.some.injEq, f.fault.message_eq_iff.1,
          f.fault.message_eq_iff.2] at hd
        rcases hat with rfl | ⟨i, ⟨-, ho⟩ | ⟨he, hu, -⟩, -⟩
        · rfl
        · exact ho
        · exact (hd.elim hu he).elim
      rw [hbrace]
      exact ⟨hu.getElem?, hu⟩
  · rintro t ht before rest rfl
    cases hb : parseTree before with
    | ok u => exact .inl ⟨u, rfl⟩
    | error e =>
      obtain ⟨f, hf, rfl⟩ := parseTree_error_iff.mp hb
      refine .inr ⟨_, rfl, rfl, ?_⟩
      by_contra hu
      rw [hfinal hf hu rest] at ht
      cases ht

/-- An empty variable behind a text, more characters behind it, and the beginning of an
accepted source. -/
theorem parseTree_errors_final_empty :
    parseTree "a\x7b\x7d" = .error ⟨.syntaxError, some "empty injected variable", some 1, none⟩ ∧
      OpensUnclosed "a\x7b\x7d".toList 1 ∧
      parseTree ("a\x7b\x7d" ++ "b\x7d") =
        .error ⟨.syntaxError, some "empty injected variable", some 1, none⟩ ∧
      parseTree "\x7bf(x)\x7d" = .ok ⟨[.call ⟨"f", [.call "x" []]⟩]⟩ ∧
      ((∃ u, parseTree "\x7bf(x" = .ok u) ∨
        ∃ e, parseTree "\x7bf(x" = .error e ∧ e.kind = .syntaxError ∧
          e.detail = some "unterminated injected variable") := by
  have he : parseTree "a\x7b\x7d" =
      .error ⟨.syntaxError, some "empty injected variable", some 1, none⟩ := rfl
  have ht : parseTree "\x7bf(x)\x7d" = .ok ⟨[.call ⟨"f", [.call "x" []]⟩]⟩ := rfl
  obtain ⟨-, i, hi, -, hbrace, hrest⟩ := (parseTree_errors_final "a\x7b\x7d").1 _ he
  cases hi
  exact ⟨he, (hbrace (.inr rfl)).2, hrest (by decide) _, ht,
    (parseTree_errors_final "\x7bf(x)\x7d").2 _ ht "\x7bf(x" ")\x7d" rfl⟩

end Stencil.Template

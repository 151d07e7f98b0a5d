import Stencil.Proofs.Template.Printing

/-!
# Templates one after the other

Nothing is carried from one variable or text into the next: a source that is read behind
a complete one gives its own nodes, or fails as it does alone, only at higher offsets.
The texts that meet become one node.

* `EndsInEscape`: a source that ends in a backslash without its character;
* `joinNodes`, `Tree.append`: the nodes of two templates in a row;
* `State.behind`: a state with more nodes before it and at higher offsets;
* `State.step_behind`, `State.read_behind`: reading does not look at either;
* `State.complete_outside`: reading behind a source that is complete;
* `parseTree_append`: two sources in a row.
-/

namespace Stencil.Template

/-! ## Backslashes at the end -/

/-- The number of backslashes at the end. -/
def trailingBackslashes (cs : List Char) : Nat := (cs.reverse.takeWhile (· == '\\')).length

/-- The last character is a backslash that still waits for the one it takes as it is:
those before it pair up. -/
def EndsInEscape (cs : List Char) : Prop := trailingBackslashes cs % 2 = 1

instance (cs : List Char) : Decidable (EndsInEscape cs) :=
  inferInstanceAs (Decidable (trailingBackslashes cs % 2 = 1))

variable {c : Char} {cs ds s w : List Char}

theorem trailingBackslashes_append_cons (hc : c ≠ '\\') (cs ds : List Char) :
    trailingBackslashes (cs ++ c :: ds) = trailingBackslashes ds := by
  simp only [trailingBackslashes, List.reverse_append, List.reverse_cons, List.append_assoc,
    List.takeWhile_append]
  split
  · rename_i h
    simp [hc, h]
  · rfl

theorem trailingBackslashes_pair (cs : List Char) :
    trailingBackslashes ('\\' :: '\\' :: cs) % 2 = trailingBackslashes cs % 2 := by
  simp only [trailingBackslashes, List.reverse_cons, List.append_assoc, List.takeWhile_append]
  split
  · rename_i h
    simp [h]
  · rfl

theorem trailingBackslashes_concat (cs : List Char) :
    trailingBackslashes (cs ++ ['\\']) = trailingBackslashes cs + 1 := by
  simp [trailingBackslashes]

/-- Only what follows the last brace counts. -/
theorem endsInEscape_braces (cs v rest : List Char) :
    EndsInEscape (cs ++ '{' :: (v ++ '}' :: rest)) ↔ EndsInEscape rest := by
  have h := trailingBackslashes_append_cons (c := '}') (by decide) (cs ++ '{' :: v) rest
  simp only [List.append_assoc, List.cons_append] at h
  rw [EndsInEscape, EndsInEscape, h]

/-- In a text all backslashes have their characters. -/
theorem Literal.not_endsInEscape {stop : Char} (h : Literal stop cs s) : ¬ EndsInEscape cs := by
  unfold EndsInEscape
  induction h with
  | nil => decide
  | @plain c cs s hb _ _ ih =>
    have := trailingBackslashes_append_cons hb [] cs
    rw [List.nil_append] at this
    rwa [this]
  | @escaped c cs s _ ih =>
    by_cases hc : c = '\\'
    · rwa [hc, trailingBackslashes_pair]
    · have := trailingBackslashes_append_cons hc ['\\'] cs
      rw [List.singleton_append] at this
      rwa [this]

/-! ## Nodes in a row -/

/-- Nodes followed by other nodes; a text at the end of the first becomes one with a text at
the start of the others. -/
def joinNodes : List Node → List Node → List Node
  | [], ms => ms
  | [.text s], .text t :: ms => .text (s ++ t) :: ms
  | n :: ns, ms => n :: joinNodes ns ms

/-- A template followed by another one. -/
def Tree.append (t u : Tree) : Tree := ⟨joinNodes t.nodes u.nodes⟩

theorem joinNodes_textNodes {k : List Node} (hk : ∀ n ∈ k.head?, n.isText = false) (w s : List Char) :
    joinNodes (textNodes w) (textNodes s ++ k) = textNodes (w ++ s) ++ k := by
  by_cases hw : w = []
  · simp [hw, textNodes, joinNodes]
  by_cases hs : s = []
  · cases k with
    | nil => simp [hs, hw, textNodes, joinNodes]
    | cons n k =>
      cases n with
      | text t => simp [Node.isText] at hk
      | call c => simp [hs, hw, textNodes, joinNodes]
  · simp [hw, hs, textNodes, joinNodes]

theorem joinNodes_append {m : List Node} (hm : ∀ n ∈ m.getLast?, n.isText = false) (ns ks : List Node) :
    joinNodes (m ++ ns) ks = m ++ joinNodes ns ks := by
  induction m with
  | nil => rfl
  | cons n m ih =>
    cases m with
    | nil =>
      cases n with
      | text s => simp [Node.isText] at hm
      | call c => simp [joinNodes]
    | cons n' m =>
      have hrest := ih (by simpa using hm)
      simp only [List.cons_append] at hrest ⊢
      rw [← hrest]
      simp [joinNodes]

/-! ## States behind nodes -/

/-- The failure at a higher offset. -/
def Failure.behind (n : Nat) (f : Failure) : Failure := { f with offset := f.offset + n }

/-- What has been read as a piece of a longer source: with more nodes before it, and from
a higher offset on. -/
def State.behind (front : List Node) (n : Nat) (s : State) : State :=
  { s with nodes := front.toArray ++ s.nodes, opened := s.opened.map (· + n) }

/-- What comes of reading as a piece of a longer source. -/
def resultBehind (front : List Node) (n : Nat) (r : Except Failure State) : Except Failure State :=
  (r.map (·.behind front n)).mapError (·.behind n)

namespace State

variable (front : List Node) (n : Nat)

@[simp] theorem behind_stack (s : State) : (s.behind front n).stack = s.stack := rfl
@[simp] theorem behind_escape (s : State) : (s.behind front n).escape = s.escape := rfl
@[simp] theorem behind_closed (s : State) : (s.behind front n).closed = s.closed := rfl
@[simp] theorem behind_opened (s : State) : (s.behind front n).opened = s.opened.map (· + n) := rfl

theorem closeCall_behind (s : State) : (s.behind front n).closeCall = s.closeCall.behind front n := by
  simp only [closeCall, behind_stack]
  split <;> rfl

theorem flush_behind (s : State) : (s.behind front n).flush = s.flush.behind front n := by
  unfold flush behind
  split <;> simp_all

theorem leave_behind (s : State) (start : Nat) :
    (s.behind front n).leave (start + n) = resultBehind front n (s.leave start) := by
  simp only [leave, behind_closed]
  cases s.closed with
  | none => rfl
  | some call =>
    dsimp only
    split
    · rfl
    · simp [behind, resultBehind, Except.map, Except.mapError]

theorem readText_behind (s : State) (pos : Nat) (c : Char) :
    (s.behind front n).readText (pos + n) c = (s.readText pos c).behind front n := by
  simp only [readText, behind_escape, flush_behind]
  split_ifs <;> rfl

theorem readPath_behind (s : State) (start pos : Nat) (top : OpenCall) (below : List OpenCall) (c : Char) :
    (s.behind front n).readPath (start + n) (pos + n) top below c =
      resultBehind front n (s.readPath start pos top below c) := by
  simp only [readPath, closeCall_behind, leave_behind]
  split
  · rfl
  · rfl
  · rfl
  · split <;> rfl
  · rfl

theorem readQuoted_behind (s : State) (top : OpenCall) (below : List OpenCall) (c : Char) :
    (s.behind front n).readQuoted top below c = (s.readQuoted top below c).behind front n := by
  simp only [readQuoted, apply_ite (behind front n)]
  rfl

theorem readArgument_behind (s : State) (pos : Nat) (top : OpenCall) (below : List OpenCall) (c : Char) :
    (s.behind front n).readArgument (pos + n) top below c =
      resultBehind front n (s.readArgument pos top below c) := by
  simp only [readArgument, apply_ite (resultBehind front n)]
  rfl

theorem finishArgument_behind (o : OpenCall) (pos : Nat) :
    o.finishArgument (pos + n) = (o.finishArgument pos).mapError (·.behind n) := by
  simp only [OpenCall.finishArgument]
  split
  · rfl
  · rfl
  · rfl
  · split <;> rfl

theorem readArguments_behind (s : State) (pos : Nat) (top : OpenCall) (below : List OpenCall) (c : Char) :
    (s.behind front n).readArguments (pos + n) top below c =
      resultBehind front n (s.readArguments pos top below c) := by
  simp only [readArguments, finishArgument_behind, readArgument_behind]
  split_ifs
  · cases top.finishArgument pos with
    | ok o => exact congrArg Except.ok (closeCall_behind front n { s with stack := o :: below })
    | error f => rfl
  · cases top.finishArgument pos <;> rfl
  · split <;> rfl

theorem readVariable_behind (s : State) (start pos : Nat) (c : Char) :
    (s.behind front n).readVariable (start + n) (pos + n) c =
      resultBehind front n (s.readVariable start pos c) := by
  simp only [readVariable, behind_stack, leave_behind, readPath_behind, readQuoted_behind,
    readArguments_behind]
  split
  · split_ifs <;> rfl
  · split
    · rfl
    · split_ifs <;> rfl

/-- What a character does depends neither on the nodes before it nor on its offset. -/
theorem step_behind (s : State) (pos : Nat) (c : Char) :
    (s.behind front n).step (pos + n) c = resultBehind front n (s.step pos c) := by
  simp only [step, behind_opened]
  cases s.opened with
  | none => exact congrArg Except.ok (readText_behind front n s pos c)
  | some start => exact readVariable_behind front n s start pos c

theorem read_behind (s : State) (pos : Nat) (cs : List Char) :
    (s.behind front n).read (pos + n) cs = resultBehind front n (s.read pos cs) := by
  induction cs generalizing s pos with
  | nil => rfl
  | cons c cs ih =>
    simp only [read, step_behind]
    cases s.step pos c with
    | error f => rfl
    | ok t =>
      have := ih t (pos + 1)
      rwa [Nat.add_right_comm] at this

theorem finish_behind (s : State) :
    (s.behind front n).finish = (s.finish.map fun t => ⟨front ++ t.nodes⟩).mapError (·.behind n) := by
  simp only [finish, behind_opened, flush_behind]
  cases s.opened with
  | none => simp [behind, Except.map, Except.mapError]
  | some start => rfl

/-! ## Reading behind a complete source -/

/-- Reads the characters from an offset on up to the end. -/
def complete (s : State) (pos : Nat) (cs : List Char) : Except Failure Tree :=
  match s.read pos cs with
  | .ok t => t.finish
  | .error f => .error f

theorem complete_behind (s : State) (pos : Nat) (cs : List Char) :
    (s.behind front n).complete (pos + n) cs =
      ((s.complete pos cs).map fun t => ⟨front ++ t.nodes⟩).mapError (·.behind n) := by
  simp only [complete, read_behind]
  cases s.read pos cs with
  | ok t => exact finish_behind front n t
  | error f => rfl

theorem complete_append (s : State) (pos : Nat) (cs ds : List Char) :
    s.complete pos (cs ++ ds) =
      match s.read pos cs with
      | .ok t => t.complete (pos + cs.length) ds
      | .error f => .error f := by
  rw [complete, read_append]
  cases s.read pos cs with
  | ok t => rfl
  | error f => rfl

theorem complete_of_runs {s t : State} (h : Runs s cs t) (pos : Nat) (ds : List Char) :
    s.complete pos (cs ++ ds) = t.complete (pos + cs.length) ds := by
  rw [complete_append, h pos]

theorem complete_literal (h : Literal '{' cs s) (nodes : List Node) (w : List Char) (pos : Nat) :
    (outside nodes w).complete pos cs = .ok ⟨nodes ++ textNodes (w ++ s)⟩ := by
  rw [complete, runs_literal_text h]
  exact finish_outside

/-- A backslash at the end adds nothing. -/
theorem complete_lone (h : Literal '{' cs s) (nodes : List Node) (w : List Char) (pos : Nat) :
    (outside nodes w).complete pos (cs ++ ['\\']) = .ok ⟨nodes ++ textNodes (w ++ s)⟩ := by
  rw [complete, (runs_literal_text h).append (runs_lone _ _)]
  exact (finish_escape _ _).trans finish_outside

/-- What follows an opening brace is read as it is behind a brace alone. -/
theorem complete_brace (nodes : List Node) (w : List Char) (pos : Nat) (cs : List Char) :
    (outside nodes w).complete pos ('{' :: cs) =
      (((inside [] 0 [.naming []]).complete 1 cs).map fun t => ⟨nodes ++ textNodes w ++ t.nodes⟩).mapError
        (·.behind pos) := by
  have hb : (inside [] 0 [.naming []]).behind (nodes ++ textNodes w) pos =
      inside (nodes ++ textNodes w) pos [.naming []] := by
    simp [inside, behind]
  rw [← complete_behind, hb, Nat.add_comm 1 pos]
  simp only [complete, read, step_open]

/-- What finishes a tree after an opening brace finishes one that starts with a call. -/
theorem exists_call_of_finishes {nodes : List Node} {start : Nat} {tree : Tree}
    (h : Finishes (inside nodes start [.naming []]) cs tree) :
    ∃ call ns, tree.nodes = nodes ++ .call call :: ns := by
  obtain ⟨v, rest, call, rfl, hv⟩ := exists_variable h
  rw [List.append_cons] at h
  obtain ⟨ns, hn, -⟩ := source_of_finishes _ rest (h.of_runs (runs_variable hv))
  exact ⟨call, ns, by simpa using hn⟩

theorem finishes_of_complete {s : State} {pos : Nat} {tree : Tree} (h : s.complete pos cs = .ok tree) :
    Finishes s cs tree := by
  rw [complete] at h
  split at h
  · exact ⟨pos, _, by assumption, h⟩
  · cases h

/-- Behind a complete source whose last text is `w`, everything is read as it is alone. -/
theorem complete_outside {m : List Node} (hm : ∀ n ∈ m.getLast?, n.isText = false) (w : List Char)
    (n : Nat) (cs : List Char) :
    (outside m w).complete n cs =
      (((outside [] []).complete 0 cs).map fun t => ⟨joinNodes (m ++ textNodes w) t.nodes⟩).mapError
        (·.behind n) := by
  have hjoin {k : List Node} (hk : ∀ n ∈ k.head?, n.isText = false) (s : List Char) :
      joinNodes (m ++ textNodes w) (textNodes s ++ k) = m ++ (textNodes (w ++ s) ++ k) := by
    rw [joinNodes_append hm, joinNodes_textNodes hk]
  have htext (s : List Char) : joinNodes (m ++ textNodes w) (textNodes s) = m ++ textNodes (w ++ s) := by
    simpa using hjoin (k := []) (by simp) s
  -- Only the text before the first brace meets `w`; behind the brace both readers are in the
  -- same state, but for the nodes before it and the offset.
  obtain ⟨v, s, hl, rfl | rfl | ⟨rest, rfl⟩⟩ := literal_split '{' (by decide) cs
  · rw [complete_literal hl, complete_literal hl]
    simp only [Except.map, Except.mapError, List.nil_append, htext]
  · rw [complete_lone hl, complete_lone hl]
    simp only [Except.map, Except.mapError, List.nil_append, htext]
  · rw [complete_of_runs (runs_literal_text hl), complete_of_runs (runs_literal_text hl),
      complete_brace, complete_brace]
    cases hr : (inside [] 0 [.naming []]).complete 1 rest with
    | error f =>
      simp only [Except.map, Except.mapError, Failure.behind, Nat.zero_add]
      rw [Nat.add_comm n, Nat.add_assoc]
    | ok t =>
      obtain ⟨call, ns, hn⟩ := exists_call_of_finishes (finishes_of_complete hr)
      have hk : ∀ n ∈ t.nodes.head?, n.isText = false := by simp [hn, Node.isText]
      simp only [Except.map, Except.mapError, List.nil_append, hjoin hk, List.append_assoc]

end State

/-! ## Sources in a row -/

/-- A source is read up to its last text, and the reader is left with a backslash that waits
for its character exactly if the source ends in one. -/
theorem runs_source_outside {ns : List Node} (h : Source cs ns) (nodes : List Node) :
    ∃ m w, ns = m ++ textNodes w ∧ (∀ n ∈ m.getLast?, n.isText = false) ∧
      State.Runs (State.outside nodes []) cs
        { State.outside (nodes ++ m) w with escape := decide (EndsInEscape cs) } := by
  induction h generalizing nodes with
  | @text cs s hl =>
    refine ⟨[], s, rfl, by simp, ?_⟩
    rw [List.append_nil, decide_eq_false hl.not_endsInEscape]
    exact State.runs_literal_text (w := []) hl
  | @lone cs s hl =>
    have hend : EndsInEscape (cs ++ ['\\']) := by
      have := hl.not_endsInEscape
      unfold EndsInEscape at this ⊢
      rw [trailingBackslashes_concat]
      omega
    refine ⟨[], s, rfl, by simp, ?_⟩
    rw [List.append_nil, decide_eq_true hend]
    exact (State.runs_literal_text (w := []) hl).append (State.runs_lone nodes s)
  | @braces cs s v rest call ns hl hv _ ih =>
    obtain ⟨m, w, rfl, hm, hr⟩ := ih (nodes ++ textNodes s ++ [.call call])
    refine ⟨textNodes s ++ .call call :: m, w, by simp, ?_, ?_⟩
    · cases hl : m.getLast? with
      | none => simp [List.getLast?_cons, hl, Node.isText]
      | some n => simpa [List.getLast?_cons, hl] using hm n hl
    · have hrun := (State.runs_literal_text (w := []) hl).append ((State.runs_braces hv).append hr)
      simpa [endsInEscape_braces] using hrun

/-- A source that does not end in an escape is read up to its last text. -/
theorem runs_complete_source {ns : List Node} (h : Source cs ns) (he : ¬ EndsInEscape cs)
    (nodes : List Node) :
    ∃ m w, ns = m ++ textNodes w ∧ (∀ n ∈ m.getLast?, n.isText = false) ∧
      State.Runs (State.outside nodes []) cs (State.outside (nodes ++ m) w) := by
  obtain ⟨m, w, hn, hm, hr⟩ := runs_source_outside h nodes
  rw [decide_eq_false he] at hr
  exact ⟨m, w, hn, hm, hr⟩

/-- Two sources in a row, of which the first is complete: the nodes of both, or the error of
the second, at its place behind the first. -/
theorem parseTree_append (s₁ s₂ : String) (t₁ : Tree) (h₁ : parseTree s₁ = .ok t₁)
    (he : ¬ EndsInEscape s₁.toList) :
    (∀ t₂, parseTree s₂ = .ok t₂ → parseTree (s₁ ++ s₂) = .ok (t₁.append t₂)) ∧
      ∀ e, parseTree s₂ = .error e → ∃ i, e.offset = some i ∧
        parseTree (s₁ ++ s₂) = .error { e with offset := some (s₁.length + i) } := by
  obtain ⟨m, w, hn, hm, hr⟩ := runs_complete_source (parse_eq_ok_iff.mp (parseTree_ok_iff.mp h₁)) he []
  have happend : parse (s₁ ++ s₂) =
      ((parse s₂).map t₁.append).mapError (·.behind s₁.length) := by
    have hrun := State.complete_of_runs hr 0 s₂.toList
    rw [List.nil_append, State.complete_outside hm, ← hn, Nat.zero_add, String.length_toList,
      ← String.toList_append] at hrun
    exact hrun
  constructor
  · intro t₂ h₂
    rw [parseTree, happend, parseTree_ok_iff.mp h₂]
    rfl
  · intro e h₂
    rw [parseTree] at h₂ ⊢
    rw [happend]
    cases hp : parse s₂ with
    | ok t => rw [hp] at h₂; cases h₂
    | error f =>
      rw [hp] at h₂
      cases h₂
      refine ⟨f.offset, rfl, ?_⟩
      rw [Nat.add_comm]
      rfl

/-- A source that ends in an escaped backslash, before a text and a variable, and before a
variable that is not closed. -/
theorem parseTree_append_escaped_backslash :
    parseTree "\x7bx\x7da\\\\" = .ok ⟨[.call ⟨"x", []⟩, .text "a\\"]⟩ ∧
      ¬ EndsInEscape "\x7bx\x7da\\\\".toList ∧
      parseTree ("\x7bx\x7da\\\\" ++ "b\x7by\x7d") =
        .ok ⟨[.call ⟨"x", []⟩, .text "a\\b", .call ⟨"y", []⟩]⟩ ∧
      ∃ i, some 1 = some i ∧ parseTree ("\x7bx\x7da\\\\" ++ "b\x7by") =
        .error ⟨.syntaxError, some "unterminated injected variable", some (6 + i), none⟩ := by
  have h₁ : parseTree "\x7bx\x7da\\\\" = .ok ⟨[.call ⟨"x", []⟩, .text "a\\"]⟩ := rfl
  have he : ¬ EndsInEscape "\x7bx\x7da\\\\".toList := by decide
  exact ⟨h₁, he, (parseTree_append _ "b\x7by\x7d" _ h₁ he).1 _ rfl,
    (parseTree_append _ "b\x7by" _ h₁ he).2 _ rfl⟩

end Stencil.Template

import Stencil.Proofs.Template.Run

/-!
# What the reader accepts

The reader accepts the sources of the grammar, each with the tree that it stands
for, and no others. One direction runs over a phrase; the other cuts what finishes
a tree into a phrase and a rest, and then runs over the phrase to go on with the
rest.

* `runs_arguments`, `runs_variable`, `finishes_of_source`: what the grammar derives
  is read;
* `exists_word`, `exists_arguments`, `exists_variable`, `source_of_finishes`: what
  is read is derived;
* `parseTree_eq_ok_iff`: both together.
-/

namespace Stencil.Template

namespace State

variable {nodes ns : List Node} {start room : Nat} {c d : Char} {cs p w s : List Char}
  {as : List Argument} {below : List OpenCall} {tree : Tree} {call : Call}

/-! ## From the grammar to runs -/

theorem step_close (pos : Nat) :
    (inside nodes start (.listing p as .unset :: below)).step pos ')' =
      .ok (inside nodes start (.listing p as .unset :: below)).closeCall :=
  step_listing_pass rfl pos rfl

/-- A run over the path of a nested call and its opening bracket opens the call. -/
theorem runs_open_nested (hp : NestedPath w) (hd : below.length + 1 < maxNesting) :
    Runs (inside nodes start (.listing p as .unset :: below)) (w ++ ['('])
      (inside nodes start (.listing w [] .unset :: .listing p as .nested :: below)) := by
  obtain @⟨c, w, hc, hw⟩ := hp
  exact .cons (step_nested hc hd) ((runs_path hw).append (.single step_naming_open))

/-- A run over an argument list reads it and closes the call. -/
theorem runs_arguments {as' : List Argument} (h : Arguments room cs as')
    (hr : below.length + 1 + room = maxNesting) :
    Runs (inside nodes start (.listing p as .unset :: below)) cs
      (inside nodes start (.listing p (as ++ as') .unset :: below)).closeCall := by
  induction h generalizing p as below with
  | close => simpa using Runs.single step_close
  | skip hc _ ih => exact .cons (step_skip hc) (ih hr)
  | last hw => exact runs_word hw hr rfl
  | more hw _ ih =>
    rw [List.append_cons, List.append_cons as]
    exact (runs_word hw hr rfl).append (ih hr)
  | @nested room w inner cs args as' hp _ _ ih₁ ih₂ =>
    have hinner : Runs (inside nodes start (.listing w [] .unset :: .listing p as .nested :: below))
        inner _ := ih₁ (by simp only [List.length_cons]; omega)
    rw [closeCall_listing] at hinner
    rw [List.append_cons w, List.append_cons as]
    exact (runs_open_nested hp (by omega)).append (hinner.append (ih₂ hr))

theorem step_leave (hp : call.path ≠ "") (pos : Nat) :
    (closing nodes start call).step pos '}' = .ok (outside (nodes ++ [.call call]) []) := by
  simp [step, closing, readVariable, leave, outside, hp]

theorem step_naming_leave (hp : p ≠ []) (pos : Nat) :
    (inside nodes start [.naming p]).step pos '}' =
      .ok (outside (nodes ++ [.call ⟨String.ofList p, []⟩]) []) := by
  have : (inside nodes start [.naming p]).step pos '}' =
      (inside nodes start [.naming p]).closeCall.leave start := by
    simp [step, inside, readVariable, OpenCall.naming, readPath]
  rw [this, closeCall_root_naming]
  simp [closing, leave, outside, hp]

theorem step_root_pass (hd : endsNumber d) (pos : Nat) :
    (inside nodes start [.naming p]).step pos d = .ok (closing nodes start ⟨String.ofList p, []⟩) := by
  rw [step_naming_pass hd, closeCall_root_naming, pass]
  split <;> rfl

/-- A run over a variable and its closing brace adds its call to the nodes. -/
theorem runs_variable (h : Variable cs call) :
    Runs (inside nodes start [.naming []]) (cs ++ ['}']) (outside (nodes ++ [.call call]) []) := by
  cases h with
  | bare hp => exact (runs_path hp.plain).append (.single (step_naming_leave hp.nonempty))
  | comma hp | bracket hp =>
    rw [List.append_assoc]
    exact (runs_path hp.plain).append (.cons (step_root_pass rfl)
      (.single (step_leave (by simpa using hp.nonempty))))
  | @call p cs as hp ha =>
    have hargs : Runs (inside nodes start [.listing p [] .unset]) cs _ := runs_arguments ha rfl
    rw [closeCall_root_listing] at hargs
    rw [List.append_assoc]
    exact (runs_path hp.plain).append (.cons step_naming_open
      (hargs.append (.single (step_leave (by simpa using hp.nonempty)))))

/-- A run over a variable between its braces adds its call to the nodes. -/
theorem runs_braces (h : Variable cs call) :
    Runs (outside nodes s) ('{' :: (cs ++ ['}'])) (outside (nodes ++ textNodes s ++ [.call call]) []) := by
  intro pos
  simp only [read, step_open]
  exact runs_variable h (pos + 1)

/-- A backslash at the end waits for its character. -/
theorem runs_lone (nodes : List Node) (w : List Char) :
    Runs (outside nodes w) ['\\'] { outside nodes w with escape := true } :=
  .single fun pos => by simp [step, outside, readText]

theorem finish_escape (s : State) (b : Bool) : { s with escape := b }.finish = s.finish := by
  have hf : (flush { s with escape := b }).nodes = s.flush.nodes := by
    simp only [flush]
    split <;> rfl
  simp only [finish, hf]

/-- What the grammar derives is read to its end. -/
theorem runs_source (h : Source cs ns) (nodes : List Node) :
    ∃ u, Runs (outside nodes []) cs u ∧ u.finish = .ok ⟨nodes ++ ns⟩ := by
  induction h generalizing nodes with
  | text hl => exact ⟨_, runs_literal_text hl, finish_outside⟩
  | @lone cs s hl =>
    refine ⟨{ outside nodes s with escape := true }, ?_, (finish_escape _ _).trans finish_outside⟩
    exact (runs_literal_text hl).append (runs_lone _ _)
  | @braces cs s v rest call ns hl hv _ ih =>
    obtain ⟨u, hu, hf⟩ := ih (nodes ++ textNodes s ++ [.call call])
    refine ⟨u, ?_, by simpa using hf⟩
    have hrun := (runs_literal_text (w := []) hl).append ((runs_braces hv).append hu)
    simpa using hrun

/-! ## From runs to the grammar -/

/-- A text runs up to an unescaped `stop`, to its end, or to a backslash at its end. -/
theorem literal_split (stop : Char) (hs : stop ≠ '\\') (cs : List Char) :
    ∃ w s, Literal stop w s ∧ (cs = w ∨ cs = w ++ ['\\'] ∨ ∃ rest, cs = w ++ stop :: rest) := by
  match cs with
  | [] => exact ⟨[], [], .nil, .inl rfl⟩
  | [c] =>
    by_cases hb : c = '\\'
    · exact ⟨[], [], .nil, .inr (.inl (by rw [hb]; rfl))⟩
    by_cases hc : c = stop
    · exact ⟨[], [], .nil, .inr (.inr ⟨[], by rw [hc]; rfl⟩)⟩
    · exact ⟨[c], [c], .plain hb hc .nil, .inl rfl⟩
  | c :: d :: rest =>
    by_cases hb : c = '\\'
    · subst hb
      obtain ⟨w, s, hl, h⟩ := literal_split stop hs rest
      refine ⟨'\\' :: d :: w, d :: s, .escaped hl, ?_⟩
      simpa using h
    by_cases hc : c = stop
    · exact ⟨[], [], .nil, .inr (.inr ⟨d :: rest, by rw [hc]; rfl⟩)⟩
    · obtain ⟨w, s, hl, h⟩ := literal_split stop hs (d :: rest)
      refine ⟨c :: w, c :: s, .plain hb hc hl, ?_⟩
      simpa using h

/-- A text runs up to the first character of a class, or has none of them. -/
theorem span_cases (f : Char → Bool) (cs : List Char) :
    (∀ c ∈ cs, f c = false) ∨
      ∃ w d rest, cs = w ++ d :: rest ∧ f d ∧ ∀ c ∈ w, f c = false := by
  cases h : cs.find? f with
  | none => exact .inl fun c hc => by simpa using List.find?_eq_none.mp h c hc
  | some d =>
    obtain ⟨hd, w, rest, rfl, hw⟩ := List.find?_eq_some_iff_append.mp h
    exact .inr ⟨w, d, rest, rfl, hd, fun c hc => by simpa using hw c hc⟩

theorem Finishes.not_error {s : State} (h : Finishes s (c :: cs) tree)
    (he : ∀ pos, ∃ f, s.step pos c = .error f) : False := by
  obtain ⟨pos, t, ht, -⟩ := h.step
  obtain ⟨f, hf⟩ := he pos
  rw [hf] at ht
  cases ht

/-- After a string come spaces up to a comma or a bracket. -/
theorem exists_spaces (h : Finishes (inside nodes start (.listing p as (.string (String.ofList s)) :: below)) cs tree) :
    ∃ n d rest, cs = List.replicate n ' ' ++ d :: rest ∧ endsNumber d := by
  induction cs with
  | nil => exact absurd h (Runs.nil.not_finishes rfl)
  | cons c cs ih =>
    by_cases hd : endsNumber c
    · exact ⟨0, c, cs, rfl, hd⟩
    by_cases hs : c = ' '
    · subst hs
      obtain ⟨n, d, rest, rfl, hd⟩ := ih (h.of_runs (.single (step_space _ (by simp))))
      exact ⟨n + 1, d, rest, rfl, hd⟩
    · refine (h.not_error fun pos => ⟨⟨.unexpected c, pos⟩, ?_⟩).elim
      simp only [endsNumber, Bool.or_eq_true, beq_iff_eq, not_or] at hd
      simp [step, inside, readVariable, OpenCall.listing, readArguments, readArgument, hd, hs]

/-- A string goes on to its closing quote, and after spaces to a comma or a bracket. -/
theorem exists_string (h : Finishes (inside nodes start (.quoting p as [] :: below)) cs tree) :
    ∃ q s n d rest, cs = q ++ '"' :: (List.replicate n ' ' ++ d :: rest) ∧ Literal '"' q s ∧
      endsNumber d := by
  obtain ⟨q, s, hl, rfl | rfl | ⟨rest, rfl⟩⟩ := literal_split '"' (by decide) cs
  · exact absurd h ((runs_quoted hl).not_finishes rfl)
  · have hesc : ∀ pos, (inside nodes start (.quoting p as s :: below)).step pos '\\' =
        .ok { inside nodes start (.quoting p as s :: below) with escape := true } := fun pos => by
      simp [step, inside, readVariable, OpenCall.quoting, readQuoted]
    exact absurd h (((runs_quoted hl).append (.single hesc)).not_finishes rfl)
  · have hrest := (h.of_runs (runs_quoted hl)).of_runs (.single step_unquote)
    obtain ⟨n, d, rest, rfl, hd⟩ := exists_spaces hrest
    exact ⟨q, s, n, d, rest, rfl, hl, hd⟩

/-- A number goes on to a comma or a bracket and can be read. -/
theorem exists_numeral (hc : c.isDigit)
    (h : Finishes (inside nodes start (.listing p as (.number (String.ofList [c])) :: below)) cs tree) :
    ∃ w d rest x, cs = w ++ d :: rest ∧ endsNumber d ∧ Numeral (c :: w) x := by
  obtain hw | ⟨w, d, rest, rfl, hd, hw⟩ := span_cases endsNumber cs
  · exact absurd h ((runs_number hw).not_finishes rfl)
  have hend := h.of_runs (runs_number hw)
  cases hx : Decimal.real? (Text.trim (c :: w)) with
  | some x => exact ⟨w, d, rest, x, rfl, hd, .mk hc hw hx⟩
  | none =>
    refine (hend.not_error fun pos => ⟨⟨.badNumber (String.ofList (c :: w)), pos⟩, ?_⟩).elim
    simp only [endsNumber, Bool.or_eq_true, beq_iff_eq] at hd
    rcases hd with rfl | rfl <;>
      simp [step, inside, readVariable, OpenCall.listing, readArguments, OpenCall.finishArgument,
        readNumber?, hx, Except.map]

/-- An argument is a word with a comma or a bracket behind it, or a nested call up to its
opening bracket. -/
theorem exists_word (h : Finishes (inside nodes start (.listing p as .unset :: below)) (c :: cs) tree)
    (hc : c ≠ ')') (hs : isSeparator c = false) (hr : below.length + 1 + room = maxNesting) :
    (∃ w d rest a, c :: cs = w ++ d :: rest ∧ endsNumber d ∧ Word room w a) ∨
      ∃ w rest, c :: cs = w ++ '(' :: rest ∧ NestedPath w ∧ 0 < room := by
  simp only [isSeparator, Bool.or_eq_false_iff, beq_eq_false_iff_ne] at hs
  by_cases hq : c = '"'
  · subst hq
    obtain ⟨q, s, n, d, rest, rfl, hl, hd⟩ := exists_string (h.of_runs (.single step_quote))
    exact .inl ⟨_, d, rest, _, by simp, hd, .string n hl⟩
  by_cases hg : c.isDigit
  · obtain ⟨w, d, rest, x, rfl, hd, hx⟩ := exists_numeral hg (h.of_runs (.single (step_digit hg)))
    exact .inl ⟨_, d, rest, _, rfl, hd, .number hx⟩
  have hn : startsNestedPath c := by simp [startsNestedPath, hc, hs, hq, hg]
  rcases Nat.eq_zero_or_pos room with rfl | hroom
  · refine (h.not_error fun pos => ⟨⟨.tooDeep, pos⟩, ?_⟩).elim
    have hdeep : maxNesting ≤ below.length + 1 := by omega
    simp [step, inside, readVariable, OpenCall.listing, readArguments, readArgument, hc, hs, hq, hg, hdeep]
  have hpath := h.of_runs (.single (step_nested hn (by omega)))
  obtain hw | ⟨w, d, rest, rfl, hd, hw⟩ := span_cases endsPath cs
  · exact absurd hpath ((runs_path hw).not_finishes rfl)
  have hend := hpath.of_runs (runs_path hw)
  simp only [endsPath, Bool.or_eq_true, beq_iff_eq] at hd
  rcases hd with ((rfl | rfl) | rfl) | rfl
  · exact .inr ⟨c :: w, rest, rfl, .mk hn hw, hroom⟩
  · exact .inl ⟨c :: w, ',', rest, _, rfl, rfl, .reference hroom (.mk hn hw)⟩
  · exact .inl ⟨c :: w, ')', rest, _, rfl, rfl, .reference hroom (.mk hn hw)⟩
  · refine (hend.not_error fun pos => ⟨⟨.unclosedCall, pos⟩, ?_⟩).elim
    simp [step, inside, readVariable, OpenCall.naming, readPath]

/-- What finishes a tree inside an argument list starts with one. A nested call takes the
list twice: for its own arguments and for what follows them. -/
theorem exists_arguments (cs : List Char) {room : Nat} {p : List Char} {as : List Argument}
    {below : List OpenCall} (h : Finishes (inside nodes start (.listing p as .unset :: below)) cs tree)
    (hr : below.length + 1 + room = maxNesting) :
    ∃ pre rest as', cs = pre ++ rest ∧ Arguments room pre as' := by
  match cs with
  | [] => exact absurd h (Runs.nil.not_finishes rfl)
  | c :: cs =>
    by_cases hc : c = ')'
    · exact ⟨[c], cs, [], rfl, hc ▸ .close⟩
    by_cases hs : isSeparator c
    · obtain ⟨pre, rest, as', rfl, ha⟩ := exists_arguments cs (h.of_runs (.single (step_skip hs))) hr
      exact ⟨c :: pre, rest, as', rfl, .skip hs ha⟩
    rcases exists_word h hc (by simpa using hs) hr with
      ⟨w, d, rest, a, he, hd, hw⟩ | ⟨w, rest, he, hp, hroom⟩
    · rw [he, List.append_cons] at h
      have hrest := h.of_runs (runs_word hw hr hd)
      simp only [endsNumber, Bool.or_eq_true, beq_iff_eq] at hd
      rcases hd with rfl | rfl
      · have hlen : rest.length < (c :: cs).length := by
          simp only [he, List.length_append, List.length_cons]; omega
        obtain ⟨pre, rest, as', rfl, ha⟩ := exists_arguments rest hrest hr
        exact ⟨w ++ ',' :: pre, rest, a :: as', by simp [he], .more hw ha⟩
      · exact ⟨w ++ [')'], rest, [a], by simp [he], .last hw⟩
    · obtain ⟨room, rfl⟩ : ∃ m, room = m + 1 := ⟨room - 1, by omega⟩
      have hlen : rest.length < (c :: cs).length := by
        simp only [he, List.length_append, List.length_cons]; omega
      rw [he, List.append_cons] at h
      have hopen := h.of_runs (runs_open_nested hp (by omega))
      have hdepth : (OpenCall.listing p as .nested :: below).length + 1 + room = maxNesting := by
        simp only [List.length_cons]; omega
      obtain ⟨inner, rest', args, rfl, hi⟩ := exists_arguments rest hopen hdepth
      have hafter := hopen.of_runs (runs_arguments hi hdepth)
      rw [closeCall_listing] at hafter
      have hlen' : rest'.length < (c :: cs).length := by
        simp only [List.length_append] at hlen; omega
      obtain ⟨pre, rest, as', rfl, ha⟩ := exists_arguments rest' hafter hr
      exact ⟨w ++ '(' :: (inner ++ pre), rest, .call (String.ofList w) args :: as', by simp [he],
        .nested hp hi ha⟩
termination_by cs.length
decreasing_by
  · exact Nat.lt_succ_self _
  · exact hlen
  · exact hlen
  · exact hlen'

/-- A root call that is complete is left by a closing brace, and only with a path. -/
theorem exists_leave (h : Finishes (closing nodes start call) cs tree) :
    ∃ rest, cs = '}' :: rest ∧ call.path ≠ "" := by
  match cs with
  | [] => exact absurd h (Runs.nil.not_finishes rfl)
  | c :: rest =>
    by_cases hc : c = '}'
    · subst hc
      by_cases hp : call.path = ""
      · refine (h.not_error fun pos => ⟨⟨.emptyVariable, start⟩, ?_⟩).elim
        simp [step, closing, readVariable, leave, hp]
      · exact ⟨rest, rfl, hp⟩
    · refine (h.not_error fun pos => ⟨⟨.unexpected c, pos⟩, ?_⟩).elim
      simp [step, closing, readVariable, hc]

/-- What finishes a tree after an opening brace starts with a variable and its closing brace. -/
theorem exists_variable (h : Finishes (inside nodes start [.naming []]) cs tree) :
    ∃ v rest call, cs = v ++ '}' :: rest ∧ Variable v call := by
  obtain hp | ⟨p, d, rest, rfl, hd, hp⟩ := span_cases endsPath cs
  · exact absurd h ((runs_path hp).not_finishes rfl)
  have hend := h.of_runs (runs_path hp)
  have hroot (as : List Argument) (hq : (⟨String.ofList p, as⟩ : Call).path ≠ "") : RootPath p :=
    ⟨by simpa using hq, hp⟩
  simp only [endsPath, Bool.or_eq_true, beq_iff_eq] at hd
  rcases hd with ((rfl | rfl) | rfl) | rfl
  · have hroom : ([] : List OpenCall).length + 1 + (maxNesting - 1) = maxNesting := rfl
    have hlist := hend.of_runs (.single step_naming_open)
    obtain ⟨pre, rest, as, rfl, ha⟩ := exists_arguments rest hlist hroom
    have hclose := hlist.of_runs (runs_arguments ha hroom)
    rw [closeCall_root_listing] at hclose
    obtain ⟨rest, rfl, hq⟩ := exists_leave hclose
    exact ⟨p ++ '(' :: pre, rest, _, by simp, .call (hroot _ hq) ha⟩
  · obtain ⟨rest, rfl, hq⟩ := exists_leave (hend.of_runs (.single (step_root_pass rfl)))
    exact ⟨p ++ [','], rest, _, by simp, .comma (hroot _ hq)⟩
  · obtain ⟨rest, rfl, hq⟩ := exists_leave (hend.of_runs (.single (step_root_pass rfl)))
    exact ⟨p ++ [')'], rest, _, by simp, .bracket (hroot _ hq)⟩
  · refine ⟨p, rest, _, rfl, .bare ⟨?_, hp⟩⟩
    rintro rfl
    refine hend.not_error fun pos => ⟨⟨.emptyVariable, start⟩, ?_⟩
    simp [step, inside, readVariable, OpenCall.naming, readPath, closeCall, leave, OpenCall.toCall]

/-- What finishes a tree outside braces is a source of the grammar for the nodes that the
tree has more. -/
theorem source_of_finishes (nodes : List Node) (cs : List Char)
    (h : Finishes (outside nodes []) cs tree) : ∃ ns, tree.nodes = nodes ++ ns ∧ Source cs ns := by
  obtain ⟨w, s, hl, rfl | rfl | ⟨rest, rfl⟩⟩ := literal_split '{' (by decide) cs
  · have hf := h.finish (runs_literal_text hl)
    rw [List.nil_append, finish_outside] at hf
    exact ⟨textNodes s, by cases hf; rfl, .text hl⟩
  · have hf := h.finish ((runs_literal_text hl).append (runs_lone _ _))
    rw [finish_escape, finish_outside] at hf
    exact ⟨textNodes s, by cases hf; rfl, .lone hl⟩
  · obtain ⟨pos, t, ht, hopen⟩ := (h.of_runs (runs_literal_text hl)).step
    rw [List.nil_append, step_open] at ht
    cases ht
    obtain ⟨v, rest, call, rfl, hv⟩ := exists_variable hopen
    rw [List.append_cons] at hopen
    obtain ⟨ns, he, hs⟩ := source_of_finishes _ rest (hopen.of_runs (runs_variable hv))
    exact ⟨textNodes s ++ .call call :: ns, by simpa using he, .braces hl hv hs⟩
termination_by cs.length
decreasing_by simp_all; omega

end State

/-- A source is read with a tree exactly if the grammar derives the tree from it. -/
theorem parse_eq_ok_iff {source : String} {t : Tree} :
    parse source = .ok t ↔ Source source.toList t.nodes := by
  have hstart : ({} : State) = State.outside [] [] := rfl
  constructor
  · intro h
    rw [parse] at h
    split at h
    · rename_i u hu
      obtain ⟨ns, he, hs⟩ := State.source_of_finishes [] _ ⟨0, u, hu, h⟩
      rwa [he, List.nil_append]
    · cases h
  · intro h
    obtain ⟨u, hu, hf⟩ := State.runs_source h []
    rw [parse, hstart, hu 0]
    simpa using hf

theorem parseTree_ok_iff {source : String} {t : Tree} :
    parseTree source = .ok t ↔ parse source = .ok t := by
  rw [parseTree]
  cases parse source with
  | ok _ => exact ⟨fun h => by cases h; rfl, fun h => by cases h; rfl⟩
  | error _ => exact ⟨nofun, nofun⟩

/-- The template parser accepts exactly the sources of the grammar, each with the tree that
the grammar derives from it. -/
theorem parseTree_eq_ok_iff (source : String) (t : Tree) :
    parseTree source = .ok t ↔ Source source.toList t.nodes :=
  parseTree_ok_iff.trans parse_eq_ok_iff

end Stencil.Template

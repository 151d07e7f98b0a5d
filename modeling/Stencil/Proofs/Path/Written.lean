import Stencil.Path
import Stencil.Proofs.Template.Printing

/-!
# Written paths

A path is written step by step. Each step stands for one key: a plain name after a dot,
a key in quotes between brackets, or a bare key between brackets. A key in quotes may hold
any characters, and reading the text gives the keys back, whatever they hold.

* `Step`, `Step.WellFormed`: the steps, and which keys they can be written for;
* `written`: the text of a list of steps;
* `Continues`: what may stand behind a step;
* `segments_text`: a step is read up to its end, whatever continues the path;
* `resolve_of_split`: a path looks up its segments one after the other;
* `split_written_and_resolve`: a written path has the keys of its steps for segments, and it
  resolves to what the keys lead to.
-/

namespace Stencil

/-! ## Looking up key after key -/

theorem Value.foldl_attr_undefined (keys : List String) :
    keys.foldl Value.attr .undefined = .undefined := by
  induction keys with
  | nil => rfl
  | cons key rest ih => exact ih

namespace Path

open Template (escape)

/-- Nothing is found in a value that holds nothing, so the walk may as well go on there. -/
theorem walk_eq_foldl (v : Value) (keys : List String) : walk v keys = keys.foldl Value.attr v := by
  induction keys generalizing v with
  | nil => rfl
  | cons key rest ih =>
    rw [walk, List.foldl_cons]
    split
    · rename_i hv
      have hattr : v.attr key = .undefined := by
        cases v <;> first | rfl | simp [Value.isUndefined, Value.isNone] at hv
      rw [hattr, Value.foldl_attr_undefined]
    · exact ih _

/-- A path that is no entry itself looks up its segments one after the other, if it is not
deep because it is its only segment. -/
theorem resolve_of_split {root : Value} {path first : String} {rest : List String}
    (hroot : root.entries?.bind (Entries.get? · path) = none) (hs : split path = first :: rest)
    (hdeep : isDeep path = false → first = path ∧ rest = []) :
    resolve root path = (first :: rest).foldl Value.attr root := by
  rw [resolve, hroot]
  cases hd : isDeep path with
  | true =>
    rw [if_pos rfl, hs]
    exact walk_eq_foldl _ _
  | false =>
    obtain ⟨rfl, rfl⟩ := hdeep hd
    rfl

/-! ## Steps -/

/-- A step of a path. -/
inductive Step
  | plain (name : String)
  | quoted (quote : Char) (key : String)
  | bare (key : String)

namespace Step

/-- The key that a step looks up. -/
def key : Step → String
  | plain name => name
  | quoted _ key => key
  | bare key => key

/-- Plain names hold no dots and brackets, bare keys no brackets, and both are not empty.
A bare key does not start with a quote, as it would be taken for a key in quotes. -/
def WellFormed : Step → Prop
  | plain name => name.toList ≠ [] ∧ ∀ c ∈ name.toList, isMark c = false
  | quoted quote _ => quote = '"' ∨ quote = '\''
  | bare key => key.toList ≠ [] ∧ (key.toList.head? ≠ some '"' ∧ key.toList.head? ≠ some '\'') ∧
      ∀ c ∈ key.toList, c ≠ '[' ∧ c ≠ ']'

instance (s : Step) : Decidable s.WellFormed :=
  -- The characters of a key are gone through, not all characters.
  match s with
  | plain name =>
    have : Decidable (∀ c ∈ name.toList, isMark c = false) := List.decidableBAll _ _
    inferInstanceAs (Decidable (_ ∧ _))
  | quoted _ _ => inferInstanceAs (Decidable (_ ∨ _))
  | bare key =>
    have : Decidable (∀ c ∈ key.toList, c ≠ '[' ∧ c ≠ ']') := List.decidableBAll _ _
    inferInstanceAs (Decidable (_ ∧ _ ∧ _))

/-- The text of a step. -/
def text : Step → List Char
  | plain name => '.' :: name.toList
  | quoted quote key => '[' :: quote :: (escape quote key.toList ++ [quote, ']'])
  | bare key => '[' :: (key.toList ++ [']'])

/-- The text of a step in front of all others: a plain name has no dot there. -/
def frontText : Step → List Char
  | plain name => name.toList
  | s => s.text

end Step

/-- The text of a path. -/
def written : List Step → String
  | [] => ""
  | s :: rest => String.ofList (s.frontText ++ rest.flatMap Step.text)

/-- What may stand behind a step: another step, or nothing. No closing bracket comes before
the next opening one, so a bare key ends at its own bracket. -/
structure Continues (rest : List Char) : Prop where
  head : ∀ c ∈ rest.head?, isMark c = true
  closing : ']' ∉ rest.takeWhile (· != '[')

variable {s : Step} {steps : List Step} {rest : List Char}

theorem continues_nil : Continues [] := ⟨by simp, by simp⟩

theorem continues_open (rest : List Char) : Continues ('[' :: rest) := ⟨by simp [isMark], by simp⟩

/-- A plain name keeps what is in front of it from a closing bracket. -/
theorem Continues.dot (h : Continues rest) {name : List Char} (hn : ∀ c ∈ name, isMark c = false) :
    Continues ('.' :: (name ++ rest)) := by
  have hopen : ∀ c ∈ '.' :: name, (c != '[') = true := by
    intro c hc
    rcases List.mem_cons.1 hc with rfl | hc
    · rfl
    · have := hn c hc
      simp_all [isMark]
  refine ⟨by simp [isMark], ?_⟩
  rw [← List.cons_append, List.takeWhile_append_of_pos hopen, List.mem_append, not_or]
  refine ⟨fun hc => ?_, h.closing⟩
  rcases List.mem_cons.1 hc with hc | hc
  · cases hc
  · have := hn _ hc
    simp [isMark] at this

theorem Continues.text (hs : s.WellFormed) (h : Continues rest) : Continues (s.text ++ rest) := by
  cases s with
  | plain name => exact h.dot hs.2
  | quoted quote key => exact continues_open _
  | bare key => exact continues_open _

theorem continues_texts (h : ∀ s ∈ steps, s.WellFormed) : Continues (steps.flatMap Step.text) := by
  induction steps with
  | nil => exact continues_nil
  | cons s steps ih =>
    rw [List.flatMap_cons]
    exact .text (h s List.mem_cons_self) (ih fun s' hs => h s' (List.mem_cons_of_mem _ hs))

/-! ## Reading steps -/

theorem quotedKey?_escape {quote : Char} (hq : quote ≠ '\\') (key rest : List Char) :
    quotedKey? quote (escape quote key ++ quote :: ']' :: rest) = some (key, rest) := by
  induction key with
  | nil => simp [escape, quotedKey?, hq]
  | cons c key ih =>
    rw [escape]
    split
    · simp [quotedKey?, ih]
    · rename_i hc
      rw [not_or] at hc
      rw [List.cons_append, quotedKey?.eq_def]
      simp [hc.1, hc.2, ih]

theorem cutAtLastClosing?_eq_none (h : ']' ∉ rest) : cutAtLastClosing? rest = none := by
  induction rest with
  | nil => rfl
  | cons c rest ih =>
    rw [List.mem_cons, not_or] at h
    simp [cutAtLastClosing?, ih h.2, Ne.symm h.1]

theorem cutAtLastClosing?_append (key : List Char) (h : ']' ∉ rest) :
    cutAtLastClosing? (key ++ ']' :: rest) = some (key, rest) := by
  induction key with
  | nil => simp [cutAtLastClosing?, cutAtLastClosing?_eq_none h]
  | cons c key ih => simp [cutAtLastClosing?, ih]

theorem bareKey?_append {key : List Char} (hn : key ≠ []) (hk : ∀ c ∈ key, c ≠ '[' ∧ c ≠ ']')
    (h : Continues rest) : bareKey? (key ++ ']' :: rest) = some (key, rest) := by
  obtain ⟨c, cs, rfl⟩ := List.exists_cons_of_ne_nil hn
  have hopen : ∀ d ∈ cs ++ [']'], (d != '[') = true := by
    intro d hd
    rcases List.mem_append.1 hd with hd | hd
    · simpa using (hk d (List.mem_cons_of_mem _ hd)).1
    · rw [List.mem_singleton.1 hd]
      rfl
  have happ : cs ++ ']' :: rest = cs ++ [']'] ++ rest := by rw [List.append_assoc, List.singleton_append]
  have htake : (cs ++ ']' :: rest).takeWhile (· != '[') = cs ++ ']' :: rest.takeWhile (· != '[') := by
    rw [happ, List.takeWhile_append_of_pos hopen, List.append_assoc, List.singleton_append]
  have hdrop : (cs ++ ']' :: rest).dropWhile (· != '[') = rest.dropWhile (· != '[') := by
    rw [happ, List.dropWhile_append_of_pos hopen]
  rw [List.cons_append, bareKey?, htake, hdrop, cutAtLastClosing?_append cs h.closing]
  show some (c :: cs, rest.takeWhile (· != '[') ++ rest.dropWhile (· != '[')) = _
  rw [List.takeWhile_append_dropWhile]

theorem segments_key {cs key after : List Char} (h : key? cs = some (key, after)) :
    segments ('[' :: cs) = key :: segments after := by
  rw [segments]
  split
  · rename_i h'
    cases h.symm.trans h'
    rfl
  · rename_i h'
    cases h.symm.trans h'

theorem segments_of_not_mark {c : Char} (hc : isMark c = false) (cs : List Char) :
    segments (c :: cs) =
      (c :: cs.takeWhile fun d => !isMark d) :: segments (cs.dropWhile fun d => !isMark d) := by
  rw [segments] <;>
  · rintro rfl
    simp [isMark] at hc

/-- A plain name is read up to its end. -/
theorem segments_name {name : List Char} (hn : name ≠ []) (hm : ∀ c ∈ name, isMark c = false)
    (h : Continues rest) : segments (name ++ rest) = name :: segments rest := by
  obtain ⟨c, cs, rfl⟩ := List.exists_cons_of_ne_nil hn
  have hname : ∀ d ∈ cs, (!isMark d) = true := by
    intro d hd
    rw [hm d (List.mem_cons_of_mem _ hd)]
    rfl
  have hrest : rest.takeWhile (fun d => !isMark d) = [] ∧ rest.dropWhile (fun d => !isMark d) = rest := by
    cases rest with
    | nil => exact ⟨rfl, rfl⟩
    | cons d rest => simp [h.head d rfl]
  rw [List.cons_append, segments_of_not_mark (hm c List.mem_cons_self),
    List.takeWhile_append_of_pos hname, List.dropWhile_append_of_pos hname, hrest.1, hrest.2,
    List.append_nil]

/-- No segment ends where a plain name starts. -/
theorem endsSegment_name {name : List Char} (hn : name ≠ []) (hm : ∀ c ∈ name, isMark c = false) :
    endsSegment (name ++ rest) = false := by
  obtain ⟨c, cs, rfl⟩ := List.exists_cons_of_ne_nil hn
  have hc : isMark c = false := hm c List.mem_cons_self
  simp only [isMark, Bool.or_eq_false_iff, beq_eq_false_iff_ne] at hc
  rw [List.cons_append]
  unfold endsSegment startsEmptyBrackets
  split <;> simp_all

theorem key?_text (hs : s.WellFormed) (h : Continues rest) {cs : List Char} (ht : s.text = '[' :: cs) :
    key? (cs ++ rest) = some (s.key.toList, rest) := by
  cases s with
  | plain name => cases ht
  | quoted quote key =>
    cases ht
    have hquote : quote = '"' ∨ quote = '\'' := hs
    have hq : quote ≠ '\\' := by rcases hquote with rfl | rfl <;> decide
    have happ : escape quote key.toList ++ [quote, ']'] ++ rest =
        escape quote key.toList ++ quote :: ']' :: rest := by simp
    rw [List.cons_append, key?, if_pos (by simpa using hquote), happ]
    exact quotedKey?_escape hq _ _
  | bare key =>
    cases ht
    obtain ⟨hn, hq, hk⟩ := hs
    rw [List.append_assoc, List.singleton_append]
    obtain ⟨c, cs, hc⟩ := List.exists_cons_of_ne_nil hn
    have hquote : c ≠ '"' ∧ c ≠ '\'' := by simpa [hc] using hq
    have hbare := bareKey?_append hn hk h
    rw [hc, List.cons_append] at hbare
    rw [Step.key, hc, List.cons_append, key?, if_neg (by simpa using hquote), hbare]

/-- A step is read up to its end. -/
theorem segments_text (hs : s.WellFormed) (h : Continues rest) :
    segments (s.text ++ rest) = s.key.toList :: segments rest := by
  cases s with
  | plain name =>
    rw [Step.text, List.cons_append, segments, endsSegment_name hs.1 hs.2, if_neg Bool.false_ne_true]
    exact segments_name hs.1 hs.2 h
  | quoted quote key => exact segments_key (key?_text hs h rfl)
  | bare key => exact segments_key (key?_text hs h rfl)

theorem segments_texts (h : ∀ s ∈ steps, s.WellFormed) :
    segments (steps.flatMap Step.text) = steps.map (·.key.toList) := by
  induction steps with
  | nil => rw [List.flatMap_nil, segments, List.map_nil]
  | cons s steps ih =>
    have hrest : ∀ s' ∈ steps, s'.WellFormed := fun s' hs => h s' (List.mem_cons_of_mem _ hs)
    rw [List.flatMap_cons, segments_text (h s List.mem_cons_self) (continues_texts hrest), ih hrest,
      List.map_cons]

theorem segments_front (hs : s.WellFormed) (h : Continues rest) :
    segments (s.frontText ++ rest) = s.key.toList :: segments rest := by
  cases s with
  | plain name => exact segments_name hs.1 hs.2 h
  | quoted quote key => exact segments_text hs h
  | bare key => exact segments_text hs h

theorem head_frontText (hs : s.WellFormed) : ∃ c cs, s.frontText = c :: cs ∧ c ≠ '.' := by
  cases s with
  | plain name =>
    obtain ⟨c, cs, hc⟩ := List.exists_cons_of_ne_nil hs.1
    refine ⟨c, cs, hc, ?_⟩
    rintro rfl
    have hmark := hs.2 '.' (by rw [hc]; exact List.mem_cons_self)
    simp [isMark] at hmark
  | quoted quote key => exact ⟨_, _, rfl, by decide⟩
  | bare key => exact ⟨_, _, rfl, by decide⟩

/-- A written path has the keys of its steps for segments. -/
theorem split_written (hs : ∀ s' ∈ s :: steps, s'.WellFormed) :
    split (written (s :: steps)) = (s :: steps).map Step.key := by
  have hfront := hs s List.mem_cons_self
  have hrest : ∀ s' ∈ steps, s'.WellFormed := fun s' h => hs s' (List.mem_cons_of_mem _ h)
  obtain ⟨c, cs, hc, hdot⟩ := head_frontText hfront
  have hseg := segments_front hfront (continues_texts hrest)
  rw [segments_texts hrest, hc, List.cons_append] at hseg
  rw [split, written, String.toList_ofList, hc, List.cons_append]
  simp only [hseg]
  simp [hdot, Function.comp_def]

/-- A written path that is not deep is a plain name. -/
theorem eq_plain_of_not_deep (h : isDeep (written (s :: steps)) = false) :
    s.key = written (s :: steps) ∧ steps = [] := by
  rw [isDeep, written, String.toList_ofList, List.any_append, Bool.or_eq_false_iff] at h
  obtain ⟨hfront, hrest⟩ := h
  have hsteps : steps = [] := by
    cases steps with
    | nil => rfl
    | cons s' _ => cases s' <;> simp [Step.text] at hrest
  subst hsteps
  cases s with
  | plain name => simp [Step.key, written, Step.frontText]
  | quoted quote key => simp [Step.frontText, Step.text] at hfront
  | bare key => simp [Step.frontText, Step.text] at hfront

/-- A written path is split into the keys of its steps. From a root without an entry under the
whole text, it resolves to what looking up one key after the other leads to. -/
theorem split_written_and_resolve (steps : List Step) (hn : steps ≠ []) (hs : ∀ s ∈ steps, s.WellFormed) :
    split (written steps) = steps.map Step.key ∧
      ∀ root : Value, root.entries?.bind (Entries.get? · (written steps)) = none →
        resolve root (written steps) = (steps.map Step.key).foldl Value.attr root := by
  obtain ⟨s, rest, rfl⟩ := List.exists_cons_of_ne_nil hn
  refine ⟨split_written hs, fun root hroot => ?_⟩
  rw [List.map_cons]
  refine resolve_of_split hroot (split_written hs) fun hdeep => ?_
  obtain ⟨hkey, rfl⟩ := eq_plain_of_not_deep hdeep
  exact ⟨hkey, rfl⟩

/-- A key that holds a quote, a backslash and a closing bracket, between plain names and a bare
key with a dot. -/
theorem resolve_written_brackets :
    let steps : List Step := [.plain "a", .quoted '"' "]\"\\", .bare "b.c", .plain "length"]
    let root : Value := .map [("a", .map [("]\"\\", .map [("b.c", .string "xyz")])])]
    steps ≠ [] ∧ (∀ s ∈ steps, s.WellFormed) ∧ written steps = "a[\"]\\\"\\\\\"][b.c].length" ∧
      root.entries?.bind (Entries.get? · (written steps)) = none ∧
      split (written steps) = ["a", "]\"\\", "b.c", "length"] ∧
      resolve root (written steps) = .unsigned 3 := by
  intro steps root
  have hn : steps ≠ [] := by decide
  have hs : ∀ s ∈ steps, s.WellFormed := by decide
  have hroot : root.entries?.bind (Entries.get? · (written steps)) = none := by decide
  obtain ⟨hsplit, hresolve⟩ := split_written_and_resolve steps hn hs
  exact ⟨hn, hs, by decide, hroot, hsplit, hresolve root hroot⟩

end Path

end Stencil

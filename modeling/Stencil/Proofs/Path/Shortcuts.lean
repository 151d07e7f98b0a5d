import Stencil.Proofs.Decimal.Digits
import Stencil.Proofs.Path.Written

/-!
# Shortcuts of the resolver

A path without a dot and an opening bracket is looked up as it stands, without being split,
and the walk along the segments of any other path stops at a value that holds nothing. Looking
up all segments one after the other gives the same, but for one kind of paths: those with
closing brackets and no other mark. They are split at the brackets like all others, yet looked
up as they stand, and so lead nowhere.

* `descend`: the plain walk, segment by segment;
* `Value.attr_eq_undefined`: what is no entry, no index and not the length leads nowhere;
* `split_of_not_mark`: a path without marks is its own only segment;
* `attr_of_not_deep`: where a path leads that is looked up as it stands;
* `resolve_eq_descend`: what a path resolves to, as an entry or by the plain walk;
* `resolve_closing_bracket`: a path that the plain walk resolves and the resolver does not.
-/

namespace Stencil

/-! ## Names that lead nowhere -/

/-- A whole number is written in digits, after a plus sign if there is one. -/
theorem Decimal.chars_of_natural? {cs : List Char} {n : Nat} (h : natural? cs = some n) :
    cs ≠ [] ∧ ∀ c ∈ cs, c = '+' ∨ c.isDigit := by
  obtain ⟨ds, hcs, hne, hdigits, -⟩ := written_of_natural? h
  rcases hcs with rfl | rfl
  · exact ⟨hne, fun c hc => .inr (hdigits c hc)⟩
  · exact ⟨List.cons_ne_nil _ _, by simpa using fun c hc => .inr (hdigits c hc)⟩

namespace Value

theorem index?_eq_none {name : String} (h : name = "" ∨ ']' ∈ name.toList) : index? name = .none := by
  rw [index?, Option.filter_eq_none_iff]
  intro n hn
  obtain ⟨hne, hchars⟩ := Decimal.chars_of_natural? hn
  rcases h with rfl | h
  · exact absurd rfl hne
  · have := hchars _ h
    simp [Char.isDigit] at this

/-- What is no entry, no index and not the length leads nowhere. -/
theorem attr_eq_undefined {v : Value} {name : String}
    (hentry : v.entries?.bind (Entries.get? · name) = .none) (hlength : name ≠ "length")
    (hindex : index? name = .none) : v.attr name = .undefined := by
  cases v with
  | map entries =>
    have hget : Entries.get? entries name = .none := hentry
    rw [attr, hget]
    rfl
  | seq items => rw [attr, if_neg hlength, hindex]; rfl
  | string s => rw [attr, if_neg hlength, hindex]; rfl
  | _ => rfl

/-- Neither the empty name nor one with a closing bracket leads anywhere but to an entry. -/
theorem attr_eq_undefined_of_closing {v : Value} {name : String}
    (hentry : v.entries?.bind (Entries.get? · name) = .none) (h : name = "" ∨ ']' ∈ name.toList) :
    v.attr name = .undefined := by
  refine attr_eq_undefined hentry ?_ (index?_eq_none h)
  rintro rfl
  revert h
  decide

end Value

namespace Path

/-! ## The plain walk -/

/-- What segments lead to from a root, looked up one after the other. Without a segment they
lead nowhere. -/
def descend (root : Value) : List String → Value
  | [] => .undefined
  | segments => segments.foldl Value.attr root

theorem isDeep_iff (path : String) : isDeep path = true ↔ '.' ∈ path.toList ∨ '[' ∈ path.toList := by
  simp [isDeep, List.any_eq_true, and_or_left, exists_or]

/-- A path without marks is its own only segment. -/
theorem split_of_not_mark {path : String} (hn : path ≠ "") (hm : ∀ c ∈ path.toList, isMark c = false) :
    split path = [path] := by
  have hstep : ∀ s ∈ [Step.plain path], s.WellFormed := by
    intro s hs
    rw [List.mem_singleton.1 hs]
    exact ⟨fun h => hn (String.toList_eq_nil_iff.1 h), hm⟩
  have hw : written [.plain path] = path := by simp [written, Step.frontText]
  have hsplit := split_written hstep
  rwa [hw] at hsplit

/-- The walk that stops early leads to the same value as the plain one. -/
theorem walk_split (root : Value) (segments : List String) :
    (match segments with
      | [] => Value.undefined
      | first :: rest => walk (root.attr first) rest) = descend root segments := by
  cases segments with
  | nil => rfl
  | cons first rest => exact walk_eq_foldl _ _

/-- A path without dots and brackets, if it is no entry, is found as it stands or nowhere. -/
theorem descend_split_of_not_mark {root : Value} {path : String}
    (hroot : root.entries?.bind (Entries.get? · path) = none)
    (hm : ∀ c ∈ path.toList, isMark c = false) : descend root (split path) = root.attr path := by
  by_cases hn : path = ""
  · subst hn
    rw [Value.attr_eq_undefined_of_closing hroot (.inl rfl)]
    simp [split, segments, descend]
  · rw [split_of_not_mark hn hm]
    rfl

/-- A path that is looked up as it stands, if it is no entry, leads where its segment does, and
nowhere with a closing bracket in it. -/
theorem attr_of_not_deep {root : Value} {path : String}
    (hroot : root.entries?.bind (Entries.get? · path) = none) (hdot : '.' ∉ path.toList)
    (hopen : '[' ∉ path.toList) :
    root.attr path = if ']' ∈ path.toList then .undefined else descend root (split path) := by
  split
  · rename_i hclose
    exact Value.attr_eq_undefined_of_closing hroot (.inr hclose)
  · rename_i hclose
    refine (descend_split_of_not_mark hroot fun c hc => ?_).symm
    have hmark : c ≠ '.' ∧ c ≠ '[' ∧ c ≠ ']' := by
      refine ⟨?_, ?_, ?_⟩ <;> rintro rfl
      · exact hdot hc
      · exact hopen hc
      · exact hclose hc
    simp [isMark, hmark]

/-- A path resolves to the entry under it, and otherwise to what its segments lead to, looked up
one after the other. Only a path whose marks are closing brackets alone leads nowhere, whatever
its segments are. -/
theorem resolve_eq_descend (root : Value) (path : String) :
    resolve root path =
      (root.entries?.bind (Entries.get? · path)).getD
        (if ']' ∈ path.toList ∧ '.' ∉ path.toList ∧ '[' ∉ path.toList then .undefined
        else descend root (split path)) := by
  rw [resolve]
  cases hroot : root.entries?.bind (Entries.get? · path) with
  | some v => rfl
  | none =>
    cases hd : isDeep path with
    | true =>
      have hdeep := (isDeep_iff path).1 hd
      rw [if_pos rfl, Option.getD_none, if_neg fun h => hdeep.elim h.2.1 h.2.2]
      exact walk_split root (split path)
    | false =>
      have hflat : '.' ∉ path.toList ∧ '[' ∉ path.toList := by
        rw [← not_or, ← isDeep_iff, hd]
        exact Bool.false_ne_true
      rw [if_neg Bool.false_ne_true, Option.getD_none]
      simpa only [hflat, not_false_eq_true, and_self, and_true] using
        attr_of_not_deep hroot hflat.1 hflat.2

/-- A path that ends in a closing bracket is split before it and its only segment is an entry of
the root. Still nothing is found. -/
theorem resolve_closing_bracket :
    let root : Value := .map [("a", .bool true)]
    root.entries?.bind (Entries.get? · "a]") = none ∧ split "a]" = ["a"] ∧
      descend root (split "a]") = .bool true ∧ resolve root "a]" = .undefined := by
  intro root
  have hsplit : split "a]" = ["a"] := by cbv
  refine ⟨rfl, hsplit, ?_, rfl⟩
  rw [hsplit]
  rfl

end Path

end Stencil

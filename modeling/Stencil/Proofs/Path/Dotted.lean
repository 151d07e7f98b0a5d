import Mathlib.Data.String.Basic
import Stencil.CommandLine.Data
import Stencil.Proofs.Path.Written

/-!
# Dotted paths

A path without brackets is split at its dots, each of them, so there is one segment more than
there are dots: two dots in a row have an empty segment between them, and so has a dot at
either end beside it. Selectors are split in the same way.

* `splitOn_dot`: cutting a text at its dots, character by character;
* `segments_dot`: behind a dot, the segments are the pieces between the dots;
* `split_dotted`: a path without brackets is cut at its dots, as a selector is.
-/

namespace Stencil.Path

/-! ## Cutting a text at its dots -/

section

open String

/-- The search for dots has passed `l`, the pieces of which are in `acc`, and `m`, which has no
dot and belongs to the next piece; `r` is left. -/
theorem splitOnAux_dot (l m r : List Char) (acc : List String) :
    splitOnAux (ofList (l ++ m ++ r)) "." ⟨utf8Len l⟩ ⟨utf8Len l + utf8Len m⟩ 0 acc =
      acc.reverse ++ (List.splitOnPPrepend (· == '.') r m.reverse).map ofList := by
  induction r generalizing l m acc with
  | nil =>
    have hend : Pos.Raw.atEnd (ofList (l ++ m)) ⟨utf8Len l + utf8Len m⟩ = true := by
      simpa using atEnd_of_valid (l ++ m) []
    have hpiece := extract_of_valid l m []
    simp only [List.append_nil] at hpiece
    rw [List.append_nil, splitOnAux.eq_1, if_pos hend, hpiece]
    simp
  | cons c r ih =>
    have hend : ¬ Pos.Raw.atEnd (ofList (l ++ m ++ c :: r)) ⟨utf8Len l + utf8Len m⟩ = true := by
      have := c.utf8Size_pos
      simp [-ofList_append]
      omega
    have hget : Pos.Raw.get (ofList (l ++ m ++ c :: r)) ⟨utf8Len l + utf8Len m⟩ = c := by
      simpa [-ofList_append] using get_of_valid (l ++ m) (c :: r)
    have hnext : Pos.Raw.next (ofList (l ++ m ++ c :: r)) ⟨utf8Len l + utf8Len m⟩ =
        ⟨utf8Len l + utf8Len m + c.utf8Size⟩ := by
      simpa [-ofList_append] using next_of_valid (l ++ m) c r
    have hdot : Pos.Raw.get "." 0 = '.' ∧ Pos.Raw.next "." 0 = ⟨1⟩ ∧ Pos.Raw.atEnd "." ⟨1⟩ = true := by
      decide
    have hpiece := extract_of_valid l m (c :: r)
    rw [splitOnAux.eq_1, if_neg hend, hget, hdot.1, List.splitOnPPrepend_cons_eq_if]
    split
    · rename_i hc
      obtain rfl := eq_of_beq hc
      have hsize : '.'.utf8Size = 1 := by decide
      have hend' : Pos.Raw.unoffsetBy ⟨utf8Len l + utf8Len m + 1⟩ ⟨1⟩ = ⟨utf8Len l + utf8Len m⟩ := rfl
      simp only [hnext, hdot, hsize, hend', hpiece, ↓reduceIte]
      have hrest := ih (l ++ m ++ ['.']) [] (ofList m :: acc)
      have hlen : utf8Len (l ++ m ++ ['.']) = utf8Len l + utf8Len m + 1 := by
        simp [hsize, Nat.add_assoc]
      rw [List.append_nil, List.append_assoc _ ['.'], List.singleton_append, hlen] at hrest
      refine hrest.trans ?_
      rw [List.reverse_reverse, List.reverse_cons, List.append_assoc]
      rfl
    · have hrest := ih l (m ++ [c]) acc
      have hstay : Pos.Raw.unoffsetBy ⟨utf8Len l + utf8Len m⟩ 0 = ⟨utf8Len l + utf8Len m⟩ := rfl
      simp only [hstay, hnext]
      have hlen : utf8Len (m ++ [c]) = utf8Len m + c.utf8Size := by simp
      rw [← List.append_assoc, List.append_assoc _ [c], List.singleton_append, hlen, ← Nat.add_assoc,
        List.reverse_concat] at hrest
      exact hrest

theorem splitOn_dot (s : String) : s.splitOn "." = (s.toList.splitOn '.').map ofList := by
  have h := splitOnAux_dot [] [] s.toList []
  rw [splitOn, if_neg (by decide), List.splitOn_eq_splitOnP, List.splitOnP_eq_splitOnPPrepend]
  simpa using h

end

theorem intercalate_splitOn_dot (s : String) : ".".intercalate (s.splitOn ".") = s := by
  apply String.toList_injective
  rw [String.toList_intercalate, splitOn_dot, List.map_map]
  simp [Function.comp_def]

theorem length_splitOn_dot (cs : List Char) : (cs.splitOn '.').length = cs.count '.' + 1 := by
  induction cs with
  | nil => rfl
  | cons c cs ih =>
    rw [List.splitOn_cons_eq_if_modifyHead, List.count_cons]
    split
    · rw [List.length_cons, ih]
    · rw [List.length_modifyHead, ih, Nat.add_zero]

/-! ## Segments between dots -/

variable {c : Char} {cs : List Char}

theorem endsSegment_cons (hc : c ≠ '[') : endsSegment (c :: cs) = (c == '.') := by
  unfold endsSegment startsEmptyBrackets
  split <;> simp_all

theorem segments_of_dot (cs : List Char) :
    segments ('.' :: cs) = if endsSegment cs then [] :: segments cs else segments cs := by
  rw [segments]

/-- A character that is no mark is put in front of the segment behind it. -/
theorem segments_dot_cons (hc : isMark c = false) (h : ∀ d ∈ cs, d ≠ '[' ∧ d ≠ ']') :
    segments ('.' :: c :: cs) = (segments ('.' :: cs)).modifyHead (c :: ·) := by
  have hmark : c ≠ '.' ∧ c ≠ '[' ∧ c ≠ ']' := by simpa [isMark, and_assoc] using hc
  rw [segments_of_dot, endsSegment_cons hmark.2.1, if_neg (by simpa using hmark.1), segments_of_dot,
    segments_of_not_mark hc]
  cases cs with
  | nil => rfl
  | cons d ds =>
    have hd := h d List.mem_cons_self
    rw [endsSegment_cons hd.1]
    by_cases hdot : d = '.'
    · subst hdot
      rfl
    · have hd' : isMark d = false := by simp [isMark, hdot, hd]
      rw [if_neg (by simpa using hdot), segments_of_not_mark hd']
      simp [hd']

/-- Behind a dot, the segments are the pieces between the dots. -/
theorem segments_dot (h : ∀ d ∈ cs, d ≠ '[' ∧ d ≠ ']') : segments ('.' :: cs) = cs.splitOn '.' := by
  induction cs with
  | nil => rw [segments_of_dot, if_pos (by decide), segments, List.splitOn_nil]
  | cons c cs ih =>
    have hrest : ∀ d ∈ cs, d ≠ '[' ∧ d ≠ ']' := fun d hd => h d (List.mem_cons_of_mem _ hd)
    have hc := h c List.mem_cons_self
    rw [List.splitOn_cons_eq_if_modifyHead, ← ih hrest]
    split
    · rename_i hdot
      rw [segments_of_dot (c :: cs), endsSegment_cons hc.1, if_pos hdot, eq_of_beq hdot]
    · rename_i hdot
      refine segments_dot_cons ?_ hrest
      simp_all [isMark]

/-- A path without brackets is cut at its dots, as a selector is. It has one segment more than
dots, and with a dot between any two of them the segments make up the path. -/
theorem split_dotted (path : String) (hn : path ≠ "") (hb : ∀ c ∈ path.toList, c ≠ '[' ∧ c ≠ ']') :
    split path = path.splitOn "." ∧
      (split path).length = path.toList.count '.' + 1 ∧ ".".intercalate (split path) = path ∧
      ∀ v, CommandLine.select path v = CommandLine.selectParts path v (split path) := by
  have hsplit : split path = path.splitOn "." := by
    rw [splitOn_dot, ← segments_dot hb, split, segments_of_dot]
    cases hcs : path.toList with
    | nil => exact absurd (String.toList_eq_nil_iff.1 hcs) hn
    | cons c cs =>
      have hc := hb c (by rw [hcs]; exact List.mem_cons_self)
      rw [endsSegment_cons hc.1]
      by_cases hdot : c = '.'
      · subst hdot
        rfl
      · rw [if_neg (by simpa using hdot)]
        simp [hdot]
  refine ⟨hsplit, ?_, ?_, fun v => ?_⟩
  · rw [hsplit, splitOn_dot, List.length_map, length_splitOn_dot]
  · rw [hsplit, intercalate_splitOn_dot]
  · rw [hsplit]
    rfl

/-- Dots at both ends, and two in a row. -/
theorem split_dotted_edges :
    let path := ".user..name."
    path ≠ "" ∧ (∀ c ∈ path.toList, c ≠ '[' ∧ c ≠ ']') ∧
      path.splitOn "." = ["", "user", "", "name", ""] ∧ split path = ["", "user", "", "name", ""] ∧
      (split path).length = path.toList.count '.' + 1 ∧ ".".intercalate (split path) = path ∧
      ∀ v, CommandLine.select path v = CommandLine.selectParts path v ["", "user", "", "name", ""] := by
  intro path
  have hn : path ≠ "" := by decide
  have hb : ∀ c ∈ path.toList, c ≠ '[' ∧ c ≠ ']' := by simp [path]
  have hpieces : path.splitOn "." = ["", "user", "", "name", ""] := by
    rw [splitOn_dot]
    decide
  obtain ⟨hsplit, hlength, hjoined, hselect⟩ := split_dotted path hn hb
  rw [hpieces] at hsplit
  exact ⟨hn, hb, hpieces, hsplit, hlength, hjoined, fun v => hsplit ▸ hselect v⟩

end Stencil.Path

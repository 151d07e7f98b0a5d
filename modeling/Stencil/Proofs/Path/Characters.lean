import Stencil.Path

/-!
# The characters of a path

Splitting takes the keys out of a path and leaves the marks, the quotes and the backslashes of
quoted keys behind. No other character is lost, and none appears twice or out of its place,
however malformed the path is: a bracket that holds no key is passed over alone, and what stands
behind it is read again.

* `delimiters`, `keyChars`: the characters that may be left behind, and a text without them;
* `Spread`: pieces that stand in a text in order, with marks between them;
* `keyChars_key?`, `eq_of_key?`: what reading a key takes up;
* `keyChars_segments`, `spread_segments`: what the segments keep of a path;
* `split_keeps_characters`: a path and its segments have the same characters, and the segments
  of a path without quotes stand in it one after the other.
-/

namespace Stencil.Path

/-! ## What stands in a text -/

/-- The marks, the quotes and the backslash. -/
def delimiters : List Char := ['.', '[', ']', '"', '\'', '\\']

/-- A text without its delimiters. -/
def keyChars (cs : List Char) : List Char := cs.filter fun c => c ∉ delimiters

/-- The pieces stand in the text one after the other. Around and between them are marks
alone. -/
inductive Spread : List (List Char) → List Char → Prop
  | nil {gap : List Char} (hgap : ∀ c ∈ gap, isMark c) : Spread [] gap
  | cons {gap rest : List Char} {pieces : List (List Char)} (hgap : ∀ c ∈ gap, isMark c)
      (piece : List Char) (hrest : Spread pieces rest) : Spread (piece :: pieces) (gap ++ piece ++ rest)

variable {c quote : Char} {cs key after : List Char} {pieces : List (List Char)}

theorem keyChars_append (as bs : List Char) : keyChars (as ++ bs) = keyChars as ++ keyChars bs :=
  List.filter_append ..

theorem keyChars_cons_delimiter (hc : c ∈ delimiters) (cs : List Char) : keyChars (c :: cs) = keyChars cs := by
  simp [keyChars, hc]

theorem keyChars_cons (c : Char) (cs : List Char) : keyChars (c :: cs) = keyChars [c] ++ keyChars cs :=
  keyChars_append [c] cs

theorem Spread.mark (hc : isMark c) (h : Spread pieces cs) : Spread pieces (c :: cs) := by
  cases h with
  | nil hgap => exact .nil (List.forall_mem_cons.2 ⟨hc, hgap⟩)
  | cons hgap piece hrest => exact .cons (List.forall_mem_cons.2 ⟨hc, hgap⟩) piece hrest

theorem Spread.piece (piece : List Char) (h : Spread pieces cs) : Spread (piece :: pieces) (piece ++ cs) :=
  .cons (List.forall_mem_nil _) piece h

/-! ## Reading a key -/

theorem keyChars_quotedKey? (hq : quote ∈ delimiters) (h : quotedKey? quote cs = some (key, after)) :
    keyChars cs = keyChars key ++ keyChars after := by
  have hclose : ']' ∈ delimiters := by decide
  have hescape : '\\' ∈ delimiters := by decide
  fun_induction quotedKey? quote cs generalizing key after with
  | case1 | case2 | case5 => cases h
  | case3 d rest ih =>
    obtain ⟨⟨k, a⟩, hk, he⟩ := Option.map_eq_some_iff.1 h
    cases he
    rw [keyChars_cons_delimiter hescape, keyChars_cons, ih hk, ← List.append_assoc, ← keyChars_cons]
  | case4 =>
    cases h
    rw [keyChars_cons_delimiter hq, keyChars_cons_delimiter hclose]
    rfl
  | case6 c rest _ _ ih =>
    obtain ⟨⟨k, a⟩, hk, he⟩ := Option.map_eq_some_iff.1 h
    cases he
    rw [keyChars_cons, ih hk, ← List.append_assoc, ← keyChars_cons]

theorem eq_of_cutAtLastClosing? (h : cutAtLastClosing? cs = some (key, after)) :
    cs = key ++ ']' :: after := by
  fun_induction cutAtLastClosing? cs generalizing key after with
  | case1 | case4 => cases h
  | case2 c rest k a hk ih =>
    cases h
    rw [ih hk, List.cons_append]
  | case3 =>
    cases h
    rfl

/-- A bare key is taken up as it stands, with its bracket. -/
theorem eq_of_bareKey? (h : bareKey? cs = some (key, after)) : cs = key ++ ']' :: after := by
  cases cs with
  | nil => cases h
  | cons c rest =>
    obtain ⟨⟨k, a⟩, hk, he⟩ := Option.map_eq_some_iff.1 h
    cases he
    have hcut := eq_of_cutAtLastClosing? hk
    calc c :: rest = c :: (rest.takeWhile (· != '[') ++ rest.dropWhile (· != '[')) := by
          rw [List.takeWhile_append_dropWhile]
      _ = c :: k ++ ']' :: (a ++ rest.dropWhile (· != '[')) := by
          rw [hcut, List.append_assoc]
          rfl

/-- A key that is not quoted is taken up as it stands, with its bracket. -/
theorem eq_of_key? (hq : ∀ c ∈ cs, c ≠ '"' ∧ c ≠ '\'') (h : key? cs = some (key, after)) :
    cs = key ++ ']' :: after := by
  cases cs with
  | nil => cases h
  | cons c rest =>
    have hc := hq c List.mem_cons_self
    rw [key?, if_neg (by simpa using hc)] at h
    exact eq_of_bareKey? h

theorem keyChars_key? (h : key? cs = some (key, after)) : keyChars cs = keyChars key ++ keyChars after := by
  cases cs with
  | nil => cases h
  | cons c rest =>
    rw [key?] at h
    split at h
    · rename_i hc
      have hc' : c = '"' ∨ c = '\'' := by simpa using hc
      have hquote : c ∈ delimiters := by rcases hc' with rfl | rfl <;> decide
      rw [keyChars_cons_delimiter hquote]
      exact keyChars_quotedKey? hquote h
    · have hclose : ']' ∈ delimiters := by decide
      rw [eq_of_bareKey? h, keyChars_append, keyChars_cons_delimiter hclose]

/-! ## Segments -/

/-- The segments have the characters of the path, without delimiters. -/
theorem keyChars_segments (cs : List Char) : keyChars (segments cs).flatten = keyChars cs := by
  have hopen : '[' ∈ delimiters := by decide
  fun_induction segments cs with
  | case1 => rfl
  | case2 rest _ ih | case3 rest _ ih | case4 rest ih =>
    rw [keyChars_cons_delimiter (by decide)]
    exact ih
  | case5 rest key after hk _ ih =>
    rw [keyChars_cons_delimiter hopen, keyChars_key? hk, List.flatten_cons, keyChars_append, ih]
  | case6 rest _ _ _ ih | case7 rest _ _ _ ih =>
    rw [keyChars_cons_delimiter hopen]
    exact ih
  | case8 c rest _ _ _ _ ih =>
    rw [List.flatten_cons, keyChars_append, ih, ← keyChars_append, List.cons_append,
      List.takeWhile_append_dropWhile]

/-- Without quotes, the segments stand in the path in order. -/
theorem spread_segments (hq : ∀ c ∈ cs, c ≠ '"' ∧ c ≠ '\'') : Spread (segments cs) cs := by
  fun_induction segments cs with
  | case1 => exact .nil (by simp)
  | case2 rest _ ih => exact (ih fun c hc => hq c (List.mem_cons_of_mem _ hc)).mark (by decide) |>.piece []
  | case3 rest _ ih | case4 rest ih | case7 rest _ _ _ ih =>
    exact (ih fun c hc => hq c (List.mem_cons_of_mem _ hc)).mark (by decide)
  | case5 rest key after hk _ ih =>
    have hrest : rest = key ++ ']' :: after := eq_of_key? (fun c hc => hq c (List.mem_cons_of_mem _ hc)) hk
    have hafter : Spread (segments after) after := ih fun c hc => hq c (by simp [hrest, hc])
    rw [hrest]
    exact ((hafter.mark (by decide)).piece key).mark (by decide)
  | case6 rest _ _ _ ih =>
    exact (ih fun c hc => hq c (List.mem_cons_of_mem _ hc)).mark (by decide) |>.piece []
  | case8 c rest _ _ _ _ ih =>
    have hrest := ih fun d hd => hq d (List.mem_cons_of_mem _ ((List.dropWhile_suffix _).subset hd))
    have hname := hrest.piece (c :: rest.takeWhile fun d => !isMark d)
    rwa [List.cons_append, List.takeWhile_append_dropWhile] at hname

/-- A leading dot puts an empty segment in front of the others. -/
theorem toList_split (path : String) :
    (split path).map String.toList = segments path.toList ∨
      (split path).map String.toList = [] :: segments path.toList := by
  rw [split, List.map_map]
  split
  · exact .inr (by simp [Function.comp_def])
  · exact .inl (by simp [Function.comp_def])

/-- Splitting keeps all characters of a path but delimiters, once each and in order. The segments
of a path without quotes are pieces of it that stand in it one after the other. -/
theorem split_keeps_characters (path : String) :
    keyChars (String.join (split path)).toList = keyChars path.toList ∧
      ('"' ∉ path.toList → '\'' ∉ path.toList →
        Spread ((split path).map String.toList) path.toList) := by
  refine ⟨?_, fun hdouble hsingle => ?_⟩
  · have hflat : ((split path).map String.toList).flatten = (segments path.toList).flatten := by
      rcases toList_split path with h | h <;> rw [h]
      rfl
    rw [String.toList_join, List.flatMap_def, hflat, keyChars_segments]
  · have hq : ∀ c ∈ path.toList, c ≠ '"' ∧ c ≠ '\'' := by
      intro c hc
      exact ⟨fun h => hdouble (h ▸ hc), fun h => hsingle (h ▸ hc)⟩
    have hspread := spread_segments hq
    rcases toList_split path with h | h <;> rw [h]
    · exact hspread
    · exact hspread.piece []

end Stencil.Path

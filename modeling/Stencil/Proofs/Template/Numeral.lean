import Mathlib.Data.List.DropRight
import Stencil.Proofs.Template.Grammar

/-!
# Numerals without blanks

A number among arguments may have blanks behind it, which are cut off before it is
read. Without them it still stands for the same number, and what can be read as a
number holds no blanks at all, so nothing is cut off from it.

* `TightNumeral`: a numeral that is read as it stands;
* `Numeral.exists_tight`, `TightNumeral.numeral`: from one to the other.
-/

namespace Stencil.Decimal

open Text (isBlank)

/-- A character that can stand in a numeral with digits. -/
def isNumeralChar (c : Char) : Bool := c.isDigit || c == '.' || c == 'e' || c == 'E' || c == '+' || c == '-'

theorem isBlank_of_isDigit {c : Char} (h : c.isDigit) : isBlank c = false := by
  have h' : 48 ≤ c.toNat ∧ c.toNat ≤ 57 := by
    simpa [Char.isDigit, UInt32.le_iff_toNat_le] using h
  simp [isBlank, Text.blankRanges]
  omega

theorem isBlank_of_isNumeralChar {c : Char} (h : isNumeralChar c) : isBlank c = false := by
  simp only [isNumeralChar, Bool.or_eq_true, beq_iff_eq] at h
  rcases h with ((((h | rfl) | rfl) | rfl) | rfl) | rfl
  · exact isBlank_of_isDigit h
  all_goals decide

theorem isNumeralChar_of_isDigit {c : Char} (h : c.isDigit) : isNumeralChar c := by
  simp [isNumeralChar, h]

theorem splitSign_chars {cs : List Char} (h : ∀ c ∈ (splitSign cs).2, isNumeralChar c) :
    ∀ c ∈ cs, isNumeralChar c := by
  unfold splitSign at h
  split at h
  · simpa [isNumeralChar] using h
  · simpa [isNumeralChar] using h
  · exact h

theorem exponent?_chars {cs : List Char} {e : Int} (h : exponent? cs = some e) :
    ∀ c ∈ cs, isNumeralChar c := by
  cases cs with
  | nil => simp
  | cons c rest =>
    simp only [exponent?] at h
    split at h
    · rename_i hc
      split at h
      · cases h
      · rename_i hd
        have hc' : isNumeralChar c := by
          simp only [Bool.or_eq_true, beq_iff_eq] at hc
          rcases hc with rfl | rfl <;> rfl
        simp only [Bool.or_eq_true, Bool.not_eq_true', not_or, Bool.not_eq_false, List.all_eq_true] at hd
        have hrest := splitSign_chars fun d hd' => isNumeralChar_of_isDigit (hd.2 d hd')
        simpa [hc'] using hrest
    · cases h

theorem spanDigits_chars {cs : List Char} (h : ∀ c ∈ (spanDigits cs).2, isNumeralChar c) :
    ∀ c ∈ cs, isNumeralChar c := by
  intro c hc
  rw [← List.takeWhile_append_dropWhile (p := Char.isDigit) (l := cs), List.mem_append] at hc
  rcases hc with hc | hc
  · exact isNumeralChar_of_isDigit (List.mem_takeWhile_imp hc)
  · exact h c hc

/-- What is left after the digits and a point is an exponent. -/
theorem digits?_chars {negative : Bool} {cs : List Char} {x : Float} (h : digits? negative cs = some x) :
    ∀ c ∈ cs, isNumeralChar c := by
  simp only [digits?] at h
  refine spanDigits_chars ?_
  generalize (spanDigits cs).2 = rest at h ⊢
  split at h <;> split at h
  · cases h
  · obtain ⟨e, he, -⟩ := Option.map_eq_some_iff.mp h
    simpa [isNumeralChar] using spanDigits_chars (exponent?_chars he)
  · cases h
  · obtain ⟨e, he, -⟩ := Option.map_eq_some_iff.mp h
    exact exponent?_chars he

/-- What starts with a digit is no word. -/
theorem word?_of_isDigit {c : Char} {cs : List Char} (hc : c.isDigit) : word? (c :: cs) = none := by
  have hd := (Char.isDigit_iff_toNat.mp hc).2
  have hlow : c.toLower = c := by
    unfold Char.toLower
    refine dif_neg fun hu => ?_
    exact absurd (Nat.le_trans (UInt32.le_iff_toNat_le.mp hu.1) hd) (by decide)
  have hne : c ≠ 'i' ∧ c ≠ 'n' := by constructor <;> rintro rfl <;> simp at hc
  simp [word?, hlow, ← String.toList_inj, hne]

/-- A numeral that starts with a digit holds no blanks. -/
theorem not_isBlank_of_real? {c : Char} {cs : List Char} {x : Float} (hc : c.isDigit)
    (h : real? (c :: cs) = some x) : ∀ d ∈ c :: cs, isBlank d = false := by
  have hs : splitSign (c :: cs) = (false, c :: cs) := by
    unfold splitSign
    split
    · rename_i heq; cases heq; simp at hc
    · rename_i heq; cases heq; simp at hc
    · rfl
  rw [real?, hs] at h
  simp only [word?_of_isDigit hc] at h
  exact fun d hd => isBlank_of_isNumeralChar (digits?_chars h d hd)

end Stencil.Decimal

namespace Stencil.Template

open Text (isBlank trim)

/-- A numeral that is read as it stands: a digit and what follows it up to the end of the
argument, which together are a number. -/
inductive TightNumeral : List Char → Float → Prop
  | mk {c : Char} {cs : List Char} {x : Float} :
      c.isDigit → (∀ d ∈ cs, endsNumber d = false) → Decimal.real? (c :: cs) = some x →
      TightNumeral (c :: cs) x

theorem trim_cons {c : Char} {cs : List Char} (hc : isBlank c = false) :
    trim (c :: cs) = (c :: cs).rdropWhile isBlank := by
  simp only [trim, List.dropWhile_cons, hc, Bool.false_eq_true, if_false]
  rfl

/-- Cutting blanks off behind a first character that is none leaves it in its place. -/
theorem exists_trim_cons {c : Char} {cs : List Char} (hc : isBlank c = false) :
    ∃ ds, trim (c :: cs) = c :: ds ∧ ds <+: cs := by
  have hp := List.rdropWhile_prefix isBlank (c :: cs)
  rw [← trim_cons hc] at hp
  cases ht : trim (c :: cs) with
  | nil =>
    rw [trim_cons hc, List.rdropWhile_eq_nil_iff] at ht
    have := ht c List.mem_cons_self
    simp [hc] at this
  | cons d ds =>
    rw [ht, List.cons_prefix_cons] at hp
    exact ⟨ds, by rw [hp.1], hp.2⟩

/-- Every number among arguments is written by a numeral without blanks. -/
theorem Numeral.exists_tight {cs : List Char} {x : Float} (h : Numeral cs x) :
    ∃ ds, TightNumeral ds x := by
  obtain @⟨c, cs, x, hc, hcs, hx⟩ := h
  obtain ⟨ds, ht, hp⟩ := @exists_trim_cons c cs (Decimal.isBlank_of_isDigit hc)
  rw [ht] at hx
  exact ⟨c :: ds, .mk hc (fun d hd => hcs d (hp.subset hd)) hx⟩

theorem TightNumeral.numeral {cs : List Char} {x : Float} (h : TightNumeral cs x) : Numeral cs x := by
  obtain @⟨c, cs, x, hc, hcs, hx⟩ := h
  have hb := Decimal.not_isBlank_of_real? hc hx
  refine .mk hc hcs ?_
  rwa [trim_cons (hb c List.mem_cons_self), List.rdropWhile_eq_self_iff.mpr fun hl => ?_]
  simp [hb _ (List.getLast_mem hl)]

end Stencil.Template

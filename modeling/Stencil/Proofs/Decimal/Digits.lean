import Stencil.Decimal.Numeral

/-!
# Digits of whole numbers

A whole number is written by its digits, or with a plus sign or zeros in front. Reading undoes
writing, and writing undoes reading if there is neither.

* `written_of_natural?`: how a whole number is written;
* `toDigits_append`: digits behind those of a number go on to write a larger one;
* `toDigits_natOfDigits_iff`: numerals that are the digits of their number.
-/

namespace Stencil.Decimal

variable {cs : List Char} {c : Char} {n : Nat}

theorem digit_lt_ten (hc : c.isDigit = true) : c.toNat - '0'.toNat < 10 := by
  have hrange : 48 ≤ c.toNat ∧ c.toNat ≤ 57 := Char.isDigit_iff_toNat.1 hc
  show c.toNat - 48 < 10
  omega

theorem digitChar_digit (hc : c.isDigit = true) : (c.toNat - '0'.toNat).digitChar = c := by
  have hrange : 48 ≤ c.toNat ∧ c.toNat ≤ 57 := Char.isDigit_iff_toNat.1 hc
  apply Char.toNat_inj.1
  rw [Nat.toNat_digitChar_of_lt_ten (digit_lt_ten hc)]
  show 48 + (c.toNat - 48) = c.toNat
  omega

/-- A whole number is written by digits, after a plus sign if there is one. -/
theorem written_of_natural? (h : natural? cs = some n) :
    ∃ ds, (cs = ds ∨ cs = '+' :: ds) ∧ ds ≠ [] ∧ (∀ c ∈ ds, c.isDigit = true) ∧ natOfDigits ds = n := by
  have hdigits {ds : List Char}
      (h : (if ds.isEmpty || !ds.all Char.isDigit then none else some (natOfDigits ds)) = some n) :
      ds ≠ [] ∧ (∀ c ∈ ds, c.isDigit = true) ∧ natOfDigits ds = n := by
    split at h
    · cases h
    · simp_all
  simp only [natural?] at h
  split at h
  · exact ⟨_, .inr rfl, hdigits h⟩
  · exact ⟨_, .inl rfl, hdigits h⟩

/-- Digits behind those of a number are the last ones of the number that they go on to write. -/
theorem toDigits_append (hn : 0 < n) (hd : ∀ c ∈ cs, c.isDigit = true) :
    Nat.toDigits 10 n ++ cs =
      Nat.toDigits 10 (cs.foldl (fun n c => 10 * n + (c.toNat - '0'.toNat)) n) := by
  induction cs generalizing n with
  | nil => exact List.append_nil _
  | cons c cs ih =>
    obtain ⟨hc, hcs⟩ := List.forall_mem_cons.1 hd
    have hlt := digit_lt_ten hc
    have hstep : Nat.toDigits 10 n ++ [c] = Nat.toDigits 10 (10 * n + (c.toNat - '0'.toNat)) := by
      rw [← Nat.toDigits_append_toDigits (by decide) hn hlt, Nat.toDigits_of_lt_base hlt,
        digitChar_digit hc]
    calc Nat.toDigits 10 n ++ c :: cs
        = Nat.toDigits 10 n ++ [c] ++ cs := by rw [List.append_assoc, List.singleton_append]
      _ = _ := by rw [hstep, List.foldl_cons, ih (by omega) hcs]

/-- The digits of a number begin with a zero only if it is zero. -/
theorem head?_toDigits (hn : 0 < n) : (Nat.toDigits 10 n).head? ≠ some '0' := by
  induction n using Nat.strongRecOn with
  | ind n ih =>
    rcases Nat.lt_or_ge n 10 with hlt | hge
    · rw [Nat.toDigits_of_lt_base hlt]
      simp
      omega
    · have hfront := ih (n / 10) (by omega) (by omega)
      obtain ⟨d, ds, hds⟩ := List.exists_cons_of_ne_nil (Nat.toDigits_ne_nil (n := n / 10) (b := 10))
      rw [Nat.toDigits_of_base_le (by decide) hge, hds]
      rw [hds] at hfront
      exact hfront

/-- A numeral is the digits of its number, unless it is longer and begins with a zero. -/
theorem toDigits_natOfDigits_iff (hne : cs ≠ []) (hd : ∀ c ∈ cs, c.isDigit = true) :
    Nat.toDigits 10 (natOfDigits cs) = cs ↔ ¬ (cs.head? = some '0' ∧ 1 < cs.length) := by
  obtain ⟨c, rest, rfl⟩ := List.exists_cons_of_ne_nil hne
  obtain ⟨hc, hrest⟩ := List.forall_mem_cons.1 hd
  by_cases hzero : c = '0'
  · subst hzero
    cases rest with
    | nil => exact iff_of_true (by decide) (by simp)
    | cons d rest =>
      refine iff_of_false (fun heq => ?_) (not_not_intro ⟨rfl, by simp⟩)
      rcases Nat.eq_zero_or_pos (natOfDigits ('0' :: d :: rest)) with hn | hn
      · rw [hn, Nat.toDigits_zero] at heq
        cases heq
      · exact head?_toDigits hn (by rw [heq]; rfl)
  · have hdigit := digitChar_digit hc
    have hpos : 0 < c.toNat - '0'.toNat := by
      refine Nat.pos_of_ne_zero fun h => hzero ?_
      rw [← hdigit, h]
      rfl
    have hnum : Nat.toDigits 10 (natOfDigits (c :: rest)) = c :: rest := by
      rw [natOfDigits, List.foldl_cons, Nat.mul_zero, Nat.zero_add, ← toDigits_append hpos hrest,
        Nat.toDigits_of_lt_base (digit_lt_ten hc), hdigit, List.singleton_append]
    exact iff_of_true hnum fun h => hzero (Option.some.inj h.1)

end Stencil.Decimal

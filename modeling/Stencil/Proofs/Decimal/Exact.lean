import Stencil.Decimal.Layout
import Stencil.Proofs.Decimal.Bits

/-!
# Exact values of numbers

The value of a finite double-precision number is a rational. A number equals just those
that have its value, and the number made of a whole number has the value that is nearest
to it, halves going to the even mantissa: no other number lies nearer. So whole numbers
that are the value of a number are kept, and output shows all their digits.

* `Magnitude.value?`, `Magnitude.beq_iff_value?`: exact values, and equality by them;
* `nearest`, `value?_ofWhole`, `isNearest_nearest`: what a whole number is rounded to;
* `ofWhole_beq_iff`, `nearest_of_value?`: whole values are not rounded;
* `write_shown_of_value?`: their text.
-/

namespace Stencil.Decimal

namespace Magnitude

/-! ## Exact values -/

/-- The exact value of what is finite. -/
def value? : Magnitude → Option ℚ
  | finite negative m e => some (signed negative m * 2 ^ e)
  | _ => none

/-- A mantissa has at most fifty-three bits, and as many as that above the least exponent. -/
def Canonical : Magnitude → Prop
  | finite _ m e => m < 2 ^ 53 ∧ -1074 ≤ e ∧ (-1074 < e → 2 ^ 52 ≤ m)
  | _ => True

theorem canonical_ofFloat (x : Float) : (ofFloat x).Canonical := by
  rw [ofFloat, ofBits]
  simp only [Nat.pow_eq]
  split
  · split <;> trivial
  · split
    · exact ⟨by omega, le_rfl, fun h => absurd h (lt_irrefl _)⟩
    · exact ⟨by omega, by omega, fun _ => by omega⟩

theorem signed_eq_zero_iff (negative : Bool) (n : Nat) : signed negative n = 0 ↔ n = 0 := by
  cases negative <;> simp [signed]

theorem abs_signed (negative : Bool) (n : Nat) : |signed negative n| = n := by
  cases negative <;> simp [signed]

theorem abs_value (negative : Bool) (m : Nat) (e : Int) :
    |(signed negative m : ℚ) * 2 ^ e| = m * 2 ^ e := by
  rw [abs_mul, abs_of_pos (a := (2 : ℚ) ^ e) (zpow_pos two_pos e), ← Int.cast_abs, abs_signed,
    Int.cast_natCast]

theorem value?_eq_zero_iff (a : Magnitude) : a.value? = some 0 ↔ a.isZero = true := by
  cases a with
  | finite s m e =>
    have hpos : (2 : ℚ) ^ e ≠ 0 := zpow_ne_zero e two_ne_zero
    rw [value?, Option.some.injEq, mul_eq_zero, or_iff_left hpos, Int.cast_eq_zero,
      signed_eq_zero_iff]
    cases m <;> simp [isZero]
  | _ => simp [value?, isZero]

/-- Of two forms of a value, one with all its mantissa bits has the smaller exponent. -/
theorem le_of_value_eq {m m' : Nat} {e e' : Int} (hm : m < 2 ^ 53) (he : -1074 ≤ e)
    (hm' : -1074 < e' → 2 ^ 52 ≤ m') (h : (m : ℚ) * 2 ^ e = m' * 2 ^ e') : e' ≤ e := by
  by_contra hlt
  obtain ⟨k, rfl⟩ : ∃ k : Nat, e' = e + (k + 1) := ⟨(e' - e - 1).toNat, by omega⟩
  have hshift : m = m' * 2 ^ (k + 1) := by
    rw [zpow_add₀ two_ne_zero, mul_comm ((2 : ℚ) ^ e), ← mul_assoc] at h
    exact_mod_cast mul_right_cancel₀ (zpow_ne_zero e two_ne_zero) h
  have hlong := Nat.mul_le_mul (hm' (by omega)) (Nat.pow_le_pow_right two_pos (Nat.le_add_left 1 k))
  omega

/-- The value determines a number, but for the sign of zero. -/
theorem eq_or_isZero_iff {a b : Magnitude} (ha : a.Canonical) (hb : b.Canonical) {q : ℚ}
    (h : a.value? = some q) :
    a = b ∨ a.isZero = true ∧ b.isZero = true ↔ b.value? = some q := by
  constructor
  · rintro (rfl | ⟨hza, hzb⟩)
    · exact h
    · rw [(value?_eq_zero_iff b).2 hzb, ← h, (value?_eq_zero_iff a).2 hza]
  · intro hb'
    by_cases hq : q = 0
    · subst hq
      exact .inr ⟨(value?_eq_zero_iff a).1 h, (value?_eq_zero_iff b).1 hb'⟩
    · left
      cases a with
      | nan | infinite => cases h
      | finite s m e =>
        cases b with
        | nan | infinite => cases hb'
        | finite s' m' e' =>
          have hv : (signed s m : ℚ) * 2 ^ e = signed s' m' * 2 ^ e' :=
            (Option.some.inj h).trans (Option.some.inj hb').symm
          have habs : (m : ℚ) * 2 ^ e = m' * 2 ^ e' := by rw [← abs_value s, ← abs_value s', hv]
          obtain rfl : e = e' := le_antisymm (le_of_value_eq hb.1 hb.2.1 ha.2.2 habs.symm)
            (le_of_value_eq ha.1 ha.2.1 hb.2.2 habs)
          have hsigned : signed s m = signed s' m' := by
            exact_mod_cast mul_right_cancel₀ (zpow_ne_zero e two_ne_zero) hv
          obtain rfl : m = m' := by
            exact_mod_cast mul_right_cancel₀ (zpow_ne_zero e two_ne_zero) habs
          have hm : m ≠ 0 := by
            rintro rfl
            exact hq (by rw [← Option.some.inj h, (signed_eq_zero_iff s 0).2 rfl]; simp)
          have hs : s = s' := by
            cases s <;> cases s' <;> simp [signed] at hsigned ⊢ <;> omega
          rw [hs]

/-- A finite number equals those that have its value. -/
theorem beq_iff_value? {x : Float} {q : ℚ} (h : (ofFloat x).value? = some q) (y : Float) :
    (x == y) = true ↔ (ofFloat y).value? = some q := by
  have hx : ofFloat x ≠ nan := fun hn => by rw [hn] at h; cases h
  rw [beq_iff, eq_or_isZero_iff (canonical_ofFloat x) (canonical_ofFloat y) h]
  exact and_iff_right hx

/-! ## Packed numbers -/

theorem log2_le_of_le {m k : Nat} (h : m < 2 ^ (k + 1)) : m.log2 ≤ k := by
  rcases Nat.eq_zero_or_pos m with rfl | hm
  · exact Nat.zero_le k
  · exact Nat.lt_succ_iff.1 ((Nat.log2_lt hm.ne').2 h)

theorem pow_log2_dvd {m : Nat} (hm : m ≤ 2 ^ 53) : 2 ^ m.log2 ∣ m * 2 ^ 52 := by
  rcases hm.lt_or_eq with h | rfl
  · exact (Nat.pow_dvd_pow 2 (log2_le_of_le h)).mul_left m
  · rw [Nat.log2_two_pow]
    exact Dvd.intro _ rfl

/-- A packed number has its mantissa shifted to fifty-three bits. -/
theorem ofFloat_pack (negative : Bool) {m : Nat} {e : Int} (hm : m ≠ 0)
    (he : -1022 ≤ e + m.log2) (he' : e + m.log2 ≤ 1023) :
    ofFloat (pack negative m e) = .finite negative (m * 2 ^ 52 / 2 ^ m.log2) (e + m.log2 - 52) := by
  have hlow : 2 ^ 52 ≤ m * 2 ^ 52 / 2 ^ m.log2 := by
    rw [Nat.le_div_iff_mul_le (Nat.two_pow_pos _), mul_comm]
    exact Nat.mul_le_mul_right _ (Nat.log2_self_le hm)
  have hhigh : m * 2 ^ 52 / 2 ^ m.log2 < 2 ^ 53 := by
    have hlog := Nat.lt_log2_self (n := m)
    rw [Nat.pow_succ] at hlog
    rw [Nat.div_lt_iff_lt_mul (Nat.two_pow_pos _)]
    omega
  obtain ⟨scale, hscale⟩ : ∃ scale : Nat, e + m.log2 + 1023 = scale :=
    ⟨_, (Int.toNat_of_nonneg (by omega)).symm⟩
  have hsign : (if negative then 2 ^ 63 else 0) = negative.toNat * 2 ^ 63 := by cases negative <;> rfl
  have hle : negative.toNat ≤ 1 := Bool.toNat_le _
  rw [pack, if_neg hm, ofFloat_ofBits, ofBits]
  simp only [Nat.pow_eq, hscale, Int.toNat_natCast, hsign]
  generalize m * 2 ^ 52 / 2 ^ m.log2 = k at *
  have hbits : (UInt64.ofNat (negative.toNat * 2 ^ 63 + scale * 2 ^ 52 + (k - 2 ^ 52))).toNat =
      negative.toNat * 2 ^ 63 + scale * 2 ^ 52 + (k - 2 ^ 52) :=
    UInt64.toNat_ofNat_of_lt' (by simp only [UInt64.size]; omega)
  have hneg : decide (2 ^ 63 ≤ negative.toNat * 2 ^ 63 + scale * 2 ^ 52 + (k - 2 ^ 52)) = negative := by
    cases negative <;>
      simp only [Bool.toNat_true, Bool.toNat_false, decide_eq_true_eq, decide_eq_false_iff_not] <;> omega
  rw [hbits, hneg, if_neg (by omega), if_neg (by omega), Magnitude.finite.injEq]
  exact ⟨rfl, by omega, by omega⟩

theorem ofFloat_pack_zero (negative : Bool) (e : Int) :
    ofFloat (pack negative 0 e) = .finite negative 0 (-1074) := by
  rw [pack, if_pos rfl, ofFloat_ofBits]
  cases negative <;> decide

/-- Packing is exact. -/
theorem value?_pack (negative : Bool) {m : Nat} {e : Int} (hm : m ≤ 2 ^ 53)
    (he : -1022 ≤ e) (he' : e + m.log2 ≤ 1023) :
    (ofFloat (pack negative m e)).value? = some ((signed negative m : ℚ) * 2 ^ e) := by
  by_cases h0 : m = 0
  · subst h0
    rw [ofFloat_pack_zero, value?, (signed_eq_zero_iff negative 0).2 rfl]
    simp
  · have hmantissa : ((m * 2 ^ 52 / 2 ^ m.log2 : Nat) : ℚ) = m * 2 ^ 52 / 2 ^ m.log2 := by
      rw [Nat.cast_div (pow_log2_dvd hm) (by positivity)]
      push_cast
      rfl
    have hexponent : (2 : ℚ) ^ (e + m.log2 - 52) = 2 ^ e * 2 ^ m.log2 / 2 ^ 52 := by
      rw [zpow_sub₀ two_ne_zero, zpow_add₀ two_ne_zero]
      norm_cast
    have hvalue : ((m * 2 ^ 52 / 2 ^ m.log2 : Nat) : ℚ) * 2 ^ (e + m.log2 - 52) = m * 2 ^ e := by
      rw [hmantissa, hexponent]
      field_simp
    rw [ofFloat_pack negative h0 (by omega) he', value?, Option.some.injEq]
    cases negative with
    | false => exact hvalue
    | true =>
      simp only [signed, if_true, Int.cast_neg, Int.cast_natCast, neg_mul, neg_inj]
      exact hvalue

end Magnitude

open Magnitude

/-! ## The number nearest to a whole number -/

/-- The distance of neighbours among the numbers about as large as a whole number. -/
def spacing (n : Nat) : Nat := 2 ^ (n.log2 - 52)

/-- The multiple of the spacing that is nearest to a whole number, halves to the even one. -/
def nearest (n : Int) : Int :=
  signed (n < 0) (roundHalfEven n.natAbs (spacing n.natAbs) * spacing n.natAbs)

theorem spacing_pos (n : Nat) : 0 < spacing n := Nat.two_pow_pos _

theorem roundHalfEven_bounds (num den : Nat) :
    num / den ≤ roundHalfEven num den ∧ roundHalfEven num den ≤ num / den + 1 := by
  rw [roundHalfEven]
  split <;> omega

theorem roundHalfEven_of_dvd {num den : Nat} (hpos : 0 < den) (h : den ∣ num) :
    roundHalfEven num den = num / den := by
  rw [roundHalfEven, Nat.mod_eq_zero_of_dvd h]
  simp [hpos]

/-- No multiple of the spacing is nearer. -/
theorem roundHalfEven_le (num : Nat) {den : Nat} (hpos : 0 < den) (k : Nat) :
    |((roundHalfEven num den * den : Nat) : ℤ) - num| ≤ |((k * den : Nat) : ℤ) - num| := by
  have hdiv := Nat.div_add_mod' num den
  have hmod := Nat.mod_lt num hpos
  have hk : k * den ≤ num / den * den ∨ num / den * den + den ≤ k * den := by
    rcases Nat.lt_or_ge k (num / den + 1) with h | h
    · exact .inl (Nat.mul_le_mul_right den (Nat.lt_succ_iff.1 h))
    · exact .inr (by rw [← Nat.succ_mul]; exact Nat.mul_le_mul_right den h)
  rw [roundHalfEven, Int.abs_eq_natAbs, Int.abs_eq_natAbs]
  generalize k * den = x at hk
  split
  · rename_i hc
    simp only [Bool.or_eq_true, Bool.and_eq_true, decide_eq_true_eq, beq_iff_eq] at hc
    generalize num / den * den = y at *
    omega
  · rename_i hc
    simp only [Bool.or_eq_true, Bool.and_eq_true, decide_eq_true_eq, beq_iff_eq] at hc
    rw [Nat.succ_mul]
    generalize num / den * den = y at *
    omega

theorem roundHalfEven_spacing_le (n : Nat) : roundHalfEven n (spacing n) ≤ 2 ^ 53 := by
  have hlt : n / spacing n < 2 ^ 53 := by
    rw [spacing, Nat.div_lt_iff_lt_mul (Nat.two_pow_pos _), ← Nat.pow_add]
    exact Nat.lt_log2_self.trans_le (Nat.pow_le_pow_right two_pos (by omega))
  exact (roundHalfEven_bounds _ _).2.trans hlt

/-- The number made of a whole number of at most 128 bits has the nearest one for its value. -/
theorem value?_ofWhole {n : Int} (h : n.natAbs < 2 ^ 128) :
    (ofFloat (ofWhole n)).value? = some (nearest n : ℚ) := by
  have hlog : n.natAbs.log2 ≤ 127 := log2_le_of_le h
  have hround := roundHalfEven_spacing_le n.natAbs
  have hlead : (roundHalfEven n.natAbs (spacing n.natAbs)).log2 ≤ 53 :=
    log2_le_of_le (hround.trans_lt (by decide))
  have hvalue := value?_pack (n < 0) hround (e := (n.natAbs.log2 - 52 : Nat)) (by omega) (by omega)
  refine hvalue.trans ?_
  rw [nearest, zpow_natCast]
  cases decide (n < 0) <;> simp [signed, spacing]

theorem nearest_eq_zero_iff (n : Int) : nearest n = 0 ↔ n = 0 := by
  rw [nearest, signed_eq_zero_iff, Nat.mul_eq_zero, or_iff_left (spacing_pos _).ne',
    ← Int.natAbs_eq_zero]
  constructor
  · intro h
    by_contra hn
    have hle := (roundHalfEven_bounds n.natAbs (spacing n.natAbs)).1
    have hspacing : spacing n.natAbs ≤ n.natAbs :=
      (Nat.pow_le_pow_right two_pos (Nat.sub_le _ _)).trans (Nat.log2_self_le hn)
    have := Nat.div_pos hspacing (spacing_pos _)
    omega
  · intro h
    rw [h]
    rfl

/-- A number as large as a power of two has an exponent on the grid of that power. -/
theorem le_exponent {m g : Nat} {e : Int} (hm : m < 2 ^ 53) (h : (2 : ℚ) ^ (g + 52) ≤ m * 2 ^ e) :
    g ≤ e := by
  by_contra hlt
  have hpow : (2 : ℚ) ^ 53 * 2 ^ ((g : Int) - 1) = 2 ^ (g + 52) := by
    rw [← zpow_natCast, ← zpow_natCast, ← zpow_add₀ two_ne_zero]
    congr 1
    push_cast
    omega
  have hlow : (m : ℚ) * 2 ^ e < 2 ^ (g + 52) := by
    calc (m : ℚ) * 2 ^ e ≤ m * 2 ^ ((g : Int) - 1) :=
          mul_le_mul_of_nonneg_left (zpow_le_zpow_right₀ one_le_two (by omega)) m.cast_nonneg
      _ < 2 ^ 53 * 2 ^ ((g : Int) - 1) :=
          mul_lt_mul_of_pos_right (by exact_mod_cast hm) (zpow_pos two_pos _)
      _ = 2 ^ (g + 52) := hpow
  exact absurd h hlow.not_ge

/-- So it is a whole number on that grid. -/
theorem exists_multiple {m g : Nat} {e : Int} (hm : m < 2 ^ 53)
    (h : (2 : ℚ) ^ (g + 52) ≤ m * 2 ^ e) : ∃ k : Nat, (m : ℚ) * 2 ^ e = ((k * 2 ^ g : Nat) : ℚ) := by
  have hge := le_exponent hm h
  obtain ⟨d, rfl⟩ : ∃ d : Nat, e = g + d := ⟨(e - g).toNat, by omega⟩
  refine ⟨m * 2 ^ d, ?_⟩
  rw [zpow_add₀ two_ne_zero, zpow_natCast, zpow_natCast]
  push_cast
  ring

theorem abs_nearest (n : Int) :
    |nearest n| = roundHalfEven n.natAbs (spacing n.natAbs) * spacing n.natAbs := by
  rw [nearest, abs_signed]
  push_cast
  rfl

theorem natAbs_nearest_le {n : Int} {k : Nat} (h : n.natAbs < 2 ^ (k + 53)) :
    (nearest n).natAbs ≤ 2 ^ (k + 53) := by
  have hlog : n.natAbs.log2 - 52 ≤ k := Nat.sub_le_of_le_add (log2_le_of_le h)
  have hnearest : (nearest n).natAbs =
      roundHalfEven n.natAbs (spacing n.natAbs) * spacing n.natAbs := by
    have := abs_nearest n
    rw [Int.abs_eq_natAbs] at this
    exact_mod_cast this
  rw [hnearest, Nat.add_comm, Nat.pow_add]
  exact Nat.mul_le_mul (roundHalfEven_spacing_le _) (Nat.pow_le_pow_right two_pos hlog)

/-- Rounding keeps the side of zero, so that distances are those of the absolute values. -/
theorem abs_nearest_sub (n : Int) : |nearest n - n| = |(|nearest n| - |n|)| := by
  have h := abs_nearest n
  rw [nearest] at h ⊢
  generalize roundHalfEven n.natAbs (spacing n.natAbs) * spacing n.natAbs = k at *
  simp only [Int.abs_eq_natAbs, signed, decide_eq_true_eq]
  split <;> omega

/-- No multiple of the spacing is nearer, of either sign. -/
theorem nearest_le_multiple (n : Int) (k : Nat) :
    |(nearest n - n : ℚ)| ≤ |(((k * spacing n.natAbs : Nat) : ℚ) - |(n : ℚ)|)| := by
  have h := roundHalfEven_le n.natAbs (spacing_pos n.natAbs) k
  rw [Nat.cast_mul, ← abs_nearest, Int.natCast_natAbs, ← abs_nearest_sub] at h
  exact_mod_cast h

theorem nearest_of_dvd {n : Int} (h : spacing n.natAbs ∣ n.natAbs) : nearest n = n := by
  rw [nearest, roundHalfEven_of_dvd (spacing_pos _) h, Nat.div_mul_cancel h, signed]
  simp only [decide_eq_true_eq]
  split <;> omega

/-- Up to fifty-three bits the numbers lie one apart. -/
theorem spacing_eq_one {n : Nat} (h : n < 2 ^ 53) : spacing n = 1 := by
  rw [spacing, Nat.sub_eq_zero_of_le (log2_le_of_le h), Nat.pow_zero]

theorem exists_multiple_ofFloat {x : Float} {q : ℚ} {g : Nat} (h : (ofFloat x).value? = some q)
    (hg : (2 : ℚ) ^ (g + 52) ≤ |q|) : ∃ k : Nat, |q| = ((k * 2 ^ g : Nat) : ℚ) := by
  have hcanonical := canonical_ofFloat x
  cases hx : ofFloat x with
  | nan | infinite => rw [hx] at h; cases h
  | finite s m e =>
    rw [hx] at h hcanonical
    rw [← Option.some.inj h, abs_value] at hg ⊢
    exact exists_multiple hcanonical.1 hg

/-- No number has a value that is nearer. -/
theorem nearest_le (n : Int) {x : Float} {q : ℚ} (h : (ofFloat x).value? = some q) :
    |(nearest n - n : ℚ)| ≤ |q - n| := by
  rcases Nat.lt_or_ge n.natAbs (2 ^ 53) with hsmall | hlarge
  · rw [nearest_of_dvd (spacing_eq_one hsmall ▸ one_dvd _), sub_self, abs_zero]
    exact abs_nonneg _
  · refine le_trans ?_ (abs_abs_sub_abs_le_abs_sub q n)
    have hlog : 53 ≤ n.natAbs.log2 := (Nat.le_log2 (by omega)).2 hlarge
    have hlead : (2 : ℚ) ^ (n.natAbs.log2 - 52 + 52) ≤ |(n : ℚ)| := by
      rw [Nat.sub_add_cancel (by omega), ← Int.cast_abs, ← Int.natCast_natAbs]
      exact_mod_cast Nat.log2_self_le (by omega)
    rcases le_or_gt ((2 : ℚ) ^ (n.natAbs.log2 - 52 + 52)) |q| with hq | hq
    · obtain ⟨k, hk⟩ := exists_multiple_ofFloat h hq
      rw [hk]
      exact nearest_le_multiple n k
    · -- What is smaller than all of these is farther away than the least of them.
      have hleast := nearest_le_multiple n (2 ^ 52)
      rw [spacing, ← Nat.pow_add, Nat.add_comm 52, Nat.cast_pow, Nat.cast_ofNat,
        abs_of_nonpos (sub_nonpos.2 hlead)] at hleast
      refine hleast.trans ?_
      rw [neg_sub, abs_of_nonpos (sub_nonpos.2 (hq.le.trans hlead)), neg_sub]
      exact sub_le_sub_left hq.le _

/-- A whole number that is the value of a number, and no value is nearer to another one. -/
def IsNearest (n k : Int) : Prop :=
  (∃ x, (ofFloat x).value? = some (k : ℚ)) ∧
    ∀ x q, (ofFloat x).value? = some q → |(k - n : ℚ)| ≤ |q - n|

theorem isNearest_nearest {n : Int} (h : n.natAbs < 2 ^ 128) : IsNearest n (nearest n) :=
  ⟨⟨ofWhole n, value?_ofWhole h⟩, fun _ _ hx => nearest_le n hx⟩

/-- A whole value of a number is what it is rounded to. -/
theorem nearest_of_value? {n : Int} {x : Float} (h : (ofFloat x).value? = some (n : ℚ)) :
    nearest n = n := by
  have hle := nearest_le n h
  rw [sub_self, abs_zero] at hle
  have := abs_eq_zero.1 (le_antisymm hle (abs_nonneg _))
  exact_mod_cast sub_eq_zero.1 this

/-- The number made of a whole number equals those whose value is the nearest one. -/
theorem ofWhole_beq_iff {n : Int} (hn : n.natAbs < 2 ^ 128) (x : Float) :
    (ofWhole n == x) = true ↔ (ofFloat x).value? = some (nearest n : ℚ) :=
  beq_iff_value? (value?_ofWhole hn) x

/-! ## Whole values -/

theorem floor_eq_of_value_eq {m k : Nat} {e : Int} (h : (m : ℚ) * 2 ^ e = k) :
    floor m e = k ∧ isWhole m e = true := by
  rw [floor, isWhole]
  split
  · rename_i he
    obtain ⟨d, rfl⟩ : ∃ d : Nat, e = d := ⟨e.toNat, (Int.toNat_of_nonneg he).symm⟩
    simp only [zpow_natCast, Int.toNat_natCast, he, decide_true, Bool.true_or, and_true] at *
    exact_mod_cast h
  · rename_i he
    obtain ⟨d, rfl⟩ : ∃ d : Nat, e = -d := ⟨(-e).toNat, by omega⟩
    have hshift : m = k * 2 ^ d := by
      rw [zpow_neg, zpow_natCast, mul_inv_eq_iff_eq_mul₀ (by positivity)] at h
      exact_mod_cast h
    rw [hshift]
    simp

/-- The whole number that a magnitude has for its value. -/
theorem finite_of_value? {a : Magnitude} {n : Int} (h : a.value? = some (n : ℚ)) :
    ∃ s m e, a = .finite s m e ∧ signed s (floor m e) = n ∧ isWhole m e = true := by
  cases a with
  | nan | infinite => cases h
  | finite s m e =>
    have habs : (m : ℚ) * 2 ^ e = n.natAbs := by
      rw [← abs_value s, Option.some.inj h, Nat.cast_natAbs, Int.cast_abs]
    obtain ⟨hfloor, hwhole⟩ := floor_eq_of_value_eq habs
    refine ⟨s, m, e, rfl, ?_, hwhole⟩
    have hv : (signed s m : ℚ) * 2 ^ e = n := Option.some.inj h
    have hsign : (signed s m : ℚ) * 2 ^ e = signed s (floor m e) := by
      rw [hfloor]
      cases s <;> simp [signed, -Nat.cast_natAbs, habs]
    exact_mod_cast hsign.symm.trans hv

theorem toString_signed (negative : Bool) {k : Nat} (hk : k ≠ 0) :
    toString (signed negative k) = (if negative then "-" else "") ++ toString k := by
  obtain ⟨k, rfl⟩ := Nat.exists_eq_succ_of_ne_zero hk
  cases negative with
  | false => exact (String.empty_append).symm
  | true => rfl

theorem floor_zero (e : Int) : floor 0 e = 0 := by
  rw [floor]
  split <;> simp

theorem floor_ne_zero {m : Nat} {e : Int} (hm : m ≠ 0) (h : isWhole m e = true) : floor m e ≠ 0 := by
  rw [floor]
  rw [isWhole, Bool.or_eq_true, decide_eq_true_eq, beq_iff_eq] at h
  split
  · exact Nat.mul_ne_zero hm (Nat.two_pow_pos _).ne'
  · exact (Nat.div_pos (Nat.le_of_dvd (Nat.pos_of_ne_zero hm) (Nat.dvd_of_mod_eq_zero (h.resolve_left ‹_›)))
      (Nat.two_pow_pos _)).ne'

/-- Output shows every digit of a whole value. -/
theorem write_shown_of_value? {x : Float} {n : Int} (h : (ofFloat x).value? = some (n : ℚ))
    (hn : n.natAbs < 10 ^ 21) : Layout.shown.write x = toString n := by
  obtain ⟨s, m, e, hx, rfl, hwhole⟩ := finite_of_value? h
  rw [Layout.write, hx]
  cases m with
  | zero =>
    rw [floor_zero]
    cases s <;> rfl
  | succ m =>
    have habs : (signed s (floor (m + 1) e)).natAbs = floor (m + 1) e := by cases s <;> simp [signed]
    have hdigits : Layout.shown.writeFinite (m + 1) e = toString (floor (m + 1) e) := by
      rw [Layout.writeFinite, hwhole, Bool.true_and, if_pos]
      rw [habs] at hn
      exact decide_eq_true hn
    rw [toString_signed s (floor_ne_zero m.succ_ne_zero hwhole), ← hdigits]
    rfl

end Stencil.Decimal

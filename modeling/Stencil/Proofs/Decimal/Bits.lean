import Mathlib
import Stencil.Decimal.Binary

/-!
# Bits of double-precision numbers

A number is a bit pattern, and numbers are compared by the sign, the exponent and the fraction
that are unpacked from it. Magnitudes take the same three out of a pattern by arithmetic of
whole numbers. Here the two are brought together: a number unpacks to its magnitude, a pattern
that is made into a number stands for what it did before, and numbers are equal when their
magnitudes are.

* `Magnitude.unpack_toModel`: a number unpacks to its magnitude;
* `Magnitude.ofFloat_ofBits`: what a number stands for that is made of a bit pattern;
* `Magnitude.beq_iff`: equality of numbers.
-/

namespace Stencil.Decimal

open Float.Model (UnpackedFloat Format)
open Float.Model.UnpackedFloat (Sign unpackMantissa unpackExponent unpackSign isNaNBits packedNaN)

/-! ## Fields -/

theorem toNat_unpackMantissa (b : UInt64) :
    (@unpackMantissa .binary64 b.toBitVec).toNat = b.toNat % 2 ^ 52 := by
  simp [unpackMantissa, BitVec.extractLsb, BitVec.extractLsb'_toNat]

theorem toNat_unpackExponent (b : UInt64) :
    (@unpackExponent .binary64 b.toBitVec).toNat = b.toNat / 2 ^ 52 % 2 ^ 11 := by
  simp [unpackExponent, BitVec.extractLsb, BitVec.extractLsb'_toNat, Nat.shiftRight_eq_div_pow]

theorem toNat_unpackSign (b : UInt64) :
    (@unpackSign .binary64 b.toBitVec).toNat = b.toNat / 2 ^ 63 := by
  have := b.toNat_lt
  simp [unpackSign, BitVec.extractLsb, BitVec.extractLsb'_toNat, Nat.shiftRight_eq_div_pow]
  omega

/-- The hidden bit stands before the fraction. -/
theorem toNat_hidden_append (f : BitVec 52) : (1#1 ++ f).toNat = 2 ^ 52 + f.toNat := by
  rw [BitVec.toNat_append, ← Nat.shiftLeft_add_eq_or_of_lt f.isLt]
  rfl

namespace Magnitude

/-! ## Unpacking -/

/-- A sign as it is unpacked. -/
def sign (negative : Bool) : Sign := if negative then .negative else .positive

theorem sign_injective {s t : Bool} (h : sign s = sign t) : s = t := by
  revert h
  cases s <;> cases t <;> simp [sign]

/-- The form that a number with this magnitude unpacks to. -/
def unpacked : Magnitude → UnpackedFloat
  | nan => .notANumber
  | infinite negative => .infinity (sign negative)
  | finite negative m e => if h : 0 < m then .finite (sign negative) m e h else .zero (sign negative)

/-- Zero, of either sign. -/
def isZero : Magnitude → Bool
  | finite _ 0 _ => true
  | _ => false

theorem ofBitVec_unpackSign (b : UInt64) :
    Sign.ofBitVec (@unpackSign .binary64 b.toBitVec) = sign (decide (2 ^ 63 ≤ b.toNat)) := by
  have hb := b.toNat_lt
  have hzero : @unpackSign .binary64 b.toBitVec = 0#1 ↔ ¬ 2 ^ 63 ≤ b.toNat := by
    rw [← BitVec.toNat_inj, toNat_unpackSign, BitVec.toNat_ofNat]
    omega
  rw [Sign.ofBitVec, sign]
  split <;> simp_all

theorem unpack_toBitVec (b : UInt64) :
    UnpackedFloat.unpack .binary64 b.toBitVec = (ofBits b).unpacked := by
  have hmantissa := toNat_unpackMantissa b
  have hexponent := toNat_unpackExponent b
  have hbias : (Format.binary64.exponentBias : Int) = 1023 := rfl
  have hones : (-1#11).toNat = 2 ^ 11 - 1 := rfl
  rw [UnpackedFloat.unpack, ofBits, ofBitVec_unpackSign]
  simp only [← BitVec.toNat_inj, toNat_hidden_append, hmantissa, hexponent, hbias, hones,
    BitVec.toNat_ofNat, Nat.zero_mod, Nat.pow_eq]
  split
  · split <;> rfl
  · split
    · split
      · rw [unpacked, dif_neg (by omega)]
      · rw [unpacked, dif_pos (by omega)]
        congr
        omega
    · rw [unpacked, dif_pos (by omega)]
      congr

/-- A number unpacks to its magnitude. -/
theorem unpack_toModel (x : Float) : x.toModel.unpack = (ofFloat x).unpacked := unpack_toBitVec x.toBits

/-! ## Numbers made of patterns -/

theorem isNaNBits_iff (b : UInt64) : @isNaNBits .binary64 b.toBitVec = true ↔ ofBits b = nan := by
  have hmantissa := toNat_unpackMantissa b
  have hexponent := toNat_unpackExponent b
  have hones : (-1#11).toNat = 2 ^ 11 - 1 := rfl
  rw [isNaNBits, decide_eq_true_eq, ofBits]
  simp only [ne_eq, ← BitVec.toNat_inj, hmantissa, hexponent, hones, BitVec.toNat_ofNat,
    Nat.zero_mod, Nat.pow_eq]
  split
  · split <;> simp_all
  · split <;> simp_all

/-- A number that is made of a bit pattern stands for what the pattern does. -/
theorem ofFloat_ofBits (b : UInt64) : ofFloat (Float.ofBits b) = ofBits b := by
  have hpack : (Float.ofBits b).toBits.toBitVec =
      if @isNaNBits .binary64 b.toBitVec then packedNaN .binary64 else b.toBitVec :=
    @UnpackedFloat.pack_unpack .binary64 b.toBitVec (by decide)
  by_cases h : ofBits b = nan
  · -- All patterns that are not-a-number become one of them.
    rw [if_pos ((isNaNBits_iff b).2 h)] at hpack
    have hbits : (Float.ofBits b).toBits = 0x7ff8000000000000 := UInt64.toBitVec_inj.1 hpack
    rw [ofFloat, hbits, h]
    decide
  · rw [if_neg (mt (isNaNBits_iff b).1 h)] at hpack
    rw [ofFloat, UInt64.toBitVec_inj.1 hpack]

/-! ## Comparison -/

theorem unpacked_eq_notANumber_iff (a : Magnitude) : a.unpacked = .notANumber ↔ a = nan := by
  cases a with
  | finite s m e => rw [unpacked]; split <;> simp
  | _ => simp [unpacked]

theorem unpacked_eq_zero_iff (a : Magnitude) : (∃ s, a.unpacked = .zero s) ↔ a.isZero = true := by
  cases a with
  | finite s m e => cases m <;> simp [unpacked, isZero]
  | _ => simp [unpacked, isZero]

/-- A magnitude that is not zero is known by its unpacked form. -/
theorem eq_of_unpacked_eq {a b : Magnitude} (h : a.unpacked = b.unpacked) (ha : a.isZero = false) :
    a = b := by
  cases a with
  | nan => exact ((unpacked_eq_notANumber_iff b).1 h.symm).symm
  | infinite s =>
    cases b with
    | nan => cases h
    | infinite t => rw [sign_injective (UnpackedFloat.infinity.inj h)]
    | finite t m e => rw [unpacked, unpacked] at h; split at h <;> cases h
  | finite s m e =>
    cases m with
    | zero => cases ha
    | succ m =>
      cases b with
      | nan => cases h
      | infinite t => cases h
      | finite t m' e' =>
        cases m' with
        | zero => cases h
        | succ m' =>
          obtain ⟨hs, hm, he⟩ := UnpackedFloat.finite.inj h
          rw [sign_injective hs, hm, he]

/-- Numbers are equal if they stand for the same, or for zero; not-a-number equals nothing. -/
theorem beq_iff (x y : Float) :
    (x == y) = true ↔
      ofFloat x ≠ nan ∧ (ofFloat x = ofFloat y ∨ (ofFloat x).isZero = true ∧ (ofFloat y).isZero = true) := by
  show (x.toModel.unpack.beq y.toModel.unpack) = true ↔ _
  rw [UnpackedFloat.beq_iff_ne_notANumber_and_eq, unpack_toModel, unpack_toModel]
  constructor
  · rintro ⟨hx, -, h⟩
    refine ⟨mt (unpacked_eq_notANumber_iff _).2 hx, ?_⟩
    rcases h with h | ⟨hu, hv⟩ | ⟨hu, hv⟩
    · cases hz : (ofFloat x).isZero with
      | false => exact .inl (eq_of_unpacked_eq h hz)
      | true => exact .inr ⟨rfl, (unpacked_eq_zero_iff _).1 (h ▸ (unpacked_eq_zero_iff _).2 hz)⟩
    · exact .inr ⟨(unpacked_eq_zero_iff _).1 ⟨_, hu⟩, (unpacked_eq_zero_iff _).1 ⟨_, hv⟩⟩
    · exact .inr ⟨(unpacked_eq_zero_iff _).1 ⟨_, hu⟩, (unpacked_eq_zero_iff _).1 ⟨_, hv⟩⟩
  · rintro ⟨hx, h | ⟨hzx, hzy⟩⟩
    · rw [← h]
      have hu := mt (unpacked_eq_notANumber_iff _).1 hx
      exact ⟨hu, hu, .inl rfl⟩
    · obtain ⟨s, hu⟩ := (unpacked_eq_zero_iff _).2 hzx
      obtain ⟨t, hv⟩ := (unpacked_eq_zero_iff _).2 hzy
      rw [hu, hv]
      cases s <;> cases t <;> simp

end Magnitude

end Stencil.Decimal

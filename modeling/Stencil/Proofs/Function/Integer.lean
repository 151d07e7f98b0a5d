import Stencil.Function.Parameter
import Stencil.Proofs.Decimal.Exact

/-!
# Integers as arguments

A parameter of an integer type takes the bools and the whole numbers in the range of its type,
and delivers them unchanged. A number in double precision is first cut to sixty-four bits with a
sign and compared with what it was. Beyond these bits it does not pass, although a type without
sign has more numbers; and at the very first number beyond them it passes, because the greatest
number of sixty-four bits is rounded to it: there the parameter delivers one less.

* `Value.exactValue?`: the exact number of a value;
* `Value.saturate_eq_iff`: when the cut number compares equal, and what it is then;
* `Parameter.read_int`: what a parameter of an integer type takes, delivers and reports.
-/

namespace Stencil

open Decimal Decimal.Magnitude

namespace IntType

/-! ## Ranges -/

theorem holds_iff (t : IntType) (n : Int) : t.holds n = true ↔ t.least ≤ n ∧ n ≤ t.greatest := by
  rw [holds, Bool.and_eq_true, decide_eq_true_eq, decide_eq_true_eq]

theorem holds_i64_iff (n : Int) : i64.holds n = true ↔ -2 ^ 63 ≤ n ∧ n ≤ 2 ^ 63 - 1 :=
  holds_iff i64 n

theorem holds_u64_iff (n : Int) : u64.holds n = true ↔ 0 ≤ n ∧ n ≤ 2 ^ 64 - 1 := holds_iff u64 n

theorem clamp_i64 (n : Int) : i64.clamp n = max (-2 ^ 63) (min (2 ^ 63 - 1) n) := rfl

end IntType

namespace Value

/-- The exact number of a value, a bool being one or zero. -/
def exactValue? : Value → Option ℚ
  | bool b => some b.toNat
  | unsigned n => some n.toNat
  | signed n => some n.toInt
  | float x => (ofFloat x).value?
  | _ => .none

/-- The value is held in double precision. -/
def isFloat : Value → Bool
  | float _ => true
  | _ => false

/-! ## Cutting to sixty-four bits -/

theorem saturate_of_value? {x : Float} {n : Int} (h : (ofFloat x).value? = some (n : ℚ)) :
    saturate x = IntType.i64.clamp n := by
  obtain ⟨s, m, e, hx, rfl, -⟩ := finite_of_value? h
  rw [saturate, hx]

theorem saturate_bounds (x : Float) : -2 ^ 63 ≤ saturate x ∧ saturate x ≤ 2 ^ 63 - 1 := by
  have hclamp (n : Int) : -2 ^ 63 ≤ IntType.i64.clamp n ∧ IntType.i64.clamp n ≤ 2 ^ 63 - 1 := by
    rw [IntType.clamp_i64]
    omega
  rw [saturate]
  split
  · decide
  · split <;> decide
  · exact hclamp _

/-- A cut number compares equal if it was not changed, and if it was `2 ^ 63`. -/
theorem saturate_eq_iff (x : Float) (n : Int) :
    (ofWhole (saturate x) == x) = true ∧ saturate x = n ↔
      (ofFloat x).value? = some (n : ℚ) ∧ IntType.i64.holds n = true ∨
        (ofFloat x).value? = some ((2 ^ 63 : Int) : ℚ) ∧ n = 2 ^ 63 - 1 := by
  have hbounds := saturate_bounds x
  rw [ofWhole_beq_iff (by omega), IntType.holds_i64_iff]
  constructor
  · rintro ⟨h, rfl⟩
    have hclamp := saturate_of_value? h
    rw [IntType.clamp_i64] at hclamp
    rcases lt_trichotomy (nearest (saturate x)) (saturate x) with hlt | heq | hgt
    · -- The least number of sixty-four bits is not rounded.
      have hleast : saturate x = -2 ^ 63 := by omega
      have hnearest : nearest (-2 ^ 63) = -2 ^ 63 := by decide
      rw [hleast, hnearest] at hlt
      exact absurd hlt (lt_irrefl _)
    · rw [heq] at h
      exact .inl ⟨h, hbounds⟩
    · have hgreatest : saturate x = 2 ^ 63 - 1 := by omega
      have hnearest : nearest (2 ^ 63 - 1) = 2 ^ 63 := by decide
      rw [hgreatest, hnearest] at h
      exact .inr ⟨h, hgreatest⟩
  · rintro (⟨h, hn⟩ | ⟨h, rfl⟩)
    · have hclamp : saturate x = n := by
        rw [saturate_of_value? h, IntType.clamp_i64]
        omega
      rw [hclamp, nearest_of_value? h]
      exact ⟨h, rfl⟩
    · have hclamp : saturate x = 2 ^ 63 - 1 := saturate_of_value? h
      have hnearest : nearest (2 ^ 63 - 1) = 2 ^ 63 := by decide
      rw [hclamp, hnearest]
      exact ⟨h, rfl⟩

/-! ## Conversion -/

theorem cast_eq_some_iff (k n : Int) : some ((k : Int) : ℚ) = some (n : ℚ) ↔ some k = some n := by
  rw [Option.some.injEq, Option.some.injEq, Int.cast_inj]

/-- What is converted, and to what. -/
theorem toInt?_eq_some_iff (t : IntType) (v : Value) (n : Int) :
    v.toInt? t = some n ↔ t.holds n = true ∧
      (v.exactValue? = some (n : ℚ) ∧ (v.isFloat = true → IntType.i64.holds n = true) ∨
        v.isFloat = true ∧ v.exactValue? = some ((2 ^ 63 : Int) : ℚ) ∧ n = 2 ^ 63 - 1) := by
  unfold toInt?
  rw [Option.filter_eq_some_iff, and_comm]
  refine and_congr_right fun _ => ?_
  cases v with
  | float x =>
    have hcut : (if ofWhole (saturate x) == x then some (saturate x) else Option.none) = some n ↔
        (ofWhole (saturate x) == x) = true ∧ saturate x = n := by
      split <;> simp_all
    rw [hcut, saturate_eq_iff]
    simp [exactValue?, isFloat]
  | bool b => simpa [exactValue?, isFloat] using (cast_eq_some_iff b.toNat n).symm
  | unsigned k => simpa [exactValue?, isFloat] using (cast_eq_some_iff k.toNat n).symm
  | signed k => simp [exactValue?, isFloat]
  | _ => simp [exactValue?, isFloat]

end Value

/-- A parameter of an integer type delivers the exact number of its argument. Of numbers in double
precision it takes those within the signed numbers of sixty-four bits, and besides `2 ^ 63`, for
which it delivers one less. Every other value is an error that names its kind and the type. -/
theorem Parameter.read_int (t : IntType) (v : Value) :
    (∀ n : Int, (Parameter.int t).read (some v) = .ok n ↔ t.holds n = true ∧
      (v.exactValue? = some (n : ℚ) ∧ (v.isFloat = true → IntType.i64.holds n = true) ∨
        v.isFloat = true ∧ v.exactValue? = some ((2 ^ 63 : Int) : ℚ) ∧ n = 2 ^ 63 - 1)) ∧
    ∀ m : Mismatch, (Parameter.int t).read (some v) = .error m → m.toError =
      .ofKind .invalidArguments ("cannot convert " ++ v.kind.description ++ " to " ++ t.name) := by
  constructor
  · intro n
    rw [← Value.toInt?_eq_some_iff, Parameter.read, Parameter.required]
    cases v.toInt? t <;> simp
  · intro m hm
    rw [Parameter.read, Parameter.required] at hm
    cases hv : v.toInt? t <;> rw [hv] at hm <;> cases hm
    rfl

/-- The number `2 ^ 63` is in the range of `u64` and not in that of `i64`; in double precision it
is taken for both, and is not delivered. -/
theorem Parameter.read_int_of_two_pow :
    (Value.float (.ofBits 0x43e0000000000000)).exactValue? = some ((2 ^ 63 : Int) : ℚ) ∧
      IntType.u64.holds (2 ^ 63) = true ∧
      (Parameter.int .u64).read (some (.float (.ofBits 0x43e0000000000000))) = .ok (2 ^ 63 - 1) ∧
      IntType.i64.holds (2 ^ 63) = false ∧
      (Parameter.int .i64).read (some (.float (.ofBits 0x43e0000000000000))) = .ok (2 ^ 63 - 1) := by
  have hexact : (Value.float (.ofBits 0x43e0000000000000)).exactValue? = some ((2 ^ 63 : Int) : ℚ) := by
    have hbits : ofBits 0x43e0000000000000 = .finite false (2 ^ 52) 11 := by decide
    rw [Value.exactValue?, ofFloat_ofBits, hbits, value?]
    norm_num [signed]
  refine ⟨hexact, by decide, ?_, by decide, ?_⟩
  all_goals
    simp only [Parameter.read, Parameter.required]
    rw [(Value.toInt?_eq_some_iff _ _ _).2 ⟨by decide, .inr ⟨rfl, hexact, rfl⟩⟩]

end Stencil

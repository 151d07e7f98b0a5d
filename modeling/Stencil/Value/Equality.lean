import Stencil.Value.Basic

/-!
# Equality of values

Values of one kind are compared by what they hold: sequences item by item, maps
entry by entry without regard to order, callables by identity. Numbers of any
form compare in double precision. Nothing else is equal; in particular an
invalid value differs from itself, as does not-a-number.
-/

namespace Stencil.Value

mutual

/-- Two values are equal. -/
def equal : Value → Value → Bool
  | undefined, undefined => true
  | none, none => true
  | bool a, bool b => a == b
  | string a, string b => a == b
  | seq xs, seq ys => equalItems xs ys
  | map xs, map ys => xs.length == ys.length && equalEntries xs ys
  | callable a, callable b => a == b
  | a, b =>
    match a.number?, b.number? with
    | some x, some y => x == y
    | _, _ => false
termination_by a b => sizeOf a + sizeOf b

/-- Two lists have the same length and equal items. -/
def equalItems : List Value → List Value → Bool
  | [], [] => true
  | x :: xs, y :: ys => x.equal y && equalItems xs ys
  | _, _ => false
termination_by xs ys => sizeOf xs + sizeOf ys

/-- Under the name of every entry a value is found among the others, which is equal to that of the
entry. -/
def equalEntries : List (String × Value) → List (String × Value) → Bool
  | [], _ => true
  | (key, x) :: xs, ys =>
    (match _h : Entries.get? ys key with
      | some y => y.equal x
      | .none => false) && equalEntries xs ys
termination_by xs ys => sizeOf xs + sizeOf ys
decreasing_by
  -- The two sides are exchanged, so that only both of them together get smaller.
  · have hy := Entries.sizeOf_lt_of_get? _h
    rw [List.cons.sizeOf_spec, Prod.mk.sizeOf_spec]
    omega
  · rw [List.cons.sizeOf_spec]
    omega

end

instance : BEq Value := ⟨equal⟩

end Stencil.Value

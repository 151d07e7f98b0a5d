import Stencil.Proofs.Path.Written
import Stencil.Proofs.Value.Equality

/-!
# Equal values in look-ups

Equal values may differ in the order of their entries and in the form of their numbers. No look-up
tells them apart: what is found in the one is equal to what is found in the other, and what is not
found in the one is not found in the other. So it is with their kind, their truth and their length.

* `Value.Equated`: equal values whose maps have distinct names;
* `Value.Equated.isTrue_eq`: numbers of all forms have the truth that they have in double precision;
* `Value.Equated.get?`, `Value.Equated.attr`: one step of a look-up;
* `Value.Equated.foldl_attr`: a row of steps;
* `Value.equal_indistinguishable`: all of it.
-/

namespace Stencil

open Decimal Decimal.Magnitude

namespace Value

/-! ## Numbers -/

variable {a b : Value} {x y : Float}

/-- A value in which nothing is found. -/
structure Bare (v : Value) : Prop where
  length : v.length? = .none
  entries : v.entries? = .none
  item : ∀ i, v.item i = .undefined
  attr : ∀ name, v.attr name = .undefined

theorem bare_of_number? (h : a.number? = some x) : a.Bare := by
  cases a <;> cases h <;> exact ⟨rfl, rfl, fun _ => rfl, fun _ => rfl⟩

theorem value?_zero : (ofFloat 0).value? = some 0 := (value?_eq_zero_iff _).2 (by decide)

theorem ofWhole_beq_zero_iff {n : Int} (hn : n.natAbs < 2 ^ 128) :
    (ofWhole n == 0) = true ↔ n = 0 := by
  rw [ofWhole_beq_iff hn, value?_zero, Option.some.injEq, eq_comm, Int.cast_eq_zero,
    nearest_eq_zero_iff]

theorem ofWhole_truth {n : Int} (hn : n.natAbs < 2 ^ 128) :
    (ofWhole n != 0 && !(ofWhole n).isNaN) = (n != 0) := by
  have hnan : (ofWhole n).isNaN = false := (float_beq_self_iff _).1 (ofWhole_beq_self hn)
  have hzero : (ofWhole n == 0) = (n == 0) :=
    Bool.eq_iff_iff.2 ((ofWhole_beq_zero_iff hn).trans beq_iff_eq.symm)
  rw [hnan, bne, bne, hzero, Bool.not_false, Bool.and_true]

/-- The truth of a number is that of the number in double precision. -/
theorem isTrue_of_number? (h : a.number? = some x) : a.isTrue = (x != 0 && !x.isNaN) := by
  cases a with
  | unsigned n =>
    cases h
    rw [ofWhole_truth (natAbs_lt_of_integer? (v := unsigned n) rfl), isTrue, bne, bne,
      Bool.not_inj_iff, Bool.eq_iff_iff, beq_iff_eq, beq_iff_eq, ← UInt64.toNat_inj]
    exact Int.natCast_eq_zero.symm
  | signed n =>
    cases h
    rw [ofWhole_truth (natAbs_lt_of_integer? (v := signed n) rfl), isTrue, bne, bne,
      Bool.not_inj_iff, Bool.eq_iff_iff, beq_iff_eq, beq_iff_eq, ← Int64.toInt_inj]
    rfl
  | float y =>
    cases h
    rfl
  | _ => cases h

/-- Equal numbers have the same truth. -/
theorem float_truth (h : (x == y) = true) : (x != 0 && !x.isNaN) = (y != 0 && !y.isNaN) := by
  have hx : x.isNaN = false := (float_beq_self_iff x).1 (BEq.trans h (BEq.symm h))
  have hy : y.isNaN = false := (float_beq_self_iff y).1 (BEq.trans (BEq.symm h) h)
  have hzero : (x == 0) = (y == 0) := BEq.congr_left h
  rw [hx, hy, bne, bne, hzero]

/-! ## One step -/

/-- Two equal values whose maps have distinct names. -/
structure Equated (a b : Value) : Prop where
  beq : (a == b) = true
  left : a.Distinct
  right : b.Distinct

namespace Equated

theorem undefined : Equated .undefined .undefined :=
  ⟨(beq_iff_alike _ _).2 .undefined, .of_parts rfl nofun, .of_parts rfl nofun⟩

theorem alike (h : Equated a b) : Alike a b := (beq_iff_alike a b).1 h.beq

theorem kind_eq (h : Equated a b) : a.kind = b.kind := h.alike.kind_eq

theorem isTrue_eq (h : Equated a b) : a.isTrue = b.isTrue := by
  cases h.alike with
  | number hx hy hxy => rw [isTrue_of_number? hx, isTrue_of_number? hy, float_truth hxy]
  | _ => rfl

theorem length?_eq (h : Equated a b) : a.length? = b.length? := by
  cases h.alike with
  | number hx hy => rw [(bare_of_number? hx).length, (bare_of_number? hy).length]
  | seq hlen => exact congrArg some hlen
  | map hlen => exact congrArg some hlen
  | _ => rfl

/-- What is found under a name in the entries of the one is found in those of the other. -/
theorem get? (h : Equated a b) (name : String) :
    Option.Rel Equated (a.entries?.bind (Entries.get? · name))
      (b.entries?.bind (Entries.get? · name)) := by
  cases h.alike with
  | @map xs ys hlen hxy =>
    show Option.Rel Equated (Entries.get? xs name) (Entries.get? ys name)
    cases hx : Entries.get? xs name with
    | some x =>
      have hmem := Entries.mem_of_get? hx
      obtain ⟨y, hy, heq⟩ := hxy _ hmem
      have hleft := h.left.entry hmem
      have hright := h.right.entry (Entries.mem_of_get? hy)
      rw [hy]
      exact .some ⟨beq_symm hright hleft heq, hleft, hright⟩
    | none =>
      have hnames := names_subset_of_found h.left.nodup hlen hxy
      rw [Entries.get?_eq_none_iff.2 fun hn => Entries.get?_eq_none_iff.1 hx (hnames hn)]
      exact .none
  | number hx hy =>
    rw [(bare_of_number? hx).entries, (bare_of_number? hy).entries]
    exact .none
  | _ => exact .none

theorem getD {o o' : Option Value} (h : Option.Rel Equated o o') :
    Equated (o.getD .undefined) (o'.getD .undefined) := by
  cases h with
  | some h => exact h
  | none => exact undefined

theorem refl_of_scalar (hentries : a.entries? = .none) (hparts : a.parts = [])
    (hgap : a.isGap = false) : Equated a a := by
  have ha : a.Distinct := .of_parts hentries (hparts ▸ nofun)
  exact ⟨(beq_self_iff_parts ha).2 ⟨hgap, hparts ▸ nofun⟩, ha, ha⟩

theorem item (h : Equated a b) (i : Nat) : Equated (a.item i) (b.item i) := by
  cases h.alike with
  | undefined | none | bool | callable => exact undefined
  | number hx hy =>
    rw [(bare_of_number? hx).item, (bare_of_number? hy).item]
    exact undefined
  | string s =>
    rw [Value.item]
    cases s.toList[i]? with
    | none => exact undefined
    | some c => exact refl_of_scalar rfl rfl rfl
  | @seq xs ys hlen hxy =>
    refine getD ?_
    cases hx : xs[i]? with
    | some x =>
      have hi : i < ys.length := hlen ▸ (List.getElem?_eq_some_iff.1 hx).1
      have hy := List.getElem?_eq_getElem hi
      rw [hy]
      exact .some ⟨hxy i x _ hx hy, h.left.part (List.mem_of_getElem? hx),
        h.right.part (List.mem_of_getElem? hy)⟩
    | none =>
      rw [List.getElem?_eq_none (hlen ▸ List.getElem?_eq_none_iff.1 hx)]
      exact .none
  | map => exact getD (h.get? (toString i))

/-- What sequences and texts answer to names. -/
theorem indexed (h : Equated a b) (name : String) :
    Equated
      (if name = "length" then (a.length?.map ofNat).getD .undefined
        else ((index? name).map a.item).getD .undefined)
      (if name = "length" then (b.length?.map ofNat).getD .undefined
        else ((index? name).map b.item).getD .undefined) := by
  split
  · rw [h.length?_eq]
    cases b.length? with
    | none => exact undefined
    | some n => exact refl_of_scalar rfl rfl rfl
  · cases index? name with
    | none => exact undefined
    | some i => exact h.item i

/-- A step of a look-up does not tell equal values apart. -/
theorem attr (h : Equated a b) (name : String) : Equated (a.attr name) (b.attr name) := by
  cases h.alike with
  | undefined | none | bool | callable => exact undefined
  | number hx hy =>
    rw [(bare_of_number? hx).attr, (bare_of_number? hy).attr]
    exact undefined
  | string | seq => exact h.indexed name
  | map => exact getD (h.get? name)

/-! ## A row of steps -/

theorem foldl_attr (h : Equated a b) (names : List String) :
    Equated (names.foldl Value.attr a) (names.foldl Value.attr b) := by
  induction names generalizing a b with
  | nil => exact h
  | cons name rest ih => exact ih (h.attr name)

theorem resolve (h : Equated a b) (path : String) :
    Equated (Path.resolve a path) (Path.resolve b path) := by
  have hget := h.get? path
  rw [Path.resolve, Path.resolve]
  generalize a.entries?.bind (Entries.get? · path) = o at hget ⊢
  generalize b.entries?.bind (Entries.get? · path) = o' at hget ⊢
  cases hget with
  | some hfound => exact hfound
  | none =>
    show Equated (if _ then _ else _) (if _ then _ else _)
    split
    · cases Path.split path with
      | nil => exact undefined
      | cons first rest =>
        show Equated (Path.walk _ _) (Path.walk _ _)
        rw [Path.walk_eq_foldl, Path.walk_eq_foldl]
        exact (h.attr first).foldl_attr rest
    · exact h.attr path

end Equated

/-- Equal values have the same kind, the same truth and the same length, and every path resolves
to equal values in them. -/
theorem equal_indistinguishable {a b : Value} (ha : a.Distinct) (hb : b.Distinct)
    (h : (a == b) = true) :
    a.kind = b.kind ∧ a.isTrue = b.isTrue ∧ a.length? = b.length? ∧
      ∀ path, (Path.resolve a path == Path.resolve b path) = true := by
  have hab : Equated a b := ⟨h, ha, hb⟩
  exact ⟨hab.kind_eq, hab.isTrue_eq, hab.length?_eq, fun path => (hab.resolve path).beq⟩

/-- Two maps with their entries in another order and a number in another form. -/
theorem equal_indistinguishable_reordered :
    let a := map [("name", string "x"), ("size", seq [unsigned 3])]
    let b := map [("size", seq [float (.ofBits 0x4008000000000000)]), ("name", string "x")]
    a.Distinct ∧ b.Distinct ∧ (a == b) = true ∧ a.isTrue = b.isTrue ∧
      (Path.resolve a "size[0]" == Path.resolve b "size[0]") = true := by
  intro a b
  have ha : a.Distinct := by
    simp only [a, distinct_map, distinct_seq, List.forall_mem_cons]
    exact ⟨by decide, .of_parts rfl nofun, ⟨.of_parts rfl nofun, nofun⟩, nofun⟩
  have hb : b.Distinct := by
    simp only [b, distinct_map, distinct_seq, List.forall_mem_cons]
    exact ⟨by decide, ⟨.of_parts rfl nofun, nofun⟩, .of_parts rfl nofun, nofun⟩
  have hab : (a == b) = true := by decide +kernel
  obtain ⟨-, htrue, -, hresolve⟩ := equal_indistinguishable ha hb hab
  exact ⟨ha, hb, hab, htrue, hresolve "size[0]"⟩

end Value

end Stencil

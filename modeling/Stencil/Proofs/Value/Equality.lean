import Stencil.Value.Equality
import Stencil.Proofs.Decimal.Exact
import Stencil.Proofs.Value.Distinct

/-!
# Equality as a relation

Equality of values is symmetric and transitive. Maps are compared in one direction only, but as
they have equally many entries and their names are distinct, the other direction follows. What is
found in the right map is compared with the entry of the left one, so that the sides are exchanged
at every map on the way down, and the proofs are about both orders at once. Numbers of all forms
meet in double precision, where equality is symmetric and transitive too. A value equals itself
unless there is not-a-number or an invalid value in it, at whatever depth.

* `Value.Alike`, `Value.beq_iff_alike`: why values are equal, by the equality of their parts;
* `Value.beq_symm`, `Value.beq_trans`: equality is a partial equivalence;
* `Value.beq_self_iff`: what equals itself;
* `Value.equality_partial`: all of it.
-/

namespace Stencil

namespace Value

/-- Why two values are equal. -/
inductive Alike : Value → Value → Prop
  | undefined : Alike .undefined .undefined
  | none : Alike .none .none
  | bool (b : Bool) : Alike (.bool b) (.bool b)
  | string (s : String) : Alike (.string s) (.string s)
  | callable (name : String) : Alike (.callable name) (.callable name)
  | number {a b : Value} {x y : Float} (ha : a.number? = some x) (hb : b.number? = some y)
      (h : (x == y) = true) : Alike a b
  | seq {xs ys : List Value} (hlen : xs.length = ys.length)
      (h : ∀ (i : Nat) x y, xs[i]? = some x → ys[i]? = some y → (x == y) = true) :
      Alike (.seq xs) (.seq ys)
  | map {xs ys : Entries Value} (hlen : xs.length = ys.length)
      (h : ∀ e ∈ xs, ∃ y, ys.get? e.1 = some y ∧ (y == e.2) = true) :
      Alike (.map xs) (.map ys)

theorem kind_of_number? {v : Value} {x : Float} (h : v.number? = some x) : v.kind = .number := by
  cases v <;> cases h <;> rfl

theorem Alike.kind_eq {a b : Value} (h : Alike a b) : a.kind = b.kind := by
  cases h with
  | number hx hy => rw [kind_of_number? hx, kind_of_number? hy]
  | _ => rfl

theorem equalItems_iff (xs ys : List Value) :
    equalItems xs ys = true ↔ xs.length = ys.length ∧
      ∀ (i : Nat) x y, xs[i]? = some x → ys[i]? = some y → (x == y) = true := by
  induction xs generalizing ys with
  | nil => cases ys <;> simp [equalItems]
  | cons x xs ih =>
    cases ys with
    | nil => simp [equalItems]
    | cons y ys =>
      rw [equalItems, Bool.and_eq_true, ih, List.length_cons, List.length_cons, Nat.succ_inj]
      constructor
      · rintro ⟨hxy, hlen, h⟩
        refine ⟨hlen, fun i => ?_⟩
        cases i with
        | zero =>
          rintro _ _ ⟨⟩ ⟨⟩
          exact hxy
        | succ i => exact h i
      · rintro ⟨hlen, h⟩
        exact ⟨h 0 x y rfl rfl, hlen, fun i => h (i + 1)⟩

theorem equalEntries_iff (xs ys : Entries Value) :
    equalEntries xs ys = true ↔ ∀ e ∈ xs, ∃ y, ys.get? e.1 = some y ∧ (y == e.2) = true := by
  induction xs with
  | nil => simp [equalEntries]
  | cons e xs ih =>
    obtain ⟨key, x⟩ := e
    rw [equalEntries, Bool.and_eq_true, List.forall_mem_cons, ih]
    refine and_congr_left fun _ => ?_
    split
    · rename_i y hy
      simp only [hy, Option.some.injEq, exists_eq_left']
      rfl
    · rename_i hnone
      simp [hnone]

theorem float_beq_float (x y : Float) : (float x == float y) = (x == y) := by
  show (float x).equal (float y) = _
  unfold equal
  rfl

theorem seq_beq_seq (xs ys : List Value) : (seq xs == seq ys) = equalItems xs ys := by
  show (seq xs).equal (seq ys) = _
  unfold equal
  rfl

theorem map_beq_map (xs ys : Entries Value) :
    (map xs == map ys) = (xs.length == ys.length && equalEntries xs ys) := by
  show (map xs).equal (map ys) = _
  unfold equal
  rfl

theorem beq_iff_alike (a b : Value) : (a == b) = true ↔ Alike a b := by
  show a.equal b = true ↔ _
  constructor
  · intro h
    unfold equal at h
    split at h
    · exact .undefined
    · exact .none
    · exact beq_iff_eq.1 h ▸ .bool _
    · exact beq_iff_eq.1 h ▸ .string _
    · exact .seq ((equalItems_iff _ _).1 h).1 ((equalItems_iff _ _).1 h).2
    · rw [Bool.and_eq_true, beq_iff_eq, equalEntries_iff] at h
      exact .map h.1 h.2
    · exact beq_iff_eq.1 h ▸ .callable _
    · split at h
      · exact .number ‹_› ‹_› h
      · cases h
  · intro h
    unfold equal
    cases h with
    | undefined | none => rfl
    | bool | string | callable => exact beq_self_eq_true _
    | @number a b x y ha hb h =>
      cases a <;> cases ha <;> cases b <;> cases hb <;> exact h
    | seq hlen h => exact (equalItems_iff _ _).2 ⟨hlen, h⟩
    | map hlen h => exact Bool.and_eq_true_iff.2 ⟨beq_iff_eq.2 hlen, (equalEntries_iff _ _).2 h⟩

/-! ## Symmetry and transitivity -/

/-- If all entries of a map of distinct names are found in one that has not more entries, no name
is left over there. -/
theorem names_subset_of_found {xs ys : Entries Value} (hn : xs.names.Nodup)
    (hlen : xs.length = ys.length)
    (h : ∀ e ∈ xs, ∃ y, ys.get? e.1 = some y ∧ (y == e.2) = true) : ys.names ⊆ xs.names := by
  refine Entries.names_subset_of_length_eq hn hlen fun name hname => ?_
  obtain ⟨e, he, rfl⟩ := List.mem_map.1 hname
  obtain ⟨y, hy, -⟩ := h e he
  exact Entries.mem_names_of_get? hy

/-- Values are equal in the other order if their parts are equal in both orders or in neither. -/
theorem Alike.symm_of {a b : Value} (ha : a.Distinct) (hb : b.Distinct)
    (hparts : ∀ x ∈ a.parts, ∀ y ∈ b.parts, (x == y) = (y == x)) (h : Alike a b) : Alike b a := by
  cases h with
  | undefined => exact .undefined
  | none => exact .none
  | bool b => exact .bool b
  | string s => exact .string s
  | callable name => exact .callable name
  | number hx hy h => exact .number hy hx (BEq.symm h)
  | seq hlen h =>
    refine .seq hlen.symm fun i y x hy hx => ?_
    rw [← hparts x (List.mem_of_getElem? hx) y (List.mem_of_getElem? hy)]
    exact h i x y hx hy
  | @map xs ys hlen h =>
    -- Entries of the right are found on the left, since names there are the same.
    refine .map hlen.symm fun ⟨key, y⟩ hy => ?_
    have hkey : key ∈ xs.names := names_subset_of_found ha.nodup hlen h (List.mem_map_of_mem hy)
    obtain ⟨⟨_, x⟩, hx, rfl⟩ := List.mem_map.1 hkey
    obtain ⟨y', hy', hyx⟩ := h _ hx
    obtain rfl : y = y' := Entries.eq_of_mem_of_get? hb.nodup hy hy'
    refine ⟨x, Entries.get?_of_mem ha.nodup hx, ?_⟩
    rwa [hparts x (List.mem_map_of_mem hx) y (List.mem_map_of_mem hy)]

theorem beq_comm_of_distinct {a b : Value} (ha : a.Distinct) (hb : b.Distinct) : (a == b) = (b == a) := by
  induction a using parts_induction generalizing b with
  | h a ih =>
    have hparts : ∀ x ∈ a.parts, ∀ y ∈ b.parts, (x == y) = (y == x) :=
      fun x hx y hy => ih x hx (ha.part hx) (hb.part hy)
    rw [Bool.eq_iff_iff, beq_iff_alike, beq_iff_alike]
    exact ⟨.symm_of ha hb hparts, .symm_of hb ha fun y hy x hx => (hparts x hx y hy).symm⟩

theorem beq_symm {a b : Value} (ha : a.Distinct) (hb : b.Distinct) (h : (a == b) = true) :
    (b == a) = true := beq_comm_of_distinct ha hb ▸ h

/-- Equality goes on from the first of three values to the last. -/
def Chains (a b c : Value) : Prop := (a == b) = true → (b == c) = true → (a == c) = true

/-- It goes on along values if it does along their parts, in both orders. -/
theorem Alike.trans_of {a b c : Value}
    (hparts : ∀ x ∈ a.parts, ∀ y ∈ b.parts, ∀ z ∈ c.parts, Chains x y z ∧ Chains z y x)
    (h : Alike a b) (h' : Alike b c) : Alike a c := by
  cases h with
  | undefined | none | bool | string | callable => exact h'
  | @number a b x y hx hy h =>
    -- Only numbers equal a number, and this one has one form in double precision.
    cases h' with
    | number hy' hz h' =>
      rw [hy] at hy'
      cases hy'
      exact .number hx hz (BEq.trans h h')
    | _ => cases hy
  | @seq xs ys hlen h =>
    cases h' with
    | number hy => cases hy
    | @seq _ zs hlen' h' =>
      refine .seq (hlen.trans hlen') fun i x z hx hz => ?_
      have hi : i < ys.length := hlen ▸ (List.getElem?_eq_some_iff.1 hx).1
      have hy := List.getElem?_eq_getElem hi
      exact (hparts x (List.mem_of_getElem? hx) _ (List.mem_of_getElem? hy) z (List.mem_of_getElem? hz)).1
        (h i x _ hx hy) (h' i _ z hy hz)
  | @map xs ys hlen h =>
    cases h' with
    | number hy => cases hy
    | map hlen' h' =>
      refine .map (hlen.trans hlen') fun e he => ?_
      obtain ⟨y, hy, hyx⟩ := h e he
      obtain ⟨z, hz, hzy⟩ := h' _ (Entries.mem_of_get? hy)
      exact ⟨z, hz, (hparts e.2 (List.mem_map_of_mem he) y (List.mem_map_of_mem (Entries.mem_of_get? hy)) z
        (List.mem_map_of_mem (Entries.mem_of_get? hz))).2 hzy hyx⟩

theorem chains (a b c : Value) : Chains a b c ∧ Chains c b a := by
  induction a using parts_induction generalizing b c with
  | h a ih =>
    simp only [Chains, beq_iff_alike]
    exact ⟨.trans_of fun x hx y _ z _ => ih x hx y z, .trans_of fun z _ y _ x hx => (ih x hx y z).symm⟩

theorem beq_trans {a b c : Value} : (a == b) = true → (b == c) = true → (a == c) = true := (chains a b c).1

/-! ## What differs from itself -/

/-- Not-a-number and invalid values. -/
def isGap : Value → Bool
  | float x => x.isNaN
  | invalid _ => true
  | _ => false

theorem float_beq_self_iff (x : Float) : (x == x) = true ↔ x.isNaN = false := by
  rw [Float.beq_self_iff, Float.isNaN_eq_decide_eq_nan, decide_eq_false_iff_not]

theorem ofWhole_beq_self {n : Int} (hn : n.natAbs < 2 ^ 128) :
    (Decimal.ofWhole n == Decimal.ofWhole n) = true :=
  (Decimal.ofWhole_beq_iff hn _).2 (Decimal.value?_ofWhole hn)

theorem number?_of_integer? {v : Value} {n : Int} (h : v.integer? = some n) :
    v.number? = some (Decimal.ofWhole n) := by
  cases v <;> cases h <;> rfl

theorem natAbs_lt_of_integer? {v : Value} {n : Int} (h : v.integer? = some n) :
    n.natAbs < 2 ^ 128 := by
  cases v with
  | unsigned k =>
    cases h
    exact k.toNat_lt.trans (by decide)
  | signed k =>
    cases h
    have := k.le_toInt
    have := k.toInt_lt
    omega
  | _ => cases h

/-- Two forms of one integer are equal. -/
theorem alike_of_integer? {a b : Value} {n : Int} (ha : a.integer? = some n) (hb : b.integer? = some n) :
    Alike a b :=
  .number (number?_of_integer? ha) (number?_of_integer? hb)
    (ofWhole_beq_self (natAbs_lt_of_integer? ha))

/-- A value equals itself if its parts do and it is no gap. -/
theorem beq_self_iff_parts {v : Value} (hv : v.Distinct) :
    (v == v) = true ↔ v.isGap = false ∧ ∀ w ∈ v.parts, (w == w) = true := by
  rw [beq_iff_alike]
  cases v with
  | undefined => exact iff_of_true .undefined ⟨rfl, nofun⟩
  | none => exact iff_of_true .none ⟨rfl, nofun⟩
  | bool b => exact iff_of_true (.bool b) ⟨rfl, nofun⟩
  | string s => exact iff_of_true (.string s) ⟨rfl, nofun⟩
  | callable name => exact iff_of_true (.callable name) ⟨rfl, nofun⟩
  | unsigned n => exact iff_of_true (alike_of_integer? rfl rfl) ⟨rfl, nofun⟩
  | signed n => exact iff_of_true (alike_of_integer? rfl rfl) ⟨rfl, nofun⟩
  | float x =>
    rw [← beq_iff_alike, float_beq_float]
    exact (float_beq_self_iff x).trans (iff_self_and.2 fun _ => nofun)
  | invalid m =>
    refine iff_of_false (fun h => ?_) fun h => nomatch h.1
    cases h with
    | number hx => cases hx
  | seq items =>
    refine Iff.trans ?_ (and_iff_right rfl).symm
    constructor
    · intro h w hw
      cases h with
      | number hx => cases hx
      | seq _ h =>
        obtain ⟨i, hi⟩ := List.mem_iff_getElem?.1 hw
        exact h i w w hi hi
    · intro h
      refine .seq rfl fun i x y hx hy => ?_
      rw [hx] at hy
      cases hy
      exact h x (List.mem_of_getElem? hx)
  | map entries =>
    refine Iff.trans ?_ (and_iff_right rfl).symm
    constructor
    · intro h w hw
      cases h with
      | number hx => cases hx
      | map _ h =>
        obtain ⟨e, he, rfl⟩ := List.mem_map.1 hw
        obtain ⟨y, hy, hxy⟩ := h e he
        rw [Entries.get?_of_mem hv.nodup he] at hy
        cases hy
        exact hxy
    · exact fun h => .map rfl fun e he =>
        ⟨e.2, Entries.get?_of_mem hv.nodup he, h e.2 (List.mem_map_of_mem he)⟩

/-- A value equals itself if there is no gap at any depth. -/
theorem beq_self_iff {v : Value} (hv : v.Distinct) :
    (v == v) = true ↔ ∀ u, Within u v → u.isGap = false := by
  induction v using parts_induction with
  | h v ih =>
    rw [beq_self_iff_parts hv, forall_within_iff]
    exact and_congr_right fun _ => forall₂_congr fun w hw => ih w hw (hv.part hw)

/-- Equality of values whose maps have distinct names is symmetric and transitive. Just those
values equal themselves that hold neither not-a-number nor an invalid value at any depth. -/
theorem equality_partial {a b : Value} (ha : a.Distinct) (hb : b.Distinct) (c : Value) :
    ((a == b) = true → (b == a) = true) ∧
      ((a == b) = true → (b == c) = true → (a == c) = true) ∧
      ((a == a) = true ↔
        (∀ x, Within (.float x) a → x.isNaN = false) ∧ ∀ m, ¬ Within (.invalid m) a) := by
  refine ⟨beq_symm ha hb, beq_trans, (beq_self_iff ha).trans ⟨fun h => ?_, fun h u hu => ?_⟩⟩
  · exact ⟨fun x => h (.float x), fun m hm => nomatch h (.invalid m) hm⟩
  · cases u with
    | float x => exact h.1 x hu
    | invalid m => exact absurd hu (h.2 m)
    | _ => rfl

/-- A map with other numbers, in another order, and a third one that holds a number in double
precision. -/
theorem equality_partial_of_numbers :
    let a := map [("one", unsigned 1), ("all", seq [string "s", signed (-2)])]
    let b := map [("all", seq [string "s", float (.ofBits 0xc000000000000000)]), ("one", signed 1)]
    let c := map [("one", float (.ofBits 0x3ff0000000000000)), ("all", seq [string "s", signed (-2)])]
    a.Distinct ∧ b.Distinct ∧ (a == b) = true ∧ (b == a) = true ∧ (b == c) = true ∧ (a == c) = true ∧
      (a == a) = true ∧ ∀ m, ¬ Within (.invalid m) a := by
  intro a b c
  have ha : a.Distinct := by
    simp only [a, distinct_map, distinct_seq, List.forall_mem_cons]
    exact ⟨by decide, .of_parts rfl nofun, ⟨.of_parts rfl nofun, .of_parts rfl nofun, nofun⟩, nofun⟩
  have hb : b.Distinct := by
    simp only [b, distinct_map, distinct_seq, List.forall_mem_cons]
    exact ⟨by decide, ⟨.of_parts rfl nofun, .of_parts rfl nofun, nofun⟩, .of_parts rfl nofun, nofun⟩
  have hab : (a == b) = true := by decide +kernel
  have hbc : (b == c) = true := by decide +kernel
  have haa : (a == a) = true := by decide +kernel
  obtain ⟨hsymm, htrans, hself⟩ := equality_partial ha hb c
  exact ⟨ha, hb, hab, hsymm hab, hbc, htrans hab hbc, haa, (hself.1 haa).2⟩

end Value

end Stencil

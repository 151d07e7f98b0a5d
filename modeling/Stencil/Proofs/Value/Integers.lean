import Stencil.Proofs.Value.Equality

/-!
# Equality of integers

All numbers are compared in double precision, integers with integers too. Two integers are equal
if they are rounded to the same number, so that below `2 ^ 53` an integer equals itself alone, and
from there on some equal their neighbours. Sequences and maps of integers are equal if this holds
in every place.

* `Decimal.nearest_eq_iff_of_small`: small integers are not rounded, and nothing is rounded to them;
* `Value.rounded?`, `Value.beq_iff_rounded`: what integers are compared by;
* `Value.seq_beq_iff`, `Value.map_beq_iff`: equality place by place;
* `Value.integers_beq_iff_rounded_alike`: all of it, with the exact law for small integers;
* `Value.distinct_integers_beq`: different integers that are equal.
-/

namespace Stencil

/-! ## Rounding -/

namespace Decimal

theorem ofWhole_beq_ofWhole_iff {m n : Int} (hm : m.natAbs < 2 ^ 128) (hn : n.natAbs < 2 ^ 128) :
    (ofWhole m == ofWhole n) = true ↔ nearest m = nearest n := by
  rw [ofWhole_beq_iff hm, value?_ofWhole hn, Option.some.injEq, Int.cast_inj, eq_comm]

theorem nearest_of_small {n : Int} (h : n.natAbs < 2 ^ 53) : nearest n = n :=
  nearest_of_dvd (spacing_eq_one h ▸ one_dvd _)

/-- Large numbers are not rounded to small ones: the first large one of their sign lies nearer. -/
theorem le_natAbs_nearest {n : Int} (h : 2 ^ 53 ≤ n.natAbs) : 2 ^ 53 ≤ (nearest n).natAbs := by
  have hfirst (s : Int) (hs : s.natAbs = 2 ^ 53) (hround : nearest s = s) :
      (nearest n - n).natAbs ≤ (s - n).natAbs := by
    have hvalue := value?_ofWhole (n := s) (by omega)
    rw [hround] at hvalue
    have hle : |nearest n - n| ≤ |s - n| := by exact_mod_cast nearest_le n hvalue
    rwa [Int.abs_eq_natAbs, Int.abs_eq_natAbs, Int.ofNat_le] at hle
  have hup := hfirst (2 ^ 53) (by decide) (by decide)
  have hdown := hfirst (-2 ^ 53) (by decide) (by decide)
  omega

/-- Small numbers are not rounded, and no other number is rounded to one. -/
theorem nearest_eq_iff_of_small {m n : Int} (hm : m.natAbs < 2 ^ 53) :
    nearest m = nearest n ↔ m = n := by
  rw [nearest_of_small hm]
  rcases Nat.lt_or_ge n.natAbs (2 ^ 53) with hn | hn
  · rw [nearest_of_small hn]
  · have hlarge := le_natAbs_nearest hn
    constructor <;> rintro rfl <;> omega

end Decimal

namespace Value

open Decimal (IsNearest nearest)

variable {a b : Value} {xs ys : List Value} {es es' : Entries Value} {f : Value → Option Int}

/-! ## Integers -/

/-- The number that an integer is rounded to. -/
def rounded? (v : Value) : Option Int := v.integer?.map nearest

/-- The value holds an integer of less than fifty-four bits. -/
def IsSmall (v : Value) : Prop := ∃ n, v.integer? = some n ∧ n.natAbs < 2 ^ 53

theorem IsSmall.isSome (h : a.IsSmall) : a.integer?.isSome = true := by
  obtain ⟨n, hn, -⟩ := h
  rw [hn]
  rfl

theorem beq_iff_rounded (ha : a.integer?.isSome = true) (hb : b.integer?.isSome = true) :
    (a == b) = true ↔ a.rounded? = b.rounded? := by
  obtain ⟨m, hm⟩ := Option.isSome_iff_exists.1 ha
  obtain ⟨n, hn⟩ := Option.isSome_iff_exists.1 hb
  have hnumbers : (a == b) = true ↔ (Decimal.ofWhole m == Decimal.ofWhole n) = true := by
    rw [beq_iff_alike]
    constructor
    · intro h
      cases h with
      | number hx hy h =>
        cases hx.symm.trans (number?_of_integer? hm)
        cases hy.symm.trans (number?_of_integer? hn)
        exact h
      | _ => cases hm
    · exact .number (number?_of_integer? hm) (number?_of_integer? hn)
  rw [hnumbers, Decimal.ofWhole_beq_ofWhole_iff (natAbs_lt_of_integer? hm) (natAbs_lt_of_integer? hn),
    rounded?, rounded?, hm, hn, Option.map_some, Option.map_some, Option.some.injEq]

theorem beq_iff_of_small (ha : a.IsSmall) (hb : b.integer?.isSome = true) :
    (a == b) = true ↔ a.integer? = b.integer? := by
  rw [beq_iff_rounded ha.isSome hb, rounded?, rounded?]
  obtain ⟨m, hm, hsmall⟩ := ha
  obtain ⟨n, hn⟩ := Option.isSome_iff_exists.1 hb
  rw [hm, hn, Option.map_some, Option.map_some, Option.some.injEq, Option.some.injEq]
  exact Decimal.nearest_eq_iff_of_small hsmall

/-- Integers of both forms are compared alike in both orders. -/
theorem beq_comm_of_integers (ha : a.integer?.isSome = true) (hb : b.integer?.isSome = true) :
    (a == b) = (b == a) := by
  rw [Bool.eq_iff_iff, beq_iff_rounded ha hb, beq_iff_rounded hb ha, eq_comm]

/-! ## Sequences and maps -/

/-- Sequences whose items are equal when `f` is the same of them are equal when it is the same in
every place. -/
theorem seq_beq_iff (h : ∀ x ∈ xs, ∀ y ∈ ys, (x == y) = true ↔ f x = f y) :
    (seq xs == seq ys) = true ↔ xs.map f = ys.map f := by
  rw [seq_beq_seq]
  induction xs generalizing ys with
  | nil => cases ys <;> simp [equalItems]
  | cons x xs ih =>
    cases ys with
    | nil => simp [equalItems]
    | cons y ys =>
      have hxy := h x List.mem_cons_self y List.mem_cons_self
      have hrest := ih fun x hx y hy => h x (List.mem_cons_of_mem _ hx) y (List.mem_cons_of_mem _ hy)
      rw [equalItems, Bool.and_eq_true, hrest, List.map_cons, List.map_cons, List.cons.injEq]
      exact and_congr_left fun _ => hxy

theorem isSome_bind_get?_iff (hf : ∀ e ∈ es, (f e.2).isSome = true) (name : String) :
    ((es.get? name).bind f).isSome = true ↔ name ∈ es.names := by
  cases hget : es.get? name with
  | none => simpa using Entries.get?_eq_none_iff.1 hget
  | some x => exact iff_of_true (hf _ (Entries.mem_of_get? hget)) (Entries.mem_names_of_get? hget)

/-- Maps whose values are equal when `f` is the same of them are equal when it is the same under
every name, a name of one map being a name of the other. -/
theorem map_beq_iff (hn : es.names.Nodup) (hn' : es'.names.Nodup)
    (hf : ∀ e ∈ es, (f e.2).isSome = true) (hf' : ∀ e ∈ es', (f e.2).isSome = true)
    (h : ∀ e ∈ es, ∀ e' ∈ es', (e'.2 == e.2) = true ↔ f e.2 = f e'.2) :
    (map es == map es') = true ↔ ∀ name, (es.get? name).bind f = (es'.get? name).bind f := by
  rw [beq_iff_alike]
  constructor
  · intro halike name
    cases halike with
    | number hx => cases hx
    | map hlen hfound =>
      cases hget : es.get? name with
      | some x =>
        have hx := Entries.mem_of_get? hget
        obtain ⟨y, hy, hxy⟩ := hfound _ hx
        rw [hy]
        exact (h _ hx _ (Entries.mem_of_get? hy)).1 hxy
      | none =>
        have hnames := names_subset_of_found hn hlen hfound
        rw [Entries.get?_eq_none_iff.2 fun hmem => Entries.get?_eq_none_iff.1 hget (hnames hmem)]
  · intro hget
    have hnames : es.names.Perm es'.names := by
      refine (List.perm_ext_iff_of_nodup hn hn').2 fun name => ?_
      rw [← isSome_bind_get?_iff hf, ← isSome_bind_get?_iff hf', hget]
    have hlen : es.length = es'.length := by simpa [Entries.names] using hnames.length_eq
    refine .map hlen fun e he => ?_
    obtain ⟨e', he', hname⟩ := List.mem_map.1 (hnames.subset (List.mem_map_of_mem he))
    have hy : es'.get? e.1 = some e'.2 := hname ▸ Entries.get?_of_mem hn' he'
    have hsame := hget e.1
    rw [Entries.get?_of_mem hn he, hy, Option.bind_some, Option.bind_some] at hsame
    exact ⟨e'.2, hy, (h e he e' he').2 hsame⟩

/-! ## Everything together -/

/-- Two integers are equal if they are rounded to the same number, the one that is nearest in
double precision, and if one of them is small, just if they are the same. Sequences and maps of
integers are equal if this is so of their integers, item by item and name by name. -/
theorem integers_beq_iff_rounded_alike :
    (∀ {a b : Value} {m n : Int}, a.integer? = some m → b.integer? = some n →
      IsNearest m (nearest m) ∧ ((a == b) = true ↔ nearest m = nearest n) ∧
      (m.natAbs < 2 ^ 53 ∨ n.natAbs < 2 ^ 53 → ((a == b) = true ↔ m = n))) ∧
    (∀ {xs ys : List Value}, (∀ x ∈ xs, x.integer?.isSome = true) →
      (∀ y ∈ ys, y.integer?.isSome = true) →
      ((seq xs == seq ys) = true ↔ xs.map rounded? = ys.map rounded?) ∧
      ((∀ x ∈ xs, x.IsSmall) → ((seq xs == seq ys) = true ↔ xs.map integer? = ys.map integer?))) ∧
    ∀ {es es' : Entries Value}, es.names.Nodup → es'.names.Nodup →
      (∀ e ∈ es, e.2.integer?.isSome = true) → (∀ e ∈ es', e.2.integer?.isSome = true) →
      ((map es == map es') = true ↔
        ∀ name, (es.get? name).bind rounded? = (es'.get? name).bind rounded?) ∧
      ((∀ e ∈ es, e.2.IsSmall) → ((map es == map es') = true ↔
        ∀ name, (es.get? name).bind integer? = (es'.get? name).bind integer?)) := by
  refine ⟨fun {a b m n} ha hb => ?_, fun {xs ys} hxs hys => ?_, fun {es es'} hn hn' hes hes' => ?_⟩
  · have hbeq : (a == b) = true ↔ nearest m = nearest n := by
      rw [beq_iff_rounded (by rw [ha]; rfl) (by rw [hb]; rfl), rounded?, rounded?, ha, hb]
      exact Option.some_inj
    refine ⟨Decimal.isNearest_nearest (natAbs_lt_of_integer? ha), hbeq, ?_⟩
    rintro (hsmall | hsmall)
    · rw [hbeq, Decimal.nearest_eq_iff_of_small hsmall]
    · rw [hbeq, eq_comm, Decimal.nearest_eq_iff_of_small hsmall, eq_comm]
  · exact ⟨seq_beq_iff fun x hx y hy => beq_iff_rounded (hxs x hx) (hys y hy),
      fun hsmall => seq_beq_iff fun x hx y hy => beq_iff_of_small (hsmall x hx) (hys y hy)⟩
  · have hround {v : Value} (h : v.integer?.isSome = true) : v.rounded?.isSome = true := by
      rwa [rounded?, Option.isSome_map]
    refine ⟨map_beq_iff hn hn' (fun e he => hround (hes e he)) (fun e he => hround (hes' e he))
        fun e he e' he' => ?_,
      fun hsmall => map_beq_iff hn hn' hes hes' fun e he e' he' => ?_⟩
    · rw [beq_comm_of_integers (hes' e' he') (hes e he)]
      exact beq_iff_rounded (hes e he) (hes' e' he')
    · rw [beq_comm_of_integers (hes' e' he') (hes e he)]
      exact beq_iff_of_small (hsmall e he) (hes' e' he')

/-- Small integers in both forms, in maps in another order, and large ones in sequences that are
rounded alike. -/
theorem integers_beq_iff_rounded_alike_ids :
    let xs := [unsigned 18446744073709551615, signed 7]
    let ys := [unsigned 18446744073709551614, unsigned 7]
    let es : Entries Value := [("id", unsigned 7), ("parent", signed (-1))]
    let es' : Entries Value := [("parent", signed (-1)), ("id", signed 7)]
    ((unsigned 7 == signed 7) = true ↔ (7 : Int) = 7) ∧
      (∀ x ∈ xs, x.integer?.isSome = true) ∧ (∀ y ∈ ys, y.integer?.isSome = true) ∧
      xs.map rounded? = ys.map rounded? ∧ (seq xs == seq ys) = true ∧
      es.names.Nodup ∧ es'.names.Nodup ∧ (∀ e ∈ es, e.2.IsSmall) ∧ (map es == map es') = true ∧
      ∀ name, (es.get? name).bind integer? = (es'.get? name).bind integer? := by
  intro xs ys es es'
  obtain ⟨hone, hseq, hmap⟩ := integers_beq_iff_rounded_alike
  have hxs : ∀ x ∈ xs, x.integer?.isSome = true := by decide
  have hys : ∀ y ∈ ys, y.integer?.isSome = true := by decide
  have hround : xs.map rounded? = ys.map rounded? := by decide
  have hn : es.names.Nodup := by decide
  have hn' : es'.names.Nodup := by decide
  have hsmall : ∀ e ∈ es, e.2.IsSmall := by
    simp only [es, List.forall_mem_cons]
    exact ⟨⟨7, rfl, by decide⟩, ⟨-1, rfl, by decide⟩, nofun⟩
  have hequal : (map es == map es') = true := by decide +kernel
  have hnames := (hmap hn hn' (fun e he => (hsmall e he).isSome) (by decide)).2 hsmall
  exact ⟨(hone rfl rfl).2.2 (.inl (by decide)), hxs, hys, hround, (hseq hxs hys).1.2 hround, hn, hn',
    hsmall, hequal, hnames.1 hequal⟩

/-- From `2 ^ 53` on, different integers are equal, as are sequences and maps of them, in both
forms. -/
theorem distinct_integers_beq :
    (unsigned 9007199254740993).integer? = some 9007199254740993 ∧
      (signed 9007199254740992).integer? = some 9007199254740992 ∧
      (unsigned 9007199254740993 == signed 9007199254740992) = true ∧
      (seq [unsigned 9007199254740993] == seq [unsigned 9007199254740992]) = true ∧
      (map [("id", signed (-9007199254740993))] == map [("id", signed (-9007199254740992))]) = true := by
  decide +kernel

end Value

end Stencil

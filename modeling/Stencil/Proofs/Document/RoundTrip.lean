import Mathlib.Data.List.Perm.Basic
import Stencil.Document.Basic
import Stencil.Proofs.Data.Carrier

/-!
# Documents and values

A document can be taken in as a value and written out again, and the same document comes back. A
value can be written out and taken in again if a document can hold all of it: what comes back is
equal, with signed integers from zero on without a sign, and with maps in whatever order the
document was kept.

* `Json.WellFormed`: documents as readers make them;
* `Json.Reordered`, `Json.WellFormed.reordered_sorted`: documents up to the order of keys;
* `Json.ofDatum_object`, `Json.ofValue_ofDatum`: a document as a value and back;
* `Json.wellFormed_ofValue`: what is written out is a document as readers make them;
* `Value.isLost`, `Value.ofDatum_beq_iff_of_reordered`: a value as a document and back;
* `Json.roundTrip`: both ways, whatever was converted before.
-/

namespace Stencil

variable {α β : Type}

/-! ## Entries of distinct names -/

namespace Entries

variable {es new : Entries α} {name : String}

/-- What is done to the values of entries leaves their names alone. -/
theorem names_map_snd (f : α → β) (es : Entries α) :
    names (es.map fun e => (e.1, f e.2)) = es.names := List.map_map

theorem insert_of_not_mem (h : name ∉ es.names) (a : α) : es.insert name a = es ++ [(name, a)] := by
  induction es with
  | nil => rfl
  | cons e rest ih =>
    obtain ⟨hne, hrest⟩ := List.ne_and_not_mem_of_not_mem_cons h
    rw [insert, if_neg (Ne.symm hne), ih hrest, List.cons_append]

theorem merge_of_nodup (h : (names (es ++ new)).Nodup) : es.merge new = es ++ new := by
  induction new generalizing es with
  | nil => exact (List.append_nil es).symm
  | cons e rest ih =>
    have hnames : names (es ++ e :: rest) = es.names ++ e.1 :: names rest := List.map_append
    have hnew : e.1 ∉ es.names := by
      rw [hnames] at h
      exact fun hmem => List.disjoint_of_nodup_append h hmem List.mem_cons_self
    have happend : es ++ e :: rest = es.insert e.1 e.2 ++ rest := by
      rw [insert_of_not_mem hnew, List.append_assoc, List.singleton_append]
    rw [happend] at h ⊢
    exact ih h

/-- Pairs of distinct names make the map that they are. -/
theorem ofList_of_nodup (h : es.names.Nodup) : ofList es = es := by
  have hnil : names ([] ++ es) = es.names := rfl
  exact merge_of_nodup (hnil ▸ h)

/-- Entries that all have a name are merged. -/
theorem writeAll_some (es : Entries α) (new : List (String × α)) :
    es.writeAll (new.map fun e => (some e.1, e.2)) = es.merge new := by
  induction new generalizing es with
  | nil => rfl
  | cons e rest ih => exact ih _

end Entries

/-- Walking a list and doing one thing to each item is mapping. -/
theorem eq_map_of_cons {f : α → β} {g : List α → List β} (hnil : g [] = [])
    (hcons : ∀ a as, g (a :: as) = f a :: g as) (as : List α) : g as = as.map f := by
  induction as with
  | nil => exact hnil
  | cons a as ih => rw [hcons, ih, List.map_cons]

namespace Json

open Value (ofDatum)

/-! ## Documents -/

/-- A document as a reader makes it: names are distinct in every object, only integers below zero
have a sign, and numbers in double precision are finite. -/
inductive WellFormed : Json → Prop
  | null : WellFormed null
  | bool (b : Bool) : WellFormed (bool b)
  | unsigned (n : UInt64) : WellFormed (unsigned n)
  | negative {n : Int64} (h : n < 0) : WellFormed (negative n)
  | float {x : Float} (h : x.isFinite = true) : WellFormed (float x)
  | string (s : String) : WellFormed (string s)
  | array {items : List Json} (h : ∀ j ∈ items, WellFormed j) : WellFormed (array items)
  | object {entries : Entries Json} (hn : entries.names.Nodup)
      (h : ∀ e ∈ entries, WellFormed e.2) : WellFormed (object entries)

/-- Two documents differ in nothing but the order of the keys of their objects. -/
inductive Reordered : Json → Json → Prop
  | null : Reordered null null
  | bool (b : Bool) : Reordered (bool b) (bool b)
  | unsigned (n : UInt64) : Reordered (unsigned n) (unsigned n)
  | negative (n : Int64) : Reordered (negative n) (negative n)
  | float (x : Float) : Reordered (float x) (float x)
  | string (s : String) : Reordered (string s) (string s)
  | array {items items' : List Json} (hlen : items.length = items'.length)
      (h : ∀ (i : Nat) j j', items[i]? = some j → items'[i]? = some j' → Reordered j j') :
      Reordered (array items) (array items')
  | object {es es' : Entries Json} (hnames : es.names.Perm es'.names)
      (h : ∀ name j j', (name, j) ∈ es → (name, j') ∈ es' → Reordered j j') :
      Reordered (object es) (object es')

variable {es : Entries Json}

theorem sortedItems_eq (items : List Json) : sortedItems items = items.map sorted :=
  eq_map_of_cons rfl (fun _ _ => rfl) items

theorem sortedEntries_eq (es : Entries Json) : sortedEntries es = es.map fun e => (e.1, e.2.sorted) :=
  eq_map_of_cons rfl (fun _ _ => rfl) es

theorem toData_eq (items : List Json) : toData items = items.map toDatum :=
  eq_map_of_cons rfl (fun _ _ => rfl) items

theorem toEntries_eq (es : Entries Json) :
    toEntries es = es.map fun e => (.string e.1, e.2.toDatum) :=
  eq_map_of_cons rfl (fun _ _ => rfl) es

theorem ofValues_eq (vs : List Value) : ofValues vs = vs.map ofValue :=
  eq_map_of_cons rfl (fun _ _ => rfl) vs

theorem ofEntries_eq (es : Entries Value) : ofEntries es = es.map fun e => (e.1, ofValue e.2) :=
  eq_map_of_cons rfl (fun _ _ => rfl) es

/-- The keys of a document can be put in order. -/
theorem WellFormed.reordered_sorted {j : Json} (h : j.WellFormed) : Reordered j j.sorted := by
  induction h with
  | null => exact .null
  | bool b => exact .bool b
  | unsigned n => exact .unsigned n
  | negative h => exact .negative _
  | float h => exact .float _
  | string s => exact .string s
  | @array items h ih =>
    rw [sorted, sortedItems_eq]
    refine .array (List.length_map _).symm fun i j j' hj hj' => ?_
    rw [List.getElem?_map, hj] at hj'
    cases hj'
    exact ih j (List.mem_of_getElem? hj)
  | @object es hn h ih =>
    have hnames : Entries.names (sortedEntries es) = es.names := by
      rw [sortedEntries_eq, Entries.names_map_snd]
    rw [sorted, Entries.ofList_of_nodup (hnames ▸ hn)]
    have hperm : (sortEntries (sortedEntries es)).Perm (sortedEntries es) := List.mergeSort_perm _ _
    refine .object (hnames ▸ (hperm.map Prod.fst).symm) fun name j j' hj hj' => ?_
    have hmem := hperm.mem_iff.1 hj'
    rw [sortedEntries_eq] at hmem
    obtain ⟨⟨_, i⟩, hi, heq⟩ := List.mem_map.1 hmem
    cases heq
    obtain rfl : j = i := Entries.eq_of_mem_of_get? hn hj (Entries.get?_of_mem hn hi)
    exact ih _ hj

/-! ## The values of documents -/

theorem ofDatum_unsigned (n : UInt64) : ofDatum (unsigned n).toDatum = .unsigned n := by
  have hholds : IntType.u64.holds n.toNat = true := by
    have hlt := n.toNat_lt
    rw [IntType.holds_u64_iff]
    omega
  show Value.ofInt .u64 n.toNat = _
  simp [Value.ofInt, IntType.isSigned, hholds]

theorem ofDatum_negative (n : Int64) : ofDatum (negative n).toDatum = .signed n := by
  have hholds : IntType.i64.holds n.toInt = true := by
    have hle := n.le_toInt
    have hlt := n.toInt_lt
    rw [IntType.holds_i64_iff]
    omega
  show Value.ofInt .i64 n.toInt = _
  simp [Value.ofInt, IntType.isSigned, hholds]

theorem ofDatum_array (items : List Json) :
    ofDatum (array items).toDatum = .seq (items.map fun j => ofDatum j.toDatum) := by
  rw [toDatum, toData_eq, Datum.ofDatum_seq, List.map_map]
  rfl

theorem ofDatum_object (h : es.names.Nodup) :
    ofDatum (object es).toDatum = .map (es.map fun e => (e.1, ofDatum e.2.toDatum)) := by
  have hrows : (toEntries es).map Datum.entryRow =
      (es.map fun e => (e.1, ofDatum e.2.toDatum)).map fun e => (some e.1, e.2) := by
    rw [toEntries_eq, List.map_map, List.map_map]
    rfl
  have hnodup : (Entries.names (es.map fun e => (e.1, ofDatum e.2.toDatum))).Nodup := by
    rwa [Entries.names_map_snd fun j : Json => ofDatum j.toDatum]
  rw [toDatum, Datum.ofDatum_map, hrows, Entries.writeAll_some]
  exact congrArg Value.map (Entries.ofList_of_nodup hnodup)

/-- The parts of a document are documents; keys are texts. -/
theorem exists_of_mem_parts {j : Json} {d : Datum} (h : d ∈ j.toDatum.parts) : ∃ k : Json, d = k.toDatum := by
  cases j with
  | array items =>
    rw [toDatum, toData_eq] at h
    obtain ⟨k, -, rfl⟩ := List.mem_map.1 h
    exact ⟨k, rfl⟩
  | object es =>
    rw [toDatum, toEntries_eq, Datum.parts, List.flatMap_map] at h
    obtain ⟨e, -, hd⟩ := List.mem_flatMap.1 h
    rcases List.mem_cons.1 hd with rfl | hd
    · exact ⟨string e.1, rfl⟩
    · exact ⟨e.2, List.mem_singleton.1 hd⟩
  | _ => cases h

/-- The value of a document has distinct names, for no value stands in a document. -/
theorem distinct_ofDatum (j : Json) : (ofDatum j.toDatum).Distinct := by
  refine Datum.distinct_ofDatum _ fun v h => ?_
  generalize hd : j.toDatum = d at h
  induction h generalizing j with
  | here => cases j <;> cases hd
  | part he _ ih =>
    subst hd
    obtain ⟨k, rfl⟩ := exists_of_mem_parts he
    exact ih k rfl

/-- A document is the document of its value. -/
theorem ofValue_ofDatum {j : Json} (h : j.WellFormed) : ofValue (ofDatum j.toDatum) = j := by
  induction h with
  | null => rfl
  | bool b => rfl
  | string s => rfl
  | unsigned n => rw [ofDatum_unsigned, ofValue]
  | negative h => rw [ofDatum_negative, ofValue, ofInt64, if_pos h]
  | @float x h =>
    show ofFloat x = _
    rw [ofFloat, if_pos h]
  | @array items h ih =>
    have hitems : items.map (fun j => ofValue (ofDatum j.toDatum)) = items :=
      (List.map_congr_left ih).trans (List.map_id _)
    rw [ofDatum_array, ofValue, ofValues_eq, List.map_map]
    exact congrArg array hitems
  | @object es hn h ih =>
    have hentries : es.map (fun e => (e.1, ofValue (ofDatum e.2.toDatum))) = es :=
      (List.map_congr_left fun e he => congrArg (Prod.mk e.1) (ih e he)).trans (List.map_id _)
    rw [ofDatum_object hn, ofValue, ofEntries_eq, List.map_map]
    exact congrArg object hentries

/-- What is written out is well-formed, whatever the value. -/
theorem wellFormed_ofValue {v : Value} (h : v.Distinct) : (ofValue v).WellFormed := by
  induction v using Value.parts_induction with
  | h v ih =>
    cases v with
    | undefined | none | invalid | bool | unsigned | string | callable =>
      rw [ofValue]
      constructor
    | signed n =>
      rw [ofValue, ofInt64]
      split
      · exact .negative ‹_›
      · exact .unsigned _
    | float x =>
      rw [ofValue, ofFloat]
      split
      · exact .float ‹_›
      · exact .null
    | seq items =>
      rw [ofValue, ofValues_eq]
      exact .array (List.forall_mem_map.2 fun v hv => ih v hv (h.part hv))
    | map entries =>
      rw [ofValue, ofEntries_eq]
      refine .object ((Entries.names_map_snd ofValue entries).symm ▸ h.nodup) ?_
      exact List.forall_mem_map.2 fun e he => ih e.2 (List.mem_map_of_mem he) (h.entry he)

end Json

namespace Value

open Json (Reordered ofInt64)

/-! ## The documents of values -/

/-- A document has no form for undefined, callable and invalid values, and none for numbers that
are not finite. -/
def isLost : Value → Bool
  | undefined | callable _ | invalid _ => true
  | float x => x.isNaN || x.isInf
  | _ => false

theorem isFinite_eq (x : Float) : x.isFinite = !(x.isNaN || x.isInf) := by
  simp only [Float.isFinite, Float.isNaN, Float.isInf, Float.Model.isFinite, Float.Model.isNaN,
    Float.Model.isInf]
  cases x.toModel.unpack <;> rfl

/-- A signed integer keeps its number, with a sign or without one. -/
theorem integer?_ofDatum_ofInt64 (n : Int64) : (ofDatum (ofInt64 n).toDatum).integer? = some n.toInt := by
  rw [ofInt64]
  split
  · rw [Json.ofDatum_negative, integer?]
  · rename_i hneg
    have hle : 0 ≤ n := Int64.not_lt.1 hneg
    rw [Json.ofDatum_unsigned, integer?, Int64.toNat_toUInt64_of_le hle, Int64.cast_toNatClampNeg n hle]

/-- The items of a sequence come back one by one. -/
theorem seq_beq_iff_of_reordered {items : List Value} {items' : List Json}
    (hlen : items.length = items'.length)
    (h : ∀ (i : Nat) w j, items[i]? = some w → items'[i]? = some j →
      ((ofDatum j.toDatum == w) = true ↔ ∀ u, Within u w → u.isLost = false)) :
    (ofDatum (Json.array items').toDatum == seq items) = true ↔
      ∀ w ∈ items, ∀ u, Within u w → u.isLost = false := by
  rw [Json.ofDatum_array, seq_beq_seq, equalItems_iff, List.length_map, and_iff_right hlen.symm]
  simp only [List.getElem?_map, Option.map_eq_some_iff, forall_exists_index, and_imp]
  constructor
  · intro hitems w hw
    obtain ⟨i, hi⟩ := List.mem_iff_getElem?.1 hw
    have hj := List.getElem?_eq_getElem (hlen ▸ (List.getElem?_eq_some_iff.1 hi).1)
    exact (h i w _ hi hj).1 (hitems i _ w _ hj rfl hi)
  · rintro hitems i _ w j hj rfl hi
    exact (h i w j hi hj).2 (hitems w (List.mem_of_getElem? hi))

/-- The entries of a map come back one by one, in whatever order. -/
theorem map_beq_iff_of_reordered {entries : Entries Value} {es : Entries Json}
    (hd : (map entries).Distinct) (hnames : entries.names.Perm es.names)
    (h : ∀ name w j, (name, w) ∈ entries → (name, j) ∈ es →
      ((ofDatum j.toDatum == w) = true ↔ ∀ u, Within u w → u.isLost = false)) :
    (ofDatum (Json.object es).toDatum == map entries) = true ↔
      ∀ e ∈ entries, ∀ u, Within u e.2 → u.isLost = false := by
  have hlen : es.length = entries.length := by
    have hperm := hnames.length_eq
    rwa [Entries.names, Entries.names, List.length_map, List.length_map, eq_comm] at hperm
  have hn := hd.nodup
  have hcomm {name : String} {w : Value} {j : Json} (he : (name, w) ∈ entries) :
      (w == ofDatum j.toDatum) = (ofDatum j.toDatum == w) :=
    beq_comm_of_distinct (hd.entry he) j.distinct_ofDatum
  rw [Json.ofDatum_object (hnames.nodup_iff.1 hn), map_beq_map, Bool.and_eq_true, equalEntries_iff, List.length_map, beq_iff_eq, and_iff_right hlen,
    List.forall_mem_map]
  constructor
  · rintro hentries ⟨name, w⟩ he
    obtain ⟨⟨_, j⟩, hj, rfl⟩ := List.mem_map.1 (hnames.subset (List.mem_map_of_mem he))
    obtain ⟨y, hy, hbeq⟩ := hentries _ hj
    obtain rfl : w = y := Entries.eq_of_mem_of_get? hn he hy
    exact (h _ w j he hj).1 ((hcomm he).symm.trans hbeq)
  · rintro hentries ⟨name, j⟩ hj
    obtain ⟨⟨_, w⟩, he, rfl⟩ := List.mem_map.1 (hnames.symm.subset (List.mem_map_of_mem hj))
    exact ⟨w, Entries.get?_of_mem hn he, (hcomm he).trans ((h _ w j he hj).2 (hentries _ he))⟩

/-- What is written out and taken in again equals the value if nothing of it was lost. -/
theorem ofDatum_beq_iff_of_reordered {v : Value} (hd : v.Distinct) {j : Json}
    (h : Reordered (Json.ofValue v) j) :
    (ofDatum j.toDatum == v) = true ↔ ∀ u, Within u v → u.isLost = false := by
  induction v using parts_induction generalizing j with
  | h v ih =>
    rw [forall_within_iff]
    cases v with
    | undefined | invalid m | callable name =>
      -- Null or a text in their place, which they do not equal.
      rw [Json.ofValue] at h
      cases h
      refine iff_of_false (fun hbeq => ?_) fun hlost => nomatch hlost.1
      cases ((beq_iff_alike _ _).1 hbeq).kind_eq
    | none =>
      rw [Json.ofValue] at h
      cases h
      exact iff_of_true ((beq_iff_alike _ _).2 .none) ⟨rfl, nofun⟩
    | bool b =>
      rw [Json.ofValue] at h
      cases h
      exact iff_of_true ((beq_iff_alike _ _).2 (.bool b)) ⟨rfl, nofun⟩
    | string s =>
      rw [Json.ofValue] at h
      cases h
      exact iff_of_true ((beq_iff_alike _ _).2 (.string s)) ⟨rfl, nofun⟩
    | unsigned n =>
      rw [Json.ofValue] at h
      cases h
      rw [Json.ofDatum_unsigned]
      exact iff_of_true ((beq_iff_alike _ _).2 (alike_of_integer? rfl rfl)) ⟨rfl, nofun⟩
    | signed n =>
      have hinteger := integer?_ofDatum_ofInt64 n
      have hj : j = ofInt64 n := by
        rw [Json.ofValue, ofInt64] at h
        rw [ofInt64]
        split at h <;> cases h <;> simp [*]
      rw [hj]
      exact iff_of_true ((beq_iff_alike _ _).2 (alike_of_integer? hinteger rfl)) ⟨rfl, nofun⟩
    | float x =>
      rw [Json.ofValue, Json.ofFloat, isFinite_eq] at h
      cases hlost : x.isNaN || x.isInf with
      | true =>
        rw [hlost] at h
        cases h
        refine iff_of_false (fun hbeq => ?_) fun hkept => nomatch hlost.symm.trans hkept.1
        cases ((beq_iff_alike _ _).1 hbeq).kind_eq
      | false =>
        rw [hlost] at h
        cases h
        have hbeq := (float_beq_self_iff x).2 (Bool.or_eq_false_iff.1 hlost).1
        exact iff_of_true ((float_beq_float x x).trans hbeq) ⟨hlost, nofun⟩
    | seq items =>
      rw [Json.ofValue, Json.ofValues_eq] at h
      cases h with
      | array hlen h =>
        rw [List.length_map] at hlen
        refine Iff.trans ?_ (and_iff_right rfl).symm
        refine seq_beq_iff_of_reordered hlen fun i w j hw hj => ?_
        have hmem : w ∈ items := List.mem_of_getElem? hw
        have hvalue : (items.map Json.ofValue)[i]? = some (Json.ofValue w) := by
          rw [List.getElem?_map, hw]
          rfl
        exact ih w hmem (hd.part hmem) (h i _ j hvalue hj)
    | map entries =>
      rw [Json.ofValue, Json.ofEntries_eq] at h
      cases h with
      | object hnames h =>
        rw [Entries.names_map_snd] at hnames
        refine Iff.trans ?_ ((and_iff_right rfl).trans List.forall_mem_map).symm
        refine map_beq_iff_of_reordered hd hnames fun name w j he hj => ?_
        have hmem : w ∈ parts (map entries) := List.mem_map_of_mem he
        have hvalue : (name, Json.ofValue w) ∈ entries.map fun e => (e.1, Json.ofValue e.2) :=
          List.mem_map_of_mem (f := fun e : String × Value => (e.1, Json.ofValue e.2)) he
        exact ih w hmem (hd.part hmem) (h name _ j hvalue hj)

end Value

/-- A document that is taken in as a value and written out is the same document. A value that is
written out and taken in again is equal if it holds nothing undefined, callable or invalid and no
number that is not finite, and only then, in whatever order the document was kept. Neither depends
on what was converted before, and the registry is left as it was, but for the last handle. -/
theorem Json.roundTrip :
    (∀ j : Json, j.WellFormed → ofValue (Value.ofDatum j.toDatum) = j) ∧
    (∀ v : Value, v.Distinct → (ofValue v).WellFormed ∧ ∀ j, Reordered (ofValue v) j →
      ((Value.ofDatum j.toDatum == v) = true ↔ ∀ u, Value.Within u v → u.isLost = false)) ∧
    ∀ (j : Json) (r : Registry), r.waiting = [] →
      ∃ last, j.toDatum.convert r = (Value.ofDatum j.toDatum, { r with last }) := by
  refine ⟨fun j hj => ofValue_ofDatum hj, fun v hd => ?_, fun j r hr => j.toDatum.convert_eq r hr⟩
  exact ⟨wellFormed_ofValue hd, fun j hj => Value.ofDatum_beq_iff_of_reordered hd hj⟩

/-- Nested data both ways, and while another conversion is running; the value comes back with its
entries in the order of their keys, and with its signed integer without a sign. -/
theorem Json.roundTrip_nested :
    let half : Float := .ofBits 0x3fe0000000000000
    let r : Registry := ⟨true, 41, []⟩
    let j := object [("b", array [unsigned 1, negative (-2), float half]),
      ("a", object [("c", null), ("", string "s")])]
    let v : Value := .map [("n", .signed 1), ("all", .seq [.float half, .none, .bool true])]
    j.WellFormed ∧ ofValue (Value.ofDatum j.toDatum) = j ∧ v.Distinct ∧
      Reordered (ofValue v) (ofValue v).sorted ∧ (∀ u, Value.Within u v → u.isLost = false) ∧
      (Value.ofDatum (ofValue v).sorted.toDatum == v) = true ∧ r.waiting = [] ∧
      ∃ last, j.toDatum.convert r = (Value.ofDatum j.toDatum, { r with last }) := by
  intro half r j v
  have hj : j.WellFormed := by
    refine .object (by decide) ?_
    simp only [List.forall_mem_cons]
    refine ⟨.array ?_, .object (by decide) ?_, nofun⟩
    · simp only [List.forall_mem_cons]
      exact ⟨.unsigned 1, .negative (by decide), .float (by decide), nofun⟩
    · simp only [List.forall_mem_cons]
      exact ⟨.null, .string "s", nofun⟩
  have hd : v.Distinct := by
    simp only [v, Value.distinct_map, Value.distinct_seq, List.forall_mem_cons]
    exact ⟨by decide, .of_parts rfl nofun,
      ⟨.of_parts rfl nofun, .of_parts rfl nofun, .of_parts rfl nofun, nofun⟩, nofun⟩
  have hkept : ∀ u, Value.Within u v → u.isLost = false := by
    have hleaf {w : Value} (hparts : w.parts = []) (hw : w.isLost = false) :
        ∀ u, Value.Within u w → u.isLost = false :=
      Value.forall_within_iff.2 ⟨hw, by simp [hparts]⟩
    have hlist : ∀ u, Value.Within u (.seq [.float half, .none, .bool true]) → u.isLost = false := by
      refine Value.forall_within_iff.2 ⟨rfl, ?_⟩
      simp only [Value.parts, List.forall_mem_cons]
      exact ⟨hleaf rfl (by decide), hleaf rfl rfl, hleaf rfl rfl, nofun⟩
    refine Value.forall_within_iff.2 ⟨rfl, ?_⟩
    simp only [v, Value.parts, List.map_cons, List.forall_mem_cons]
    exact ⟨hleaf rfl rfl, hlist, nofun⟩
  obtain ⟨hin, hout, hconvert⟩ := roundTrip
  obtain ⟨hwell, hback⟩ := hout v hd
  have hreordered := hwell.reordered_sorted
  exact ⟨hj, hin j hj, hd, hreordered, hkept, (hback _ hreordered).2 hkept, rfl, hconvert j r rfl⟩

end Stencil

import Stencil.Proofs.Data.Composition
import Stencil.Proofs.Value.Entries

/-!
# Values whose maps have distinct names

A map is a list of entries, and nothing in it says that a name stands there once. What makes
maps writes them entry by entry, and so never doubles a name: values that are made of host data,
of pairs or by merging have distinct names in all their maps, if the values they are made of have.

* `Value.parts`, `Value.parts_induction`, `Value.Within`, `Value.forall_within_iff`: the values
  inside a value;
* `Value.Distinct`: no map at any depth has two entries of one name;
* `Datum.distinct_ofDatum`, `Value.distinct_context`: values that are made are such.
-/

namespace Stencil

namespace Value

/-! ## Parts -/

/-- The values that a value is made of directly. -/
def parts : Value → List Value
  | seq items => items
  | map entries => entries.map Prod.snd
  | _ => []

theorem sizeOf_lt_of_mem_parts {v w : Value} (h : w ∈ v.parts) : sizeOf w < sizeOf v := by
  cases v with
  | seq items =>
    have hlt : sizeOf w < sizeOf items := List.sizeOf_lt_of_mem h
    rw [seq.sizeOf_spec]
    omega
  | map entries =>
    obtain ⟨⟨key, u⟩, he, rfl⟩ := List.mem_map.1 h
    have hlt : sizeOf (key, u) < sizeOf entries := List.sizeOf_lt_of_mem he
    rw [Prod.mk.sizeOf_spec] at hlt
    rw [map.sizeOf_spec]
    show sizeOf u < _
    omega
  | _ => cases h

/-- What holds of a value whenever it holds of its parts holds of all values. -/
theorem parts_induction {motive : Value → Prop} (h : ∀ v, (∀ w ∈ v.parts, motive w) → motive v)
    (v : Value) : motive v := h v fun w _ => parts_induction h w
termination_by sizeOf v
decreasing_by exact sizeOf_lt_of_mem_parts ‹_›

/-- A value stands in another one, at some depth. -/
inductive Within (u : Value) : Value → Prop
  | here : Within u u
  | part {v w : Value} (hw : w ∈ v.parts) (h : Within u w) : Within u v

/-- Something holds of all that stands in a value if it holds of the value, and of all that stands
in its parts. -/
theorem forall_within_iff {p : Value → Prop} {v : Value} :
    (∀ u, Within u v → p u) ↔ p v ∧ ∀ w ∈ v.parts, ∀ u, Within u w → p u := by
  constructor
  · exact fun h => ⟨h v .here, fun w hw u hu => h u (.part hw hu)⟩
  · rintro ⟨hv, hparts⟩ u hu
    cases hu with
    | here => exact hv
    | part hw hu => exact hparts _ hw u hu

/-- No map in a value has two entries of one name. -/
def Distinct (v : Value) : Prop :=
  ∀ entries, Within (.map entries) v → (Entries.names entries).Nodup

namespace Distinct

variable {v w : Value} {items : List Value} {entries : Entries Value}

theorem part (h : v.Distinct) (hw : w ∈ v.parts) : w.Distinct :=
  fun entries hm => h entries (.part hw hm)

theorem nodup (h : (map entries).Distinct) : entries.names.Nodup := h entries .here

/-- A value without entries has distinct names if its parts have. -/
theorem of_parts (hentries : v.entries? = Option.none) (h : ∀ w ∈ v.parts, w.Distinct) :
    v.Distinct := by
  intro entries hm
  cases hm with
  | here => cases hentries
  | part hw hm => exact h _ hw entries hm

theorem seq (h : ∀ v ∈ items, v.Distinct) : (seq items).Distinct := of_parts rfl h

theorem map (hn : entries.names.Nodup) (h : ∀ e ∈ entries, e.2.Distinct) :
    (map entries).Distinct := by
  intro entries' hm
  cases hm with
  | here => exact hn
  | part hw hm =>
    obtain ⟨e, he, rfl⟩ := List.mem_map.1 hw
    exact h e he entries' hm

theorem entry (h : (Value.map entries).Distinct) {e : String × Value} (he : e ∈ entries) :
    e.2.Distinct :=
  h.part (List.mem_map_of_mem he)

end Distinct

theorem distinct_seq {items : List Value} : (seq items).Distinct ↔ ∀ v ∈ items, v.Distinct :=
  ⟨fun h _ hv => h.part hv, .seq⟩

theorem distinct_map {entries : Entries Value} :
    (map entries).Distinct ↔ entries.names.Nodup ∧ ∀ e ∈ entries, e.2.Distinct :=
  ⟨fun h => ⟨h.nodup, fun _ he => h.entry he⟩, fun h => .map h.1 h.2⟩

/-! ## Values that are made -/

variable {entries : Entries Value} {v : Value}

theorem distinct_insert (h : (map entries).Distinct) (hv : v.Distinct) (name : String) :
    (map (entries.insert name v)).Distinct := by
  refine .map (Entries.nodup_insert h.nodup) fun e he => ?_
  rcases Entries.mem_insert he with rfl | he
  · exact hv
  · exact h.entry he

theorem distinct_mergeEntries (h : (map entries).Distinct) {new : List (String × Value)}
    (hnew : ∀ e ∈ new, e.2.Distinct) : (map (entries.merge new)).Distinct := by
  induction new generalizing entries with
  | nil => exact h
  | cons e rest ih =>
    obtain ⟨hv, hrest⟩ := List.forall_mem_cons.1 hnew
    exact ih (distinct_insert h hv e.1) hrest

theorem distinct_empty : (map []).Distinct := .map List.nodup_nil nofun

theorem distinct_ofInt (t : IntType) (n : Int) : (ofInt t n).Distinct := by
  rw [ofInt]
  split <;> split <;> exact .of_parts rfl nofun

theorem distinct_single {name : String} (hv : v.Distinct) : (single name v).Distinct :=
  distinct_insert distinct_empty hv name

theorem distinct_ofPairs {pairs : List (String × Value)} (h : ∀ e ∈ pairs, e.2.Distinct) :
    (ofPairs pairs).Distinct := distinct_mergeEntries distinct_empty h

theorem distinct_foldl_merge (h : (map entries).Distinct) {vs : List Value}
    (hvs : ∀ v ∈ vs, v.Distinct) :
    (map (vs.foldl (fun out v => Entries.merge out (v.entries?.getD [])) entries)).Distinct := by
  induction vs generalizing entries with
  | nil => exact h
  | cons v rest ih =>
    obtain ⟨hv, hrest⟩ := List.forall_mem_cons.1 hvs
    refine ih (distinct_mergeEntries h fun e he => ?_) hrest
    cases v with
    | map entries => exact hv.entry he
    | _ => cases he

theorem distinct_merge {vs : List Value} (h : ∀ v ∈ vs, v.Distinct) : (merge vs).Distinct :=
  distinct_foldl_merge distinct_empty h

/-- The context of a render has distinct names. -/
theorem distinct_context {pairs : List (String × Value)} {bases : List Value}
    (hpairs : ∀ e ∈ pairs, e.2.Distinct) (hbases : ∀ v ∈ bases, v.Distinct) :
    (context pairs bases).Distinct := by
  have hmap := distinct_ofPairs hpairs
  rw [context]
  split
  · exact hmap
  · refine distinct_merge fun v hv => ?_
    rcases List.mem_append.1 hv with hv | hv
    · exact hbases v (List.mem_reverse.1 hv)
    · rwa [List.mem_singleton.1 hv]

theorem distinct_writeAll (h : (map entries).Distinct) {rows : List (Option String × Value)}
    (hrows : ∀ row ∈ rows, row.2.Distinct) : (map (entries.writeAll rows)).Distinct := by
  induction rows generalizing entries with
  | nil => exact h
  | cons row rest ih =>
    obtain ⟨name?, v⟩ := row
    obtain ⟨hv, hrest⟩ := List.forall_mem_cons.1 hrows
    cases name? with
    | none => exact ih h hrest
    | some name => exact ih (distinct_insert h hv name) hrest

end Value

namespace Datum

open Value (ofDatum)

theorem sizeOf_lt_of_mem_parts {d e : Datum} (h : e ∈ d.parts) : sizeOf e < sizeOf d := by
  cases d with
  | some d | newtypeStruct name d | newtypeVariant name index variant d | converted d =>
    obtain rfl := List.mem_singleton.1 h
    decreasing_tactic
  | seq size items | tuple items | tupleStruct name items | tupleVariant name index variant items =>
    have hlt : sizeOf e < sizeOf items := List.sizeOf_lt_of_mem h
    simp only [seq.sizeOf_spec, tuple.sizeOf_spec, tupleStruct.sizeOf_spec, tupleVariant.sizeOf_spec]
    omega
  | map size entries =>
    obtain ⟨⟨key, d⟩, he, hd⟩ := List.mem_flatMap.1 h
    have hlt : sizeOf (key, d) < sizeOf entries := List.sizeOf_lt_of_mem he
    rw [Prod.mk.sizeOf_spec] at hlt
    rw [map.sizeOf_spec]
    rcases List.mem_cons.1 hd with rfl | hd
    · omega
    · obtain rfl := List.mem_singleton.1 hd
      omega
  | struct name fields | structVariant name index variant fields =>
    obtain ⟨⟨field, d⟩, he, rfl⟩ := List.mem_map.1 h
    have hlt : sizeOf (field, d) < sizeOf fields := List.sizeOf_lt_of_mem he
    rw [Prod.mk.sizeOf_spec] at hlt
    simp only [struct.sizeOf_spec, structVariant.sizeOf_spec]
    omega
  | _ => cases h

theorem ofDatum_unitVariant_eq (name variant : String) (index : UInt32) :
    ofDatum (.unitVariant name index variant) =
      if name = handleMark ∧ variant = handleMark then .invalid "value handle not in registry"
      else .string variant := by
  rw [ofDatum_eq, taken_eq_of_settles (d := .unitVariant name index variant) (settles_takeVariant _ _ _)]
  split <;> rfl

/-- Values made of host data have distinct names if those that stand in the data have. -/
theorem distinct_ofDatum (d : Datum) (h : ∀ v, Inside (.value v) d → v.Distinct) :
    (ofDatum d).Distinct := by
  have hparts : ∀ e ∈ d.parts, (ofDatum e).Distinct := fun e he =>
    distinct_ofDatum e fun v hv => h v (.part he hv)
  cases d with
  | bool | single | double | char | string | none | unit | unitStruct | failing | flag =>
    exact .of_parts rfl nofun
  | int t n => exact Value.distinct_ofInt t n
  | bytes bs =>
    refine .seq fun v hv => ?_
    obtain ⟨b, -, rfl⟩ := List.mem_map.1 hv
    exact .of_parts rfl nofun
  | unitVariant name index variant =>
    rw [ofDatum_unitVariant_eq]
    split <;> exact .of_parts rfl nofun
  | value v =>
    rw [ofDatum_value]
    exact h v .here
  | some d | newtypeStruct name d | converted d =>
    simp only [ofDatum_some, ofDatum_newtypeStruct, ofDatum_converted]
    exact hparts d List.mem_cons_self
  | newtypeVariant name index variant d =>
    rw [ofDatum_newtypeVariant]
    exact Value.distinct_single (hparts d List.mem_cons_self)
  | seq size items | tuple items | tupleStruct name items =>
    simp only [ofDatum_seq, ofDatum_tuple, ofDatum_tupleStruct]
    exact .seq (List.forall_mem_map.2 hparts)
  | tupleVariant name index variant items =>
    rw [ofDatum_tupleVariant]
    exact Value.distinct_single (.seq (List.forall_mem_map.2 hparts))
  | map size entries =>
    rw [ofDatum_map]
    exact Value.distinct_writeAll Value.distinct_empty (List.forall_mem_map.2 fun e he =>
      hparts e.2 (List.mem_flatMap.2 ⟨e, he, by simp⟩))
  | struct name fields =>
    rw [ofDatum_struct]
    exact Value.distinct_writeAll Value.distinct_empty (List.forall_mem_map.2 fun f hf =>
      hparts f.2 (List.mem_map_of_mem hf))
  | structVariant name index variant fields =>
    rw [ofDatum_structVariant]
    exact Value.distinct_single (Value.distinct_writeAll Value.distinct_empty
      (List.forall_mem_map.2 fun f hf => hparts f.2 (List.mem_map_of_mem hf)))
termination_by sizeOf d
decreasing_by exact sizeOf_lt_of_mem_parts he

end Datum

end Stencil

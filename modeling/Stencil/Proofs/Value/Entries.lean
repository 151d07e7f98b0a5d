import Mathlib.Data.List.Nodup
import Mathlib.Data.List.Perm.Subperm
import Stencil.Value.Merge

/-!
# Entries by name

What a look-up sees of a list of entries that is written to, merged or put in another order.
The values that stand under a name tell it all, and what is done under other names leaves
them alone.

* `Entries.under`: the values under a name;
* `Entries.get?_of_mem`, `Entries.nodup_insert`: maps of distinct names, and that they stay so;
* `Entries.get?_merge`: a look-up in a merged map;
* `Entries.ChangedOutside`: changes that do not concern some names;
* `Entries.ChangedOutside.under_eq`: they leave the values under these names alone;
* `Entries.Agree`: two maps answer alike under some names.
-/

namespace Stencil

variable {α : Type}

namespace Entries

variable {es es' new : Entries α} {name other : String} {names : List String} {a : α}

/-- The values that stand under a name, in order. -/
def under (es : Entries α) (name : String) : List α := (es.filter (·.1 = name)).map Prod.snd

theorem under_cons_self (es : Entries α) (name : String) (a : α) :
    under ((name, a) :: es) name = a :: es.under name := by
  simp [under]

theorem under_cons_of_ne (es : Entries α) (a : α) (h : other ≠ name) :
    under ((other, a) :: es) name = es.under name := by
  simp [under, h]

theorem get?_eq_head?_under (es : Entries α) (name : String) : es.get? name = (es.under name).head? := by
  unfold get?
  induction es with
  | nil => rfl
  | cons e rest ih =>
    obtain ⟨n, b⟩ := e
    by_cases h : n = name
    · subst h
      rw [under_cons_self, List.lookup_cons_self, List.head?_cons]
    · have hne : (name == n) = false := beq_eq_false_iff_ne.2 (Ne.symm h)
      rw [under_cons_of_ne _ _ h, List.lookup_cons, hne]
      exact ih

theorem under_insert_of_ne (es : Entries α) (a : α) (h : other ≠ name) :
    (es.insert other a).under name = es.under name := by
  induction es with
  | nil => exact under_cons_of_ne [] a h
  | cons e rest ih =>
    obtain ⟨n, b⟩ := e
    rw [insert]
    split
    · rename_i hn
      subst hn
      rw [under_cons_of_ne _ _ h, under_cons_of_ne _ _ h]
    · by_cases hn : n = name
      · subst hn
        rw [under_cons_self, under_cons_self, ih]
      · rw [under_cons_of_ne _ _ hn, under_cons_of_ne _ _ hn, ih]

theorem under_erase_of_ne (es : Entries α) (h : other ≠ name) :
    (es.erase other).under name = es.under name := by
  induction es with
  | nil => rfl
  | cons e rest ih =>
    obtain ⟨n, b⟩ := e
    by_cases ho : n = other
    · subst ho
      have herase : erase ((n, b) :: rest) n = rest := by simp [erase]
      rw [herase, under_cons_of_ne _ _ h]
    · have herase : erase ((n, b) :: rest) other = (n, b) :: erase rest other := by simp [erase, ho]
      rw [herase]
      by_cases hn : n = name
      · subst hn
        rw [under_cons_self, under_cons_self, ih]
      · rw [under_cons_of_ne _ _ hn, under_cons_of_ne _ _ hn, ih]

/-- In a map of distinct names at most one value stands under a name. -/
theorem length_under_le_one (h : es.names.Nodup) (name : String) : (es.under name).length ≤ 1 := by
  have hcount : (es.under name).length = es.names.count name := by
    rw [under, List.length_map, names, List.count_eq_length_filter, List.filter_map, List.length_map]
    congr 1
  rw [hcount]
  exact List.nodup_iff_count_le_one.1 h name

/-- The order of the entries does not matter in a map of distinct names. -/
theorem under_eq_of_perm (hn : es.names.Nodup) (h : es.Perm es') (name : String) :
    es.under name = es'.under name := by
  have hp : (es.under name).Perm (es'.under name) := (h.filter _).map _
  have hlen := length_under_le_one hn name
  match hu : es.under name with
  | [] => exact (List.perm_nil.1 (hu ▸ hp).symm).symm
  | [a] => exact (List.perm_singleton.1 (hu ▸ hp).symm).symm
  | _ :: _ :: _ =>
    rw [hu] at hlen
    simp at hlen

/-! ## Distinct names -/

theorem mem_of_get? (h : es.get? name = some a) : (name, a) ∈ es := by
  obtain ⟨before, after, rfl, -⟩ := List.lookup_eq_some_iff.1 h
  exact List.mem_append_right _ List.mem_cons_self

theorem mem_names_of_get? (h : es.get? name = some a) : name ∈ es.names :=
  List.mem_map_of_mem (f := Prod.fst) (mem_of_get? h)

theorem get?_eq_none_iff : es.get? name = none ↔ name ∉ es.names := by
  rw [get?, names, List.lookup_eq_none_iff]
  simp only [List.mem_map, not_exists, not_and, bne_iff_ne, ne_eq, @eq_comm _ name]

/-- In a map of distinct names every entry is found. -/
theorem get?_of_mem (hn : es.names.Nodup) (h : (name, a) ∈ es) : es.get? name = some a := by
  cases hg : es.get? name with
  | none => exact absurd (List.mem_map_of_mem h) (get?_eq_none_iff.1 hg)
  | some b =>
    have hb := mem_of_get? hg
    exact congrArg some (congrArg Prod.snd (List.inj_on_of_nodup_map hn hb h rfl))

theorem eq_of_mem_of_get? {b : α} (hn : es.names.Nodup) (h : (name, a) ∈ es)
    (hget : es.get? name = some b) : a = b :=
  Option.some.inj ((get?_of_mem hn h).symm.trans hget)

/-- Of two maps with equally many entries, one of distinct names has all names of the other if
the other has all of its names. -/
theorem names_subset_of_length_eq (hn : es.names.Nodup) (hlen : es.length = es'.length)
    (h : es.names ⊆ es'.names) : es'.names ⊆ es.names := by
  have hle : es'.names.length ≤ es.names.length := by
    rw [names, names, List.length_map, List.length_map]
    exact Nat.le_of_eq hlen.symm
  exact ((List.subperm_of_subset hn h).perm_of_length_le hle).symm.subset

theorem mem_names_insert : other ∈ (es.insert name a).names ↔ other = name ∨ other ∈ es.names := by
  induction es with
  | nil => simp [insert, names]
  | cons e rest ih =>
    obtain ⟨n, b⟩ := e
    by_cases hn : n = name
    · simp [insert, names, hn]
    · rw [insert, if_neg hn]
      show other ∈ n :: names _ ↔ other = name ∨ other ∈ n :: names rest
      rw [List.mem_cons, List.mem_cons, ih]
      tauto

/-- What is written does not double a name. -/
theorem nodup_insert (h : es.names.Nodup) : (es.insert name a).names.Nodup := by
  induction es with
  | nil => exact List.nodup_singleton name
  | cons e rest ih =>
    obtain ⟨n, b⟩ := e
    obtain ⟨hn, hrest⟩ := List.nodup_cons.1 h
    rw [insert]
    split
    · exact List.nodup_cons.2 ⟨hn, hrest⟩
    · rename_i hne
      refine List.nodup_cons.2 ⟨fun hmem => ?_, ih hrest⟩
      exact (mem_names_insert.1 hmem).elim hne hn

theorem mem_insert {e : String × α} (h : e ∈ es.insert name a) : e = (name, a) ∨ e ∈ es := by
  induction es with
  | nil => exact .inl (List.mem_singleton.1 h)
  | cons e' rest ih =>
    obtain ⟨n, b⟩ := e'
    rw [insert] at h
    split at h
    · rename_i hn
      subst hn
      exact (List.mem_cons.1 h).imp_right (List.mem_cons_of_mem _)
    · rcases List.mem_cons.1 h with rfl | h
      · exact .inr List.mem_cons_self
      · exact (ih h).imp_right (List.mem_cons_of_mem _)

/-! ## Merging -/

/-- Under a name a merged map has the last value of the map that is written over, if that has
one, and else the value of the first. -/
theorem get?_merge (es new : Entries α) (name : String) :
    (es.merge new).get? name = (new.under name).getLast?.or (es.get? name) := by
  induction new generalizing es with
  | nil => rfl
  | cons e rest ih =>
    obtain ⟨n, b⟩ := e
    show ((es.insert n b).merge rest).get? name = _
    rw [ih, get?_insert]
    by_cases hn : n = name
    · subst hn
      rw [if_pos rfl, under_cons_self, List.getLast?_cons]
      cases (under rest n).getLast? with
      | none => rfl
      | some _ => rfl
    · rw [if_neg (Ne.symm hn), under_cons_of_ne _ _ hn]

/-! ## Changes that do not concern some names -/

/-- A map is changed outside some names: entries are added, replaced or removed under other
names, or put in another order. -/
inductive ChangedOutside (names : List String) : Entries α → Entries α → Prop
  | refl (es : Entries α) : ChangedOutside names es es
  | insert {name : String} (h : name ∉ names) (es : Entries α) (a : α) :
      ChangedOutside names es (es.insert name a)
  | erase {name : String} (h : name ∉ names) (es : Entries α) : ChangedOutside names es (es.erase name)
  | permute {es es' : Entries α} (hn : es.names.Nodup) (h : es.Perm es') : ChangedOutside names es es'
  | trans {es es' es'' : Entries α} (h : ChangedOutside names es es')
      (h' : ChangedOutside names es' es'') : ChangedOutside names es es''

theorem ChangedOutside.under_eq (h : ChangedOutside names es es') (hn : name ∈ names) :
    es.under name = es'.under name := by
  induction h with
  | refl _ => rfl
  | insert h es a => exact (under_insert_of_ne es a (ne_of_mem_of_not_mem hn h).symm).symm
  | erase h es => exact (under_erase_of_ne es (ne_of_mem_of_not_mem hn h).symm).symm
  | permute hd h => exact under_eq_of_perm hd h name
  | trans _ _ ih ih' => exact ih.trans ih'

/-- Two maps have the same values, or both none, under some names. -/
def Agree (names : List String) (es es' : Entries α) : Prop := ∀ name ∈ names, es.get? name = es'.get? name

theorem agree_of_under (h : ∀ name ∈ names, es.under name = es'.under name) : Agree names es es' := by
  intro name hn
  rw [get?_eq_head?_under, get?_eq_head?_under, h name hn]

theorem ChangedOutside.agree (h : ChangedOutside names es es') : Agree names es es' :=
  agree_of_under fun _ hn => h.under_eq hn

/-- What is merged over changed entries, or is changed itself, answers alike under the names
that the changes do not concern. -/
theorem ChangedOutside.merge {new' : Entries α} (h : ChangedOutside names es es')
    (hnew : ChangedOutside names new new') :
    Agree names ((Entries.merge [] es).merge new) ((Entries.merge [] es').merge new') := by
  intro name hn
  rw [get?_merge, get?_merge, get?_merge, get?_merge, h.under_eq hn, hnew.under_eq hn]

end Entries

end Stencil

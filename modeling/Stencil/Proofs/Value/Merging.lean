import Mathlib.Data.List.Induction
import Stencil.Proofs.Cache.Consistency
import Stencil.Proofs.Value.Entries

/-!
# Precedence in merged maps

A name has its place in a merged map from the first map that has it, and its value from the last.
Maps can be merged in groups: the entries of a group are written as they would be one by one. In a
context the bases are merged from the last to the first and the explicit pairs come in the end, so
that pairs go before bases and earlier bases before later ones; and a template is rendered in one
map, in which the entries of its context go before the globals.

* `Entries.names_ofList`, `Entries.merge_ofList`: the places of written names, and writing what was
  written before;
* `Value.mergeEntries_eq`: merging writes all entries of all maps in a row;
* `Value.find?_merge`, `Value.merge_map_merge`: precedence, and merging in groups;
* `Value.find?_context`: contexts;
* `renderedIn`, `Environment.render_eq_renderedIn`: a template is rendered in the one map it sees;
* `Value.merge_precedence`: all of it.
-/

namespace Stencil

variable {α β : Type}

/-! ## Written entries -/

namespace Entries

variable {es new : Entries α} {pairs : List (String × α)} {name other : String} {a b : α}

theorem names_insert (es : Entries α) (name : String) (a : α) :
    (es.insert name a).names = if name ∈ es.names then es.names else es.names ++ [name] := by
  induction es with
  | nil => rfl
  | cons e rest ih =>
    obtain ⟨n, b⟩ := e
    by_cases hn : n = name
    · simp [insert, names, hn]
    · have hmem : name ∈ names ((n, b) :: rest) ↔ name ∈ names rest :=
        List.mem_cons.trans (or_iff_right (Ne.symm hn))
      rw [insert, if_neg hn]
      simp only [hmem]
      show n :: names (insert rest name a) = _
      rw [ih]
      split <;> rfl

theorem ofList_concat (pairs : List (String × α)) (name : String) (a : α) :
    ofList (pairs ++ [(name, a)]) = (ofList pairs).insert name a := List.foldl_concat ..

theorem merge_concat (es : Entries α) (pairs : List (String × α)) (name : String) (a : α) :
    es.merge (pairs ++ [(name, a)]) = (es.merge pairs).insert name a := List.foldl_concat ..

theorem eraseDups_concat (names : List String) (name : String) :
    (names ++ [name]).eraseDups =
      if name ∈ names.eraseDups then names.eraseDups else names.eraseDups ++ [name] := by
  simp only [List.mem_eraseDups, List.eraseDups_append]
  split <;> simp_all [List.removeAll, List.eraseDups_cons]

/-- Every name has the place at which it is first written. -/
theorem names_ofList (pairs : List (String × α)) : (ofList pairs).names = (names pairs).eraseDups := by
  induction pairs using List.reverseRecOn with
  | nil => rfl
  | append_singleton pairs e ih =>
    obtain ⟨n, b⟩ := e
    have hnames : names (pairs ++ [(n, b)]) = names pairs ++ [n] := List.map_append
    rw [ofList_concat, names_insert, hnames, eraseDups_concat, ih]

theorem nodup_merge (h : es.names.Nodup) : (es.merge new).names.Nodup := by
  induction new generalizing es with
  | nil => exact h
  | cons e rest ih => exact ih (nodup_insert h)

theorem nodup_ofList (pairs : List (String × α)) : (ofList pairs).names.Nodup :=
  nodup_merge List.nodup_nil

/-- In a map of distinct names a name stands for what a look-up finds. -/
theorem under_of_nodup (h : es.names.Nodup) (name : String) : es.under name = (es.get? name).toList := by
  have hle := length_under_le_one h name
  rw [get?_eq_head?_under]
  match hu : es.under name with
  | [] => rfl
  | [a] => rfl
  | _ :: _ :: _ =>
    rw [hu] at hle
    simp at hle

theorem under_flatMap (f : β → Entries α) (bs : List β) (name : String) :
    under (bs.flatMap f) name = bs.flatMap fun b => (f b).under name := by
  simp only [under, List.filter_flatMap, List.map_flatMap]

/-! ## Writing again what was written -/

theorem insert_insert (es : Entries α) : (es.insert name a).insert name b = es.insert name b := by
  induction es with
  | nil => simp [insert]
  | cons e rest ih =>
    obtain ⟨n, c⟩ := e
    by_cases hn : n = name <;> simp [insert, hn, ih]

/-- A name that is there is written before or after another one. -/
theorem insert_comm (hne : other ≠ name) (hmem : name ∈ es.names) :
    (es.insert other b).insert name a = (es.insert name a).insert other b := by
  induction es with
  | nil => cases hmem
  | cons e rest ih =>
    obtain ⟨n, c⟩ := e
    by_cases hn : n = name
    · have ho : n ≠ other := fun ho => hne (ho.symm.trans hn)
      simp [insert, hn, hne.symm]
    · by_cases ho : n = other
      · simp [insert, ho, hne]
      · have hrest : name ∈ names rest := (List.mem_cons.1 hmem).resolve_left (Ne.symm hn)
        simp [insert, hn, ho, ih hrest]

/-- A name that is there and is not written is as well written first. -/
theorem insert_merge_of_not_mem (hmem : name ∈ es.names) (hnot : name ∉ new.names) :
    (es.merge new).insert name a = (es.insert name a).merge new := by
  induction new generalizing es with
  | nil => rfl
  | cons e rest ih =>
    obtain ⟨n, b⟩ := e
    obtain ⟨hne, hrest⟩ := not_or.1 (mt List.mem_cons.2 hnot)
    calc ((es.insert n b).merge rest).insert name a
        = ((es.insert n b).insert name a).merge rest := ih (mem_names_insert.2 (.inr hmem)) hrest
      _ = ((es.insert name a).insert n b).merge rest := by rw [insert_comm (Ne.symm hne) hmem]

/-- An entry can be written to the map that is merged, or to the merged map. -/
theorem merge_insert (hn : new.names.Nodup) (es : Entries α) (name : String) (a : α) :
    es.merge (new.insert name a) = (es.merge new).insert name a := by
  induction new generalizing es with
  | nil => rfl
  | cons e rest ih =>
    obtain ⟨n, b⟩ := e
    obtain ⟨hnot, hrest⟩ := List.nodup_cons.1 hn
    rw [insert]
    split
    · rename_i heq
      subst heq
      calc (es.insert n a).merge rest
          = ((es.insert n b).insert n a).merge rest := by rw [insert_insert]
        _ = ((es.insert n b).merge rest).insert n a :=
          (insert_merge_of_not_mem (mem_names_insert.2 (.inl rfl)) hnot).symm
    · exact ih hrest (es.insert n b)

/-- Merging the map that pairs make is writing the pairs. -/
theorem merge_ofList (es : Entries α) (pairs : List (String × α)) :
    es.merge (ofList pairs) = es.merge pairs := by
  induction pairs using List.reverseRecOn with
  | nil => rfl
  | append_singleton pairs e ih =>
    obtain ⟨n, b⟩ := e
    rw [ofList_concat, merge_insert (nodup_ofList pairs), ih, merge_concat]

theorem merge_flatMap (es : Entries α) (f : β → Entries α) (bs : List β) :
    es.merge (bs.flatMap f) = bs.foldl (fun out b => out.merge (f b)) es := List.foldl_flatMap

end Entries

/-! ## Merged values -/

namespace Value

variable {vs : List Value} {pairs : List (String × Value)} {bases : List Value}

/-- The entry of a map under a name; what is no map has none. -/
def find? (v : Value) (name : String) : Option Value := v.entries?.bind (Entries.get? · name)

/-- The names of a map in order; what is no map has none. -/
def names (v : Value) : List String := (v.entries?.getD []).names

/-- Merging writes the entries of all maps in a row. -/
theorem mergeEntries_eq (vs : List Value) :
    mergeEntries vs = Entries.ofList (vs.flatMap fun v => v.entries?.getD []) :=
  (Entries.merge_flatMap [] _ vs).symm

theorem names_mergeEntries (vs : List Value) : (mergeEntries vs).names = (vs.flatMap names).eraseDups := by
  rw [mergeEntries_eq, Entries.names_ofList]
  exact congrArg List.eraseDups List.map_flatMap

theorem nodup_mergeEntries (vs : List Value) : (mergeEntries vs).names.Nodup := by
  rw [mergeEntries_eq]
  exact Entries.nodup_ofList _

theorem under_entries (v : Value) (h : v.names.Nodup) (name : String) :
    Entries.under (v.entries?.getD []) name = (v.find? name).toList := by
  rw [Entries.under_of_nodup h, find?]
  cases v.entries? <;> rfl

/-- The last map that has a name gives it its value. -/
theorem find?_merge (h : ∀ v ∈ vs, v.names.Nodup) (name : String) :
    (merge vs).find? name = (vs.filterMap (·.find? name)).getLast? := by
  show (mergeEntries vs).get? name = _
  rw [mergeEntries_eq, Entries.ofList, Entries.get?_merge, Entries.under_flatMap,
    List.filterMap_eq_flatMap_toList, List.flatMap_congr fun v hv => under_entries v (h v hv) name]
  exact Option.or_none

/-- Maps can be merged in groups. -/
theorem merge_map_merge (groups : List (List Value)) : merge (groups.map merge) = merge groups.flatten := by
  have hgroup (out : Entries Value) (group : List Value) :
      out.merge (mergeEntries group) = out.merge (group.flatMap fun v => v.entries?.getD []) := by
    rw [mergeEntries_eq, Entries.merge_ofList]
  have hflatten : groups.flatten.flatMap (fun v => v.entries?.getD []) =
      groups.flatMap fun group => group.flatMap fun v => v.entries?.getD [] := by
    rw [← List.flatMap_id, List.flatMap_assoc]
    rfl
  refine congrArg map ?_
  calc mergeEntries (groups.map merge)
      = groups.foldl (fun out group => Entries.merge out (mergeEntries group)) [] := List.foldl_map
    _ = groups.foldl (fun out group =>
          Entries.merge out (group.flatMap fun v => v.entries?.getD [])) [] := by simp only [hgroup]
    _ = Entries.ofList (groups.flatMap fun group => group.flatMap fun v => v.entries?.getD []) :=
        (Entries.merge_flatMap [] _ groups).symm
    _ = mergeEntries groups.flatten := by rw [mergeEntries_eq, hflatten]

theorem find?_ofPairs (pairs : List (String × Value)) (name : String) :
    (ofPairs pairs).find? name = (Entries.under pairs name).getLast? :=
  (Entries.get?_merge [] pairs name).trans Option.or_none

/-- In a context the last pair goes before the others, and pairs before bases, of which the first
goes before the others. -/
theorem find?_context (h : ∀ v ∈ bases, v.names.Nodup) (pairs : List (String × Value)) (name : String) :
    (context pairs bases).find? name =
      (Entries.under pairs name).getLast?.or (bases.filterMap (·.find? name)).head? := by
  rw [context]
  split
  · rename_i hempty
    rw [List.isEmpty_iff.1 hempty, find?_ofPairs]
    exact Option.or_none.symm
  · have hall : ∀ v ∈ bases.reverse ++ [ofPairs pairs], v.names.Nodup := by
      intro v hv
      rcases List.mem_append.1 hv with hv | hv
      · exact h v (List.mem_reverse.1 hv)
      · rw [List.mem_singleton.1 hv]
        exact Entries.nodup_ofList pairs
    rw [find?_merge hall, List.filterMap_append, List.getLast?_append, List.filterMap_reverse,
      List.getLast?_reverse]
    simp only [List.filterMap_cons, List.filterMap_nil, find?_ofPairs]
    cases (Entries.under pairs name).getLast? <;> rfl

/-- The later of two maps decides. -/
theorem find?_merge_pair {v w : Value} (hv : v.names.Nodup) (hw : w.names.Nodup) (name : String) :
    (merge [v, w]).find? name = (w.find? name).or (v.find? name) := by
  have hall : ∀ u ∈ [v, w], u.names.Nodup := by
    simp only [List.forall_mem_cons]
    exact ⟨hv, hw, nofun⟩
  rw [find?_merge hall]
  cases hfv : v.find? name <;> cases hfw : w.find? name <;> simp [hfv, hfw]

end Value

/-! ## What templates see -/

namespace Path

variable {root : Entries Value} {name path : String} {v? : Option Value}

/-- A path that is a name of the root leads to its entry. -/
theorem resolve_of_entry {root v : Value} (h : root.find? path = some v) : resolve root path = v := by
  rw [Value.find?] at h
  rw [resolve, h]

/-- A path that is no name of a map is looked up in it segment by segment, or as a name. -/
theorem resolve_map_of_none (h : root.get? path = none) :
    resolve (.map root) path =
      if isDeep path then
        match split path with
        | [] => .undefined
        | first :: rest => walk ((Value.map root).attr first) rest
      else (Value.map root).attr path := by
  have hroot : (Value.map root).entries?.bind (Entries.get? · path) = none := h
  rw [resolve]
  split
  · rename_i v hv
    cases hroot.symm.trans hv
  · rfl

/-- A path that is a name leads to what the root has under it, if it has something or the path is
not split. -/
theorem resolve_name (h : root.get? name = v?) (hflat : v?.isSome ∨ isDeep name = false) :
    resolve (.map root) name = v?.getD .undefined := by
  cases v? with
  | some v => exact resolve_of_entry h
  | none =>
    have hdeep : isDeep name = false := hflat.resolve_left (by simp)
    rw [resolve_map_of_none h, hdeep]
    exact congrArg (·.getD Value.undefined) h

/-- A path whose first segment is a name goes on from what the root has under it. -/
theorem resolve_segments {rest : List String} (h : root.get? name = v?)
    (hpath : root.get? path = none) (hdeep : isDeep path = true) (hsplit : split path = name :: rest) :
    resolve (.map root) path = walk (v?.getD .undefined) rest := by
  have hattr : (Value.map root).attr name = v?.getD .undefined := congrArg (·.getD Value.undefined) h
  rw [resolve_map_of_none hpath, hdeep, hsplit, ← hattr]
  rfl

end Path

section

open Template (Tree)

variable {σ : Type}

/-- What a template that has been read gives in one map: the error of reading it, before anything
is called, or what rendering its tree gives. -/
def renderedIn (host : Host σ) (root : Entries Value) (parsed : Except Error Tree) : Effect σ String := do
  let tree ← .ofExcept parsed
  tree.render host (.map root)

theorem renderedIn_ok (host : Host σ) (root : Entries Value) (tree : Tree) :
    renderedIn host root (.ok tree) = tree.render host (.map root) := rfl

/-- With the globals a template is read, and rendered in the map that the context makes over
them. -/
theorem Environment.render_eq_renderedIn (e : Environment) (host : Host σ) (source : String)
    (ctx : Entries Value) :
    e.render host source (.map ctx) true = do
      let result ← (renderedIn host (Value.mergeEntries [.map e.globals, .map ctx]) (e.parse source).1).run
      return (result, (e.parse source).2) := by
  have hctx : (Value.map ctx).validate = .ok (.map ctx) := rfl
  simp only [render, hctx, parse]
  -- Reading the source changes the cache alone.
  cases e.cache.parse source with
  | mk parsed cache => cases parsed <;> rfl

end

/-- Every name of any map stands in the merged map once, at its first place and with the value of
the last map that has it, and merging in groups gives the same. A context binds a name to its last
pair, else to the entry of the first base that has it. A template that an environment renders with
its globals is read, and rendered in one map: it finds the entries of the context there and, under
the names that the context does not have, the globals. -/
theorem Value.merge_precedence :
    (∀ vs : List Value, (∀ v ∈ vs, v.names.Nodup) →
      (merge vs).kind = .map ∧ (merge vs).names = (vs.flatMap names).eraseDups ∧ (merge vs).names.Nodup ∧
      ∀ name, (merge vs).find? name = (vs.filterMap (·.find? name)).getLast?) ∧
    (∀ groups : List (List Value), merge (groups.map merge) = merge groups.flatten) ∧
    (∀ (pairs : List (String × Value)) (bases : List Value), (∀ v ∈ bases, v.names.Nodup) →
      ∀ name, (context pairs bases).find? name =
        (Entries.under pairs name).getLast?.or (bases.filterMap (·.find? name)).head?) ∧
    ∀ (e : Environment) (ctx : Entries Value), e.globals.names.Nodup → ctx.names.Nodup →
      ∃ seen : Entries Value, seen.names.Nodup ∧
        (∀ {σ : Type} (host : Host σ) (source : String), ∃ parsed after,
          (e.cache.Consistent → parsed = Template.parseTree source) ∧
          e.parse source = (parsed, after) ∧
          e.render host source (.map ctx) true = do
            let result ← (renderedIn host seen parsed).run
            return (result, after)) ∧
        ∀ name,
          let v? := (ctx.get? name).or (e.globals.get? name)
          seen.get? name = v? ∧
          (v?.isSome ∨ Path.isDeep name = false → Path.resolve (.map seen) name = v?.getD .undefined) ∧
          ∀ path rest, seen.get? path = Option.none → Path.isDeep path = true → Path.split path = name :: rest →
            Path.resolve (.map seen) path = Path.walk (v?.getD .undefined) rest := by
  refine ⟨fun vs h => ?_, merge_map_merge, fun pairs bases h => find?_context h pairs,
    fun e ctx hn hctx => ⟨mergeEntries [.map e.globals, .map ctx], nodup_mergeEntries _,
      fun host source => ?_, fun name => ?_⟩⟩
  · exact ⟨rfl, names_mergeEntries vs, nodup_mergeEntries vs, find?_merge h⟩
  · exact ⟨_, _, fun h => (h.parse source).1, rfl, e.render_eq_renderedIn host source ctx⟩
  · have hget := find?_merge_pair (v := .map e.globals) (w := .map ctx) hn hctx name
    exact ⟨hget, Path.resolve_name hget, fun _ _ => Path.resolve_segments hget⟩

/-- Three values with shared names, one of which is no map, in the order of merging and as bases of
a context; and a template whose context hides a base function and leaves it another one. -/
theorem Value.merge_precedence_shared :
    let first := map [("a", unsigned 1), ("b", unsigned 2)]
    let last := map [("b", unsigned 3), ("c", unsigned 4)]
    (∀ v ∈ [first, string "x", last], v.names.Nodup) ∧
      (merge [first, string "x", last]).names = ["a", "b", "c"] ∧
      (merge [first, string "x", last]).find? "b" = some (unsigned 3) ∧
      merge [merge [first, string "x"], merge [last]] = merge [first, string "x", last] ∧
      (context [("a", unsigned 5), ("a", unsigned 6)] [first, last]).find? "a" = some (unsigned 6) ∧
      (context [("a", unsigned 5), ("a", unsigned 6)] [first, last]).find? "b" = some (unsigned 2) ∧
      Environment.new.globals.names.Nodup ∧
      ∃ after, Environment.new.render (Base.host : Host Unit) "\x7bif\x7d, \x7bnot(if)\x7d"
        (map [("if", string "mine")]) true = return (.ok "mine, false", after) := by
  intro first last
  have hdistinct : ∀ v ∈ [first, string "x", last], v.names.Nodup := by decide
  have hbases : ∀ v ∈ [first, last], v.names.Nodup := by decide
  have hglobals : Environment.new.globals.names.Nodup := by decide
  obtain ⟨hmerge, hgroups, hcontext, hrender⟩ := Value.merge_precedence
  obtain ⟨-, hnames, -, hentry⟩ := hmerge _ hdistinct
  obtain ⟨seen, -, hresult, hseen⟩ := hrender .new [("if", string "mine")] hglobals (by decide)
  have hif : Path.resolve (.map seen) "if" = string "mine" := (hseen "if").2.1 (.inl rfl)
  have hnot : Path.resolve (.map seen) "not" = callable "not" := (hseen "not").2.1 (.inl rfl)
  obtain ⟨parsed, after, hparsed, -, hresult⟩ := hresult (Base.host : Host Unit) "\x7bif\x7d, \x7bnot(if)\x7d"
  have htree : parsed = .ok ⟨[.call ⟨"if", []⟩, .text ", ", .call ⟨"not", [.call "if" []]⟩]⟩ :=
    (hparsed (Cache.consistent_empty _)).trans (by rfl)
  refine ⟨hdistinct, hnames.trans (by decide), (hentry "b").trans rfl,
    hgroups [[first, string "x"], [last]], (hcontext _ _ hbases "a").trans rfl,
    (hcontext _ _ hbases "b").trans rfl, hglobals, after, hresult.trans ?_⟩
  have htext : renderedIn Base.host seen parsed = (return "mine, false" : Effect Unit String) := by
    rw [htree, renderedIn_ok]
    simp only [Template.Tree.render, Template.renderNodes, Template.Node.render, Template.Call.eval,
      Template.lookUp, Template.Argument.evalAll, Template.Argument.eval, hif, hnot]
    rfl
  rw [htext]
  rfl

end Stencil

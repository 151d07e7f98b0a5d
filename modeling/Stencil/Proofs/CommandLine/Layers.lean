import Stencil.Proofs.Cache.Consistency
import Stencil.Proofs.CommandLine.Defines
import Stencil.Proofs.Document.RoundTrip
import Stencil.Proofs.Value.Merging

/-!
# The layers that a template sees

What a template of the command line sees under a name comes from five layers: the defines of the
command line, the defines of the config file, the process environment, the data, and the base
functions. The first layer that has the name decides; the others are seen under their other names.

* `boundTo`: what the layers say about a name;
* `Config.find?_extraContext`: the defines and the process environment;
* `Config.seen`, `Config.get?_seen`: the one map that a template sees;
* `produce_eq`: a template is rendered against that map;
* `Rendering`, `run_eq_rendered`: runs that get as far as rendering;
* `names_bound_by_layers`: all of it.
-/

namespace Stencil

variable {α β : Type}

/-! ## Look-ups in documents -/

theorem Entries.get?_map_snd (f : α → β) (es : Entries α) (name : String) :
    Entries.get? (es.map fun e => (e.1, f e.2)) name = (es.get? name).map f := by
  induction es with
  | nil => rfl
  | cons e rest ih =>
    rw [List.map_cons, Entries.get?, Entries.get?, List.lookup_cons, List.lookup_cons]
    split
    · rfl
    · exact ih

namespace Json

/-- A document as a value. -/
def value (j : Json) : Value := .ofDatum j.toDatum

variable {es : Entries Json}

theorem nodup_sortEntries (h : es.names.Nodup) : (sortEntries es).names.Nodup :=
  ((List.mergeSort_perm es _).map Prod.fst).nodup_iff.2 h

theorem get?_sortEntries (h : es.names.Nodup) (name : String) :
    (sortEntries es).get? name = es.get? name := by
  rw [Entries.get?_eq_head?_under, Entries.get?_eq_head?_under,
    Entries.under_eq_of_perm (nodup_sortEntries h) (List.mergeSort_perm es _)]

theorem value_object (h : es.names.Nodup) :
    (object es).value = .map (es.map fun e => (e.1, e.2.value)) := ofDatum_object h

end Json

namespace CommandLine

variable {c file : Config} {data : Entries Value} {vars : List (String × String)} {name : String}

/-! ## Layers -/

/-- The map of the process environment. -/
def environmentMap (vars : List (String × String)) : Value :=
  .ofPairs (vars.map fun (name, text) => (name, .string text))

/-- What a name is bound to: the last define of the command line, else the define of the config
file, else the process environment if that is passed and asked for, else the entry of the data,
else the base function if these are there. -/
def boundTo (defines : List (String × Json)) (file : Entries Json)
    (vars? : Option (List (String × String))) (data : Entries Value) (globals : Bool)
    (name : String) : Option Value :=
  ((Entries.under defines name).getLast?.map Json.value).or <|
    ((file.get? name).map Json.value).or <|
      (if name = "ENV" then vars?.map environmentMap else none).or <|
        (data.get? name).or <|
          if globals ∧ name ∈ Base.globals.names then some (.callable name) else none

/-- Defines may be written over those of the config file first. -/
theorem boundTo_merge (defines : List (String × Json)) (file : Entries Json)
    (vars? : Option (List (String × String))) (data : Entries Value) (globals : Bool) (name : String) :
    boundTo [] (file.merge defines) vars? data globals name =
      boundTo defines file vars? data globals name := by
  rw [boundTo, boundTo, Entries.get?_merge, ← Option.or_assoc]
  cases (Entries.under defines name).getLast? <;> rfl

theorem get?_baseGlobals (name : String) :
    Base.globals.get? name = if name ∈ Base.globals.names then some (.callable name) else none := by
  have hname (e : String × Value) (he : e ∈ Base.globals) : e.2 = .callable e.1 := by
    obtain ⟨n, -, rfl⟩ := List.mem_map.1 he
    rfl
  split
  · rename_i hmem
    obtain ⟨⟨n, v⟩, he, rfl⟩ := List.mem_map.1 hmem
    obtain rfl : v = .callable n := hname _ he
    exact Entries.get?_of_mem (by decide) he
  · rename_i hnot
    exact Entries.get?_eq_none_iff.2 hnot

namespace Config

theorem find?_defines (h : c.defines.names.Nodup) (name : String) :
    (Json.object (Json.sortEntries c.defines)).value.find? name = (c.defines.get? name).map Json.value := by
  rw [Json.value_object (Json.nodup_sortEntries h), ← Json.get?_sortEntries h]
  exact Entries.get?_map_snd Json.value _ name

theorem nodup_names_defines (h : c.defines.names.Nodup) :
    (Json.object (Json.sortEntries c.defines)).value.names.Nodup := by
  have hsorted := Json.nodup_sortEntries h
  rw [Json.value_object hsorted]
  show (Entries.names (List.map (fun e : String × Json => (e.1, e.2.value)) _)).Nodup
  rwa [Entries.names_map_snd]

/-- The defines stand over the process environment, if that is passed. -/
theorem find?_extraContext (h : c.defines.names.Nodup) (vars : List (String × String)) (name : String) :
    (c.extraContext vars).find? name = ((c.defines.get? name).map Json.value).or
      (if name = "ENV" then (if c.env then some vars else none).map environmentMap else none) := by
  rw [extraContext]
  cases c.env with
  | false =>
    show _ = Option.or _ (if _ then none else none)
    rw [ite_self, Option.or_none]
    exact find?_defines h name
  | true =>
    have henv : (Value.map [("ENV", environmentMap vars)]).find? name =
        if name = "ENV" then some (environmentMap vars) else none := by
      show List.lookup name [("ENV", environmentMap vars)] = _
      rw [List.lookup_cons]
      split <;> simp_all
    have hnodup : (Value.map [("ENV", environmentMap vars)]).names.Nodup := List.nodup_singleton "ENV"
    show (Value.merge [.map [("ENV", environmentMap vars)],
      (Json.object (Json.sortEntries c.defines)).value]).find? name = _
    rw [Value.find?_merge_pair hnodup (nodup_names_defines h), find?_defines h, henv]
    rfl

theorem nodup_names_extraContext (h : c.defines.names.Nodup) (vars : List (String × String)) :
    (c.extraContext vars).names.Nodup := by
  rw [extraContext]
  split
  · exact Value.nodup_mergeEntries _
  · exact nodup_names_defines h

/-- The one map that a template sees: the layers of the configuration over the data, and these
over the base functions if they are there. -/
def seen (c : Config) (vars : List (String × String)) (data : Entries Value) : Entries Value :=
  (Environment.new.context (contextOf (.map data) c vars) c.globals).entries?.getD []

theorem context_eq_seen (c : Config) (vars : List (String × String)) (data : Entries Value) :
    Environment.new.context (contextOf (.map data) c vars) c.globals = .map (c.seen vars data) := by
  rw [seen, Environment.context]
  cases c.globals <;> rfl

theorem nodup_seen (c : Config) (vars : List (String × String)) (data : Entries Value) :
    (c.seen vars data).names.Nodup := by
  rw [seen, Environment.context]
  cases c.globals <;> exact Value.nodup_mergeEntries _

/-- In the map that a template sees, a name is what the layers say. -/
theorem get?_seen (hdefines : c.defines.names.Nodup) (hdata : data.names.Nodup)
    (vars : List (String × String)) (name : String) :
    (c.seen vars data).get? name =
      boundTo [] c.defines (if c.env then some vars else none) data c.globals name := by
  have hctx : (contextOf (.map data) c vars).find? name =
      (((c.defines.get? name).map Json.value).or
        (if name = "ENV" then (if c.env then some vars else none).map environmentMap else none)).or
        (data.get? name) := by
    rw [← find?_extraContext hdefines]
    exact Value.find?_merge_pair (v := .map data) hdata (nodup_names_extraContext hdefines vars) name
  show (Value.map (c.seen vars data)).find? name = _
  rw [← context_eq_seen, Environment.context]
  cases c.globals with
  | false =>
    show (contextOf (.map data) c vars).find? name = _
    rw [hctx, boundTo, Option.or_assoc]
    simp [Entries.under]
  | true =>
    have hglobals : (Value.map Environment.new.globals).find? name = _ := get?_baseGlobals name
    show (Value.merge [.map Environment.new.globals, contextOf (.map data) c vars]).find? name = _
    have hnodup : (Value.map Environment.new.globals).names.Nodup := by decide
    have hmerged : (contextOf (.map data) c vars).names.Nodup := Value.nodup_mergeEntries _
    rw [Value.find?_merge_pair hnodup hmerged, hctx, hglobals, boundTo, Option.or_assoc,
      Option.or_assoc]
    simp [Entries.under]

end Config

/-! ## What is rendered -/

variable {o : Options} {source : String}

/-- What a run writes: the text of the template against the map that it sees. -/
def rendered (c : Config) (source : String) (root : Entries Value) : Except Error String := do
  let tree ← Template.parseTree source
  let text ← ((tree.render Base.host (.map root)).run ()).1
  return if c.newline then text ++ "\n" else text

/-- A template is rendered against the one map that it sees. -/
theorem produce_eq (h : o.dump = none) (c : Config) (source : String) (vars : List (String × String))
    (data : Entries Value) :
    produce o c source (contextOf (.map data) c vars) = rendered c source (c.seen vars data) := by
  obtain ⟨result, cache, st, hrender, hafresh, -⟩ := Environment.render_eq (e := .new)
    (Cache.consistent_empty _) Base.host source (contextOf (.map data) c vars) c.globals ()
  have hctx : (contextOf (.map data) c vars).validate = .ok (contextOf (.map data) c vars) := rfl
  have hproduce : produce o c source (contextOf (.map data) c vars) =
      result.map fun text => if c.newline then text ++ "\n" else text := by
    have hrun : StateT.run (Environment.new.render Base.host source _ c.globals) () = _ := hrender
    rw [produce, h, hrun]
    rfl
  rw [hproduce, rendered]
  cases hparse : Template.parseTree source with
  | error e =>
    rw [renderAfresh_of_error hctx hparse] at hafresh
    cases hafresh
    rfl
  | ok tree =>
    rw [renderAfresh_of_ok hctx hparse] at hafresh
    have hroot : (if c.globals = true then
        Value.merge [.map Environment.new.globals, contextOf (.map data) c vars]
      else contextOf (.map data) c vars) = .map (c.seen vars data) := c.context_eq_seen vars data
    rw [hroot] at hafresh
    show _ = Except.bind ((tree.render Base.host (.map (c.seen vars data))).run ()).1 _
    rw [hafresh]
    cases result <;> rfl

/-- A run that has read its options, its configuration, its template and its data, and goes on to
render to the standard output. -/
structure Rendering (sys : System Id) (args : List String) (c : Config) (source : String)
    (data : Entries Value) (o : Options) : Prop where
  options : Options.parse args = .ok o
  config : (loadConfig sys o).run = .ok c
  template : (loadTemplate sys o).run = .ok source
  base : (loadBase sys o c).run = .ok (.map data)
  renders : o.printConfig = false ∧ o.dump = none ∧ o.output = none

theorem run_eq_rendered {sys : System Id} {args : List String}
    (h : Rendering sys args c source data o) : run sys args =
      match rendered c source (c.seen sys.environment data) with
      | .ok text => { output := text }
      | .error e => { code := 1, messages := (Failure.ofError e).text } := by
  obtain ⟨hoptions, hconfig, htemplate, hbase, hprint, hdump, houtput⟩ := h
  have hexecute : execute sys o = ExceptT.mk (m := Id)
      (((rendered c source (c.seen sys.environment data)).map
        (fun text => ({ output := text } : Outcome))).mapError Failure.ofError) := by
    have hconfig : loadConfig sys o = pure c := hconfig
    have htemplate : loadTemplate sys o = pure source := htemplate
    have hbase : loadBase sys o c = pure (.map data) := hbase
    rw [execute, hconfig, pure_bind, htemplate, pure_bind, hbase, pure_bind]
    simp only [hprint, houtput, Option.filter_none, produce_eq hdump]
    cases rendered c source (c.seen sys.environment data) <;> rfl
  rw [run, hoptions]
  dsimp only
  rw [hexecute]
  cases rendered c source (c.seen sys.environment data) <;> rfl

/-- The options of a run over the layers below them. -/
theorem Config.withOptions_eq {defines : List (String × Json)}
    (h : o.defines.mapM parseDefine = .ok defines) (file : Config) :
    ∃ c : Config, file.withOptions o = .ok c ∧ c.env = (file.env || o.env) ∧
      c.globals = (file.globals && !o.noGlobals) ∧ c.defines = file.defines.merge defines := by
  rw [withOptions, define_eq, h]
  exact ⟨_, rfl, rfl, rfl, rfl⟩

/-- A template of the command line sees one map. In it a name is bound to its last define of the
command line, else to its define of the config file, else, if it is `ENV`, to the process
environment if that is passed, else to its entry of the data, else to its base function if these are
there, else to nothing. A path that is this name leads to what it is bound to, and one whose first
segment it is goes on from there. -/
theorem names_bound_by_layers {defines : List (String × Json)}
    (hdefines : o.defines.mapM parseDefine = .ok defines) (hfile : file.defines.names.Nodup)
    (hdata : data.names.Nodup) :
    ∃ c : Config, file.withOptions o = .ok c ∧ c.env = (file.env || o.env) ∧
      c.globals = (file.globals && !o.noGlobals) ∧ ∀ vars, ∃ root : Entries Value, root.names.Nodup ∧
        (∀ (sys : System Id) args source, sys.environment = vars → Rendering sys args c source data o →
          run sys args = match rendered c source root with
            | .ok text => { output := text }
            | .error e => { code := 1, messages := (Failure.ofError e).text }) ∧
        ∀ name,
          let v? := boundTo defines file.defines (if c.env then some vars else none) data c.globals name
          root.get? name = v? ∧
          (v?.isSome ∨ Path.isDeep name = false → Path.resolve (.map root) name = v?.getD .undefined) ∧
          ∀ path rest, root.get? path = none → Path.isDeep path = true → Path.split path = name :: rest →
            Path.resolve (.map root) path = Path.walk (v?.getD .undefined) rest := by
  obtain ⟨c, hc, henv, hglobals, hmerged⟩ := Config.withOptions_eq hdefines file
  refine ⟨c, hc, henv, hglobals, fun vars => ⟨c.seen vars data, c.nodup_seen vars data, ?_,
    fun name => ?_⟩⟩
  · rintro sys args source rfl h
    exact run_eq_rendered h
  intro v?
  have hget : (c.seen vars data).get? name = v? := by
    rw [Config.get?_seen (hmerged ▸ Entries.nodup_merge hfile) hdata, hmerged, boundTo_merge]
  exact ⟨hget, Path.resolve_name hget, fun _ _ => Path.resolve_segments hget⟩

/-- All five layers in a run, each of them with a name of its own and with a name that it hides. -/
theorem names_bound_by_layers_all :
    let sys : System Id :=
      { contentsOf := fun path => .ok <|
          if path = "c.toml" then "[defines]\na = \"file\"\nb = \"file\"\n"
          else "\x7b\"ENV\": null, \"b\": null, \"if\": null\x7d"
        isFile := fun _ => false, readInput := .error "", canCreate := fun _ => .ok ()
        canReplace := fun _ => .ok (), environment := [("HOME", "/")], home := none }
    let args := ["--config-file=c.toml", "--env", "-fjson", "-Da=1", "-Da=last", "-t", "\x7ba\x7d", "",
      "d.json"]
    let o : Options :=
      { configFile := some "c.toml", format := some "json", env := true, defines := ["a=1", "a=last"]
        template := some "\x7ba\x7d", templateFile := some "", dataFile := some "d.json" }
    let file : Config := { defines := [("a", .string "file"), ("b", .string "file")] }
    let data : Entries Value := [("ENV", .none), ("b", .none), ("if", .none)]
    o.defines.mapM parseDefine = .ok [("a", .string "1"), ("a", .string "last")] ∧
      file.defines.names.Nodup ∧ data.names.Nodup ∧
      ∃ (c : Config) (root : Entries Value), file.withOptions o = .ok c ∧
        Rendering sys args c "\x7ba\x7d" data o ∧
        run sys args = (match rendered c "\x7ba\x7d" root with
          | .ok text => { output := text }
          | .error e => { code := 1, messages := (Failure.ofError e).text }) ∧
        root.get? "a" = some (.string "last") ∧ root.get? "b" = some (.string "file") ∧
        root.get? "ENV" = some (environmentMap [("HOME", "/")]) ∧ root.get? "if" = some .none ∧
        root.get? "not" = some (.callable "not") ∧ Path.resolve (.map root) "d" = .undefined := by
  intro sys args o file data
  have hdefines : o.defines.mapM parseDefine = .ok [("a", .string "1"), ("a", .string "last")] := by
    cbv
  have hfile : file.defines.names.Nodup := by decide
  have hdata : data.names.Nodup := by decide
  obtain ⟨c, hc, -, -, hroot⟩ := names_bound_by_layers hdefines hfile hdata
  obtain ⟨root, -, hrun, hname⟩ := hroot sys.environment
  obtain rfl : { format := "json", env := true, defines := [("a", .string "last"), ("b", .string "file")] } = c :=
    Except.ok.inj ((by cbv : file.withOptions o = .ok _).symm.trans hc)
  have hrendering : Rendering sys args _ "\x7ba\x7d" data o :=
    ⟨by cbv, by cbv, by cbv, by cbv, rfl, rfl, rfl⟩
  refine ⟨hdefines, hfile, hdata, _, root, hc, hrendering, hrun sys args _ rfl hrendering,
    (hname "a").1.trans ?_, (hname "b").1.trans ?_, (hname "ENV").1.trans ?_, (hname "if").1.trans ?_,
    (hname "not").1.trans ?_, ((hname "d").2.1 (.inr ?_)).trans ?_⟩
  all_goals cbv

end CommandLine

end Stencil

import Mathlib
import Stencil.CommandLine.Run

/-!
# Defines

An item of `-D` names a key and says what it stands for: a text after an equals sign, a document
after a colon and an equals sign, or true. The first equals sign of an item decides which it is,
but for one thing: a colon and an equals sign further behind are found before it. The text that
holds them is then no text, but is cut there, and what stands before is all key.

* `cutAt?_eq_some_iff`: a text is cut at the first mark;
* `defineAtSign`: what an item says by its first equals sign;
* `HidesMark`, `parseDefine_eq_iff`: the items that say something else;
* `Config.define_eq`: the items of a list in order;
* `run_of_defines_error`: an item that says nothing ends the run;
* `parseDefine_by_sign`: all of it;
* `parseDefine_mark_in_text`: a text that is cut.
-/

namespace Stencil.CommandLine

variable {mark cs before after key text : List Char} {item : String}

/-! ## Cutting a text -/

theorem not_infix_dropLast (hm : mark ≠ []) : ¬ mark <:+: mark.dropLast := by
  intro hin
  have hlt : mark.dropLast.length < mark.length := by
    rw [List.length_dropLast]
    exact Nat.sub_lt (List.length_pos_of_ne_nil hm) Nat.one_pos
  exact absurd hin.length_le (Nat.not_le_of_lt hlt)

/-- What has to be free of marks for a cut to be at the first one. -/
theorem prefix_of_append_dropLast (before mark after : List Char) :
    before ++ mark.dropLast <+: before ++ mark ++ after := by
  rw [List.append_assoc, List.prefix_append_right_inj]
  exact (List.dropLast_prefix mark).trans (List.prefix_append mark after)

/-- A text that is cut has the mark in it, and no other one before its end. -/
theorem eq_of_cutAt? (hm : mark ≠ []) (h : cutAt? mark cs = some (before, after)) :
    cs = before ++ mark ++ after ∧ ¬ mark <:+: before ++ mark.dropLast := by
  induction cs generalizing before with
  | nil => simp [cutAt?, hm] at h
  | cons c rest ih =>
    rw [cutAt?] at h
    split at h
    · rename_i hmark
      cases h
      exact ⟨(List.prefix_iff_eq_append.1 (List.isPrefixOf_iff_prefix.1 hmark)).symm,
        not_infix_dropLast hm⟩
    · rename_i hmark
      obtain ⟨⟨b, a⟩, hcut, heq⟩ := Option.map_eq_some_iff.1 h
      cases heq
      obtain ⟨rfl, hfirst⟩ := ih hcut
      refine ⟨rfl, fun hin => ?_⟩
      rcases List.infix_cons_iff.1 hin with hstart | hlater
      · exact hmark (List.isPrefixOf_iff_prefix.2
          (hstart.trans (prefix_of_append_dropLast (c :: b) mark after)))
      · exact hfirst hlater

/-- A text with a mark is cut at the first one. -/
theorem cutAt?_append (hm : mark ≠ []) (h : ¬ mark <:+: before ++ mark.dropLast) (after : List Char) :
    cutAt? mark (before ++ mark ++ after) = some (before, after) := by
  induction before with
  | nil =>
    obtain ⟨m, ms, rfl⟩ := List.exists_cons_of_ne_nil hm
    have hmark : (m :: ms).isPrefixOf (m :: (ms ++ after)) = true :=
      List.isPrefixOf_iff_prefix.2 (List.prefix_append (m :: ms) after)
    rw [List.nil_append, List.cons_append, cutAt?, if_pos hmark, ← List.cons_append,
      List.drop_left]
  | cons c before ih =>
    have hmark : ¬ mark.isPrefixOf (c :: (before ++ mark ++ after)) = true := by
      intro hstart
      -- A mark at the start would end before the last character of the one that is cut at.
      have hlen : mark.length ≤ (c :: before ++ mark.dropLast).length := by
        simp only [List.cons_append, List.length_append, List.length_cons, List.length_dropLast]
        omega
      exact h (List.prefix_of_prefix_length_le (List.isPrefixOf_iff_prefix.1 hstart)
        (prefix_of_append_dropLast (c :: before) mark after) hlen).isInfix
    rw [List.cons_append, List.cons_append, cutAt?, if_neg hmark,
      ih fun hin => h (List.infix_cons_iff.2 (.inr hin))]
    rfl

theorem cutAt?_eq_some_iff (hm : mark ≠ []) : cutAt? mark cs = some (before, after) ↔
    cs = before ++ mark ++ after ∧ ¬ mark <:+: before ++ mark.dropLast :=
  ⟨eq_of_cutAt? hm, fun ⟨hcs, h⟩ => hcs ▸ cutAt?_append hm h after⟩

theorem cutAt?_eq_none_iff (hm : mark ≠ []) : cutAt? mark cs = none ↔ ¬ mark <:+: cs := by
  induction cs with
  | nil => simp [cutAt?, hm]
  | cons c rest ih =>
    rw [cutAt?, List.infix_cons_iff, ← List.isPrefixOf_iff_prefix]
    split
    · rename_i hmark
      simp [hmark]
    · rename_i hmark
      rw [Option.map_eq_none_iff, ih, or_iff_right hmark]

/-! ## The two marks -/

/-- A colon and an equals sign are not in a text and the colon behind it if they are not in the
text. -/
theorem infix_concat_colon (before : List Char) :
    [':', '='] <:+: before ++ [':'] ↔ [':', '='] <:+: before := by
  rw [List.infix_concat_iff]
  refine or_iff_right ?_
  rintro ⟨l, hl⟩
  rw [List.append_cons] at hl
  exact absurd (List.append_inj' hl rfl).2 (by decide)

/-- Around the first equals sign of a text a colon and an equals sign stand at this sign or behind
it. -/
theorem infix_append_equals (hk : '=' ∉ key) (text : List Char) :
    [':', '='] <:+: key ++ '=' :: text ↔ key.getLast? = some ':' ∨ [':', '='] <:+: text := by
  induction key with
  | nil => simp [List.infix_cons_iff]
  | cons c rest ih =>
    rw [List.mem_cons, not_or] at hk
    rw [List.cons_append, List.infix_cons_iff, ih hk.2]
    cases rest with
    | nil => simp [eq_comm]
    | cons d rest =>
      have hd : '=' ≠ d := fun hd => hk.2 (hd ▸ List.mem_cons_self)
      simp [List.getLast?_cons, hd]

/-! ## What an item says -/

/-- A key and the document that a text writes. -/
def documentDefine (key text : String) : Except Failure (String × Json) :=
  match Json.parse? text with
  | some j => .ok (key, j)
  | none => .error ⟨"invalid raw value '" ++ text ++ "' (not valid JSON)", ["malformed JSON text"]⟩

/-- What an item says by its first equals sign: a document follows if a colon stands before the
sign, and a text otherwise. Without an equals sign the item is true. -/
def defineAtSign (item : String) : Except Failure (String × Json) :=
  let key := item.toList.takeWhile (· != '=')
  match item.toList.dropWhile (· != '=') with
  | [] => .ok (item, .bool true)
  | _ :: text =>
    if key.getLast? = some ':' then documentDefine (String.ofList key.dropLast) (String.ofList text)
    else .ok (String.ofList key, .string (String.ofList text))

/-- By its first equals sign the item says a text, and a colon and an equals sign are in it. -/
def HidesMark (item : String) : Prop :=
  ∃ key text, item.toList = key ++ '=' :: text ∧ '=' ∉ key ∧ key.getLast? ≠ some ':' ∧
    [':', '='] <:+: text

theorem defineAtSign_of_not_mem (h : '=' ∉ item.toList) : defineAtSign item = .ok (item, .bool true) := by
  have hall : ∀ c ∈ item.toList, (c != '=') = true := fun c hc =>
    bne_iff_ne.2 (ne_of_mem_of_not_mem hc h)
  rw [defineAtSign, List.dropWhile_eq_nil_iff.2 hall]

/-- A text is taken apart at its first equals sign. -/
theorem takeWhile_dropWhile_equals (hk : '=' ∉ key) (text : List Char) :
    (key ++ '=' :: text).takeWhile (· != '=') = key ∧
      (key ++ '=' :: text).dropWhile (· != '=') = '=' :: text := by
  have hall : ∀ c ∈ key, (c != '=') = true := fun c hc => bne_iff_ne.2 (ne_of_mem_of_not_mem hc hk)
  rw [List.takeWhile_append_of_pos hall, List.dropWhile_append_of_pos hall]
  exact ⟨List.append_nil key, rfl⟩

theorem defineAtSign_eq (h : item.toList = key ++ '=' :: text) (hk : '=' ∉ key) : defineAtSign item =
    if key.getLast? = some ':' then documentDefine (String.ofList key.dropLast) (String.ofList text)
    else .ok (String.ofList key, .string (String.ofList text)) := by
  obtain ⟨htake, hdrop⟩ := takeWhile_dropWhile_equals hk text
  rw [defineAtSign, h, htake, hdrop]

theorem hidesMark_iff (h : item.toList = key ++ '=' :: text) (hk : '=' ∉ key) :
    HidesMark item ↔ key.getLast? ≠ some ':' ∧ [':', '='] <:+: text := by
  refine ⟨?_, fun hin => ⟨key, text, h, hk, hin⟩⟩
  rintro ⟨key', text', h', hk', hin⟩
  obtain ⟨htake, hdrop⟩ := takeWhile_dropWhile_equals hk text
  obtain ⟨htake', hdrop'⟩ := takeWhile_dropWhile_equals hk' text'
  rw [← h] at htake hdrop
  rw [← h'] at htake' hdrop'
  cases htake.symm.trans htake'
  cases hdrop.symm.trans hdrop'
  exact hin

theorem parseDefine_of_not_mem (h : '=' ∉ item.toList) : parseDefine item = .ok (item, .bool true) := by
  have hmark : cutAt? [':', '='] item.toList = none :=
    (cutAt?_eq_none_iff (by simp)).2 fun hin => h (hin.subset (by simp))
  have hsign : cutAt? ['='] item.toList = none :=
    (cutAt?_eq_none_iff (by simp)).2 fun hin => h (hin.subset (by simp))
  rw [parseDefine]
  simp only [hmark, hsign]

/-- An item is cut at the first colon that stands before an equals sign. -/
theorem parseDefine_of_mark (h : item.toList = before ++ ':' :: '=' :: after)
    (hb : ¬ [':', '='] <:+: before) :
    parseDefine item = documentDefine (String.ofList before) (String.ofList after) := by
  have hmark : cutAt? [':', '='] item.toList = some (before, after) :=
    (cutAt?_eq_some_iff (by simp)).2 ⟨by simp [h], fun hin => hb ((infix_concat_colon before).1 hin)⟩
  rw [parseDefine]
  simp only [hmark]
  rfl

theorem parseDefine_of_sign (h : item.toList = key ++ '=' :: text) (hk : '=' ∉ key)
    (hm : ¬ [':', '='] <:+: item.toList) :
    parseDefine item = .ok (String.ofList key, .string (String.ofList text)) := by
  have hmark : cutAt? [':', '='] item.toList = none := (cutAt?_eq_none_iff (by simp)).2 hm
  have hsign : cutAt? ['='] item.toList = some (key, text) :=
    (cutAt?_eq_some_iff (by simp)).2
      ⟨by simp [h], fun hin => hk ((List.singleton_infix_iff '=' key).1 (by simpa using hin))⟩
  rw [parseDefine]
  simp only [hmark, hsign]

/-- A text is not what the item says if a colon and an equals sign are in it: it is cut there. -/
theorem parseDefine_of_hidden (h : item.toList = key ++ '=' :: (before ++ ':' :: '=' :: after))
    (hk : '=' ∉ key) (hlast : key.getLast? ≠ some ':') (hb : ¬ [':', '='] <:+: before) :
    parseDefine item = documentDefine (String.ofList (key ++ '=' :: before)) (String.ofList after) := by
  refine parseDefine_of_mark (by simp [h]) fun hin => ?_
  exact ((infix_append_equals hk before).1 hin).elim hlast hb

theorem key_of_documentDefine {key text : String} {e : String × Json} (h : documentDefine key text = .ok e) :
    e.1 = key := by
  rw [documentDefine] at h
  split at h
  · cases h
    rfl
  · cases h

/-- An item says what it says by its first equals sign, but for a text with a colon and an equals
sign in it. -/
theorem parseDefine_eq_iff (item : String) :
    parseDefine item = defineAtSign item ↔ ¬ HidesMark item := by
  constructor
  · rintro h ⟨key, text, hitem, hk, hlast, hin⟩
    obtain ⟨⟨b, a⟩, hcut⟩ := Option.ne_none_iff_exists'.1 (mt (cutAt?_eq_none_iff (by simp)).1 (not_not_intro hin))
    obtain ⟨rfl, hfirst⟩ := eq_of_cutAt? (by simp) hcut
    rw [List.append_assoc] at hitem
    have hb : ¬ [':', '='] <:+: b := fun hin => hfirst ((infix_concat_colon b).2 hin)
    rw [parseDefine_of_hidden hitem hk hlast hb, defineAtSign_eq hitem hk, if_neg hlast] at h
    -- The keys differ: only one of them has an equals sign.
    have hkey := congrArg String.toList (key_of_documentDefine h)
    rw [String.toList_ofList, String.toList_ofList] at hkey
    exact hk (hkey ▸ List.mem_append_right key List.mem_cons_self)
  · intro h
    by_cases hmem : '=' ∈ item.toList
    · obtain ⟨key, text, hitem, hk⟩ := List.eq_append_cons_of_mem hmem
      rw [defineAtSign_eq hitem hk]
      split
      · rename_i hlast
        obtain ⟨k, rfl⟩ := List.getLast?_eq_some_iff.1 hlast
        have hsign : '=' ∉ k := fun hin => hk (List.mem_append_left _ hin)
        rw [List.dropLast_concat]
        refine parseDefine_of_mark (by simp [hitem]) fun hin => ?_
        exact hsign (hin.subset (by simp))
      · rename_i hlast
        refine parseDefine_of_sign hitem hk fun hin => ?_
        rw [hitem, infix_append_equals hk, or_iff_right hlast] at hin
        exact h ((hidesMark_iff hitem hk).2 ⟨hlast, hin⟩)
    · rw [parseDefine_of_not_mem hmem, defineAtSign_of_not_mem hmem]

/-! ## Lists of items -/

/-- The items of a list are written over the defines in order, if all of them say something. -/
theorem Config.define_eq (c : Config) (items : List String) : c.define items =
    (items.mapM parseDefine).map fun es => { c with defines := c.defines.merge es } := by
  induction items generalizing c with
  | nil => rfl
  | cons item rest ih =>
    rw [Config.define, List.foldlM_cons, List.mapM_cons]
    cases parseDefine item with
    | error f => rfl
    | ok e =>
      show Config.define _ rest = _
      rw [ih]
      show _ = Except.map _ (rest.mapM parseDefine >>= fun es => .ok (e :: es))
      cases rest.mapM parseDefine <;> rfl

/-- The first item that says nothing says why the list does not. -/
theorem mapM_parseDefine_error {items rest : List String} {f : Failure}
    (hitems : ∀ i ∈ items, ∃ e, parseDefine i = .ok e) (h : parseDefine item = .error f) :
    (items ++ item :: rest).mapM parseDefine = .error f := by
  induction items with
  | nil =>
    rw [List.nil_append, List.mapM_cons, h]
    rfl
  | cons i items ih =>
    obtain ⟨e, he⟩ := hitems i List.mem_cons_self
    rw [List.cons_append, List.mapM_cons, he,
      ih fun j hj => hitems j (List.mem_cons_of_mem _ hj)]
    rfl

variable {m : Type → Type} [Monad m] [LawfulMonad m]

/-- A run ends at an item that says nothing: after the config file and the variables it asks the
system for nothing, it writes nothing, and it fails with what is wrong with the item. A failure of
the layers before goes first. -/
theorem run_of_defines_error (sys : System m) {args : List String} {o : Options} {f : Failure}
    (hargs : Options.parse args = .ok o) (h : o.defines.mapM parseDefine = .error f) :
    run sys args = (fun layer =>
      { code := 1, messages := (match layer.bind (·.withVariables sys.environment) with
          | .ok _ => f
          | .error g => g).text }) <$> (loadConfigLayer sys o).run := by
  have hoptions (c : Config) : c.withOptions o = .error f := by
    rw [Config.withOptions, Config.define_eq, h]
    rfl
  have hrun : (execute sys o).run =
      (fun layer => .error (match layer.bind (·.withVariables sys.environment) with
        | .ok _ => f
        | .error g => g)) <$> (loadConfigLayer sys o).run := by
    rw [execute, loadConfig, map_eq_pure_bind]
    simp only [bind_assoc, ExceptT.run_bind]
    congr 1
    funext layer
    cases layer with
    | error g => rfl
    | ok c =>
      cases hc : c.withVariables sys.environment with
      | error g => simp [Except.bind, hc, Run.ofExcept]
      | ok c' => simp [Except.bind, hc, Run.ofExcept, hoptions]
  rw [run, hargs]
  simp [hrun]

/-- An item says what its first equals sign decides, unless a colon and an equals sign are in the
text behind it. So a text without them is defined as it stands, under the key before the equals
sign, whatever else it holds; a text with them is cut at the first ones, and what stands before is
the key of the document that follows. An item that says something adds this to the defines and
nothing else, and the first one that says nothing ends the run. -/
theorem parseDefine_by_sign (item : String) :
    (parseDefine item = defineAtSign item ↔ ¬ HidesMark item) ∧
    (∀ key value : String, item = key ++ "=" ++ value → '=' ∉ key.toList →
      key.toList.getLast? ≠ some ':' →
      (parseDefine item = .ok (key, .string value) ↔ ¬ [':', '='] <:+: value.toList) ∧
      ∀ before after : String, value = before ++ ":=" ++ after → ¬ [':', '='] <:+: before.toList →
        parseDefine item = documentDefine (key ++ "=" ++ before) after) ∧
    (∀ e, parseDefine item = .ok e →
      ∀ c : Config, c.define [item] = .ok { c with defines := c.defines.insert e.1 e.2 }) ∧
    ∀ f, parseDefine item = .error f → ∀ {m : Type → Type} [Monad m] [LawfulMonad m] (sys : System m)
      (args items rest : List String) (o : Options), Options.parse args = .ok o →
      o.defines = items ++ item :: rest → (∀ i ∈ items, ∃ e, parseDefine i = .ok e) →
      run sys args = (fun layer =>
        { code := 1, messages := (match layer.bind (·.withVariables sys.environment) with
            | .ok _ => f
            | .error g => g).text }) <$> (loadConfigLayer sys o).run := by
  refine ⟨parseDefine_eq_iff item, fun key value hitem hk hlast => ?_, fun e he c => ?_, ?_⟩
  · have hlist : item.toList = key.toList ++ '=' :: value.toList := by
      rw [hitem, String.toList_append, String.toList_append, List.append_assoc]
      rfl
    have hsign : defineAtSign item = .ok (key, .string value) := by
      rw [defineAtSign_eq hlist hk, if_neg hlast, String.ofList_toList, String.ofList_toList]
    have hhidden : HidesMark item ↔ [':', '='] <:+: value.toList := by
      rw [hidesMark_iff hlist hk, and_iff_right hlast]
    refine ⟨by rw [← hsign, parseDefine_eq_iff, hhidden], fun before after hvalue hb => ?_⟩
    have hcut : value.toList = before.toList ++ ':' :: '=' :: after.toList := by
      rw [hvalue, String.toList_append, String.toList_append, List.append_assoc]
      rfl
    have hkey : String.ofList (key.toList ++ '=' :: before.toList) = key ++ "=" ++ before := by
      rw [← String.toList_inj, String.toList_ofList, String.toList_append, String.toList_append,
        List.append_assoc]
      rfl
    rw [parseDefine_of_hidden (hcut ▸ hlist) hk hlast hb, hkey, String.ofList_toList]
  · rw [Config.define_eq, List.mapM_cons, he]
    rfl
  · rintro f hf m _ _ sys args items rest o hargs ho hitems
    exact run_of_defines_error sys hargs (ho ▸ mapM_parseDefine_error hitems hf)

/-- A text with an equals sign and with a colon, and an item whose document is none, on a system
without a config file. -/
theorem parseDefine_by_sign_twice :
    let sys : System Id :=
      { contentsOf := fun _ => .error "", isFile := fun _ => false, readInput := .error "",
        canCreate := fun _ => .ok (), canReplace := fun _ => .ok (), environment := [], home := none }
    let f : Failure := ⟨"invalid raw value 'no' (not valid JSON)", ["malformed JSON text"]⟩
    ¬ HidesMark "a==b:c" ∧ parseDefine "a==b:c" = .ok ("a", .string "=b:c") ∧
      Config.define {} ["a==b:c"] = .ok { defines := [("a", .string "=b:c")] } ∧
      parseDefine "k:=no" = .error f ∧
      run sys ["-Da==b:c", "-Dk:=no"] = { code := 1, messages := f.text } := by
  intro sys f
  have hfree : ¬ [':', '='] <:+: "=b:c".toList := by decide
  have hbad : parseDefine "k:=no" = .error f := by cbv
  obtain ⟨-, hkey, hadd, -⟩ := parseDefine_by_sign "a==b:c"
  have hok := (hkey "a" "=b:c" rfl (by decide) (by decide)).1.2 hfree
  obtain ⟨-, -, -, hstop⟩ := parseDefine_by_sign "k:=no"
  have hlist : "a==b:c".toList = ['a'] ++ '=' :: "=b:c".toList := rfl
  refine ⟨fun h => hfree ((hidesMark_iff hlist (by decide)).1 h).2, hok, hadd _ hok {}, hbad, ?_⟩
  exact (hstop f hbad sys _ ["a==b:c"] [] { defines := ["a==b:c", "k:=no"] } (by cbv) rfl
    fun i hi => ⟨_, List.mem_singleton.1 hi ▸ hok⟩).trans rfl

/-- A text with a colon and an equals sign in it. The item has a key and a text, but what follows
the colon and the equals sign is read as a document, and is none. -/
theorem parseDefine_mark_in_text :
    "q=a:=b" = "q" ++ "=" ++ "a:=b" ∧ defineAtSign "q=a:=b" = .ok ("q", .string "a:=b") ∧
      parseDefine "q=a:=b" =
        .error ⟨"invalid raw value 'b' (not valid JSON)", ["malformed JSON text"]⟩ ∧
      ¬ ∀ key value : String, '=' ∉ key.toList → key.toList.getLast? ≠ some ':' →
        parseDefine (key ++ "=" ++ value) = .ok (key, .string value) := by
  have hbad : parseDefine "q=a:=b" =
      .error ⟨"invalid raw value 'b' (not valid JSON)", ["malformed JSON text"]⟩ := by cbv
  refine ⟨rfl, rfl, hbad, fun h => ?_⟩
  cases hbad.symm.trans (h "q" "a:=b" (by decide) (by decide))

end Stencil.CommandLine

import Mathlib.Data.List.Chain
import Stencil.Proofs.Template.Acceptance
import Stencil.Proofs.Template.Numeral

/-!
# Printing trees

Which trees are the trees of templates, and how such a tree is written again. A tree
may be printed in several ways, as numbers have many numerals and a nested call
without arguments may do without brackets; all of them are read as the same tree.

* `Tree.WellFormed`: the trees of templates;
* `Tree.Printed`: the sources that a tree is printed as;
* `wellFormed_of_source`: what is read is well formed;
* `source_of_printed`: what is printed is a source of the tree.
-/

namespace Stencil.Template

/-! ## Well-formed trees -/

mutual

/-- How many calls stand inside each other in an argument. -/
def Argument.depth : Argument → Nat
  | .string _ | .number _ => 0
  | .call _ args => Argument.depthAll args + 1

/-- How many calls stand inside each other in arguments. -/
def Argument.depthAll : List Argument → Nat
  | [] => 0
  | a :: rest => max a.depth (Argument.depthAll rest)

end

/-- How many calls stand inside each other, this one included. -/
def Call.depth (c : Call) : Nat := Argument.depthAll c.args + 1

/-- An argument that can be written: the paths of its calls are paths of nested calls, and
its numbers are the ones that a numeral stands for. -/
inductive Argument.WellFormed : Argument → Prop
  | string (s : String) : WellFormed (.string s)
  | number {cs : List Char} {x : Float} : TightNumeral cs x → WellFormed (.number x)
  | call {path : String} {args : List Argument} :
      NestedPath path.toList → (∀ a ∈ args, a.WellFormed) → WellFormed (.call path args)

/-- The call of a variable that can be written. -/
structure Call.WellFormed (c : Call) : Prop where
  path : RootPath c.path.toList
  args : ∀ a ∈ c.args, a.WellFormed
  depth : c.depth ≤ maxNesting

/-- A node that can be written: a text that is not empty, or a variable. -/
inductive Node.WellFormed : Node → Prop
  | text {s : String} : s ≠ "" → WellFormed (.text s)
  | call {c : Call} : c.WellFormed → WellFormed (.call c)

/-- The node is literal text. -/
def Node.isText : Node → Bool
  | .text _ => true
  | .call _ => false

/-- A tree that can be written: its nodes can, and no two texts are neighbours. -/
structure Tree.WellFormed (t : Tree) : Prop where
  nodes : ∀ n ∈ t.nodes, n.WellFormed
  apart : t.nodes.IsChain fun m n => ¬ (m.isText ∧ n.isText)

/-! ## What is read is well formed -/

theorem wellFormed_of_word {room : Nat} {cs : List Char} {a : Argument} (h : Word room cs a) :
    a.WellFormed ∧ a.depth ≤ room := by
  cases h with
  | string n hl => exact ⟨.string _, Nat.zero_le _⟩
  | number hx =>
    obtain ⟨ds, hd⟩ := hx.exists_tight
    exact ⟨.number hd, Nat.zero_le _⟩
  | reference hroom hp => exact ⟨.call (by rwa [String.toList_ofList]) (by simp), hroom⟩

theorem wellFormed_of_arguments {room : Nat} {cs : List Char} {as : List Argument}
    (h : Arguments room cs as) : (∀ a ∈ as, a.WellFormed) ∧ Argument.depthAll as ≤ room := by
  induction h with
  | close => exact ⟨by simp, Nat.zero_le _⟩
  | skip _ _ ih => exact ih
  | last hw =>
    obtain ⟨hwf, hd⟩ := wellFormed_of_word hw
    exact ⟨by simpa using hwf, by simpa [Argument.depthAll] using hd⟩
  | more hw _ ih =>
    obtain ⟨hwf, hd⟩ := wellFormed_of_word hw
    exact ⟨by simpa [hwf] using ih.1, Nat.max_le.mpr ⟨hd, ih.2⟩⟩
  | @nested room w inner cs args as hp _ _ ih₁ ih₂ =>
    have hcall : (Argument.call (String.ofList w) args).WellFormed :=
      .call (by rwa [String.toList_ofList]) ih₁.1
    have hd : (Argument.call (String.ofList w) args).depth ≤ room + 1 := by
      simp only [Argument.depth]
      have := ih₁.2
      omega
    exact ⟨by simpa [hcall] using ih₂.1, Nat.max_le.mpr ⟨hd, ih₂.2⟩⟩

theorem wellFormed_of_variable {cs : List Char} {c : Call} (h : Variable cs c) : c.WellFormed := by
  cases h with
  | bare hp | comma hp | bracket hp =>
    exact ⟨by rwa [String.toList_ofList], by simp, by simp [Call.depth, Argument.depthAll, maxNesting]⟩
  | call hp ha =>
    obtain ⟨hwf, hd⟩ := wellFormed_of_arguments ha
    refine ⟨by rwa [String.toList_ofList], hwf, ?_⟩
    simp only [Call.depth]
    simp only [maxNesting] at hd ⊢
    omega

theorem wellFormed_textNodes (s : List Char) : ∀ n ∈ textNodes s, n.WellFormed := by
  intro n hn
  unfold textNodes at hn
  split at hn
  · cases hn
  · rename_i hs
    rw [List.mem_singleton.mp hn]
    exact .text (by simpa using hs)

theorem wellFormed_of_source {cs : List Char} {ns : List Node} (h : Source cs ns) :
    Tree.WellFormed ⟨ns⟩ := by
  have htext (s : List Char) : Tree.WellFormed ⟨textNodes s⟩ :=
    ⟨wellFormed_textNodes s, by unfold textNodes; split <;> simp⟩
  induction h with
  | text hl | lone hl => exact htext _
  | @braces cs s v rest call ns hl hv _ ih =>
    have hcall := wellFormed_of_variable hv
    refine ⟨fun n hn => ?_, ?_⟩
    · simp only [List.mem_append, List.mem_cons] at hn
      rcases hn with hn | rfl | hn
      · exact wellFormed_textNodes s n hn
      · exact .call hcall
      · exact ih.nodes n hn
    · have hnodes : (Node.call call :: ns).IsChain fun m n => ¬ (m.isText ∧ n.isText) :=
        ih.apart.cons fun n _ => by simp [Node.isText]
      unfold textNodes
      split
      · exact hnodes
      · exact hnodes.cons fun n hn => by
          simp only [List.head?_cons, Option.mem_some_iff] at hn
          simp [← hn, Node.isText]

/-! ## Printed forms -/

/-- Writes a backslash before every backslash and every `stop`. -/
def escape (stop : Char) : List Char → List Char
  | [] => []
  | c :: cs => if c = '\\' ∨ c = stop then '\\' :: c :: escape stop cs else c :: escape stop cs

mutual

/-- The ways to print an argument: a text in quotes, a number by a numeral, and a call by its
path with its arguments in brackets, or by its path alone if it has none. -/
inductive Argument.Printed : Argument → List Char → Prop
  | string (s : String) : Printed (.string s) ('"' :: (escape '"' s.toList ++ ['"']))
  | number {cs : List Char} {x : Float} : TightNumeral cs x → Printed (.number x) cs
  | call {path : String} {args : List Argument} {cs : List Char} :
      Argument.PrintedAll args cs → Printed (.call path args) (path.toList ++ '(' :: (cs ++ [')']))
  | bare (path : String) : Printed (.call path []) path.toList

/-- The ways to print arguments, with commas between them. -/
inductive Argument.PrintedAll : List Argument → List Char → Prop
  | nil : PrintedAll [] []
  | single {a : Argument} {cs : List Char} : a.Printed cs → PrintedAll [a] cs
  | cons {a b : Argument} {as : List Argument} {cs ds : List Char} :
      a.Printed cs → PrintedAll (b :: as) ds → PrintedAll (a :: b :: as) (cs ++ ',' :: ds)

end

/-- The ways to print nodes: texts as they are with backslashes where they are needed, and
calls between braces with their arguments in brackets. -/
inductive Node.PrintedAll : List Node → List Char → Prop
  | nil : PrintedAll [] []
  | text {s : String} {ns : List Node} {cs : List Char} :
      PrintedAll ns cs → PrintedAll (.text s :: ns) (escape '{' s.toList ++ cs)
  | call {c : Call} {ns : List Node} {inner cs : List Char} :
      Argument.PrintedAll c.args inner → PrintedAll ns cs →
      PrintedAll (.call c :: ns) ('{' :: (c.path.toList ++ '(' :: (inner ++ [')'])) ++ '}' :: cs)

/-- The source is a printed form of the tree. -/
def Tree.Printed (t : Tree) (source : String) : Prop := Node.PrintedAll t.nodes source.toList

/-! ## What is printed is read -/

theorem literal_escape (stop : Char) (s : List Char) : Literal stop (escape stop s) s := by
  induction s with
  | nil => exact .nil
  | cons c s ih =>
    unfold escape
    split
    · exact .escaped ih
    · rename_i h
      rw [not_or] at h
      exact .plain h.1 h.2 ih

/-- A word in an argument list, at its end or before more arguments. -/
def Listed (room : Nat) (cs : List Char) (a : Argument) : Prop :=
  Arguments room (cs ++ [')']) [a] ∧
    ∀ ds as, Arguments room ds as → Arguments room (cs ++ ',' :: ds) (a :: as)

theorem listed_of_word {room : Nat} {cs : List Char} {a : Argument} (h : Word room cs a) :
    Listed room cs a :=
  ⟨.last h, fun _ _ => .more h⟩

theorem listed_call {room : Nat} {w inner : List Char} {args : List Argument} (hw : NestedPath w)
    (h : Arguments room (inner ++ [')']) args) :
    Listed (room + 1) (w ++ '(' :: (inner ++ [')'])) (.call (String.ofList w) args) := by
  have hargs {ds : List Char} {as : List Argument} (hd : Arguments (room + 1) ds as) :=
    Arguments.nested hw h hd
  refine ⟨by simpa using hargs .close, fun ds as hd => ?_⟩
  simpa using hargs (.skip (c := ',') rfl hd)

mutual

/-- A printed argument can stand in an argument list. -/
theorem listed_of_printed {room : Nat} {a : Argument} {cs : List Char} (hp : a.Printed cs)
    (hw : a.WellFormed) (hd : a.depth ≤ room) : Listed room cs a := by
  cases hp with
  | string s =>
    have hl : Word room _ _ := .string 0 (literal_escape '"' s.toList)
    rw [String.ofList_toList] at hl
    exact listed_of_word (by simpa using hl)
  | number hx => exact listed_of_word (.number hx.numeral)
  | call hall =>
    cases hw with
    | call hpath hargs =>
      simp only [Argument.depth] at hd
      obtain ⟨room, rfl⟩ : ∃ m, room = m + 1 := ⟨room - 1, by omega⟩
      have hc := listed_call hpath (arguments_of_printed hall hargs (Nat.le_of_succ_le_succ hd))
      rwa [String.ofList_toList] at hc
  | bare path =>
    cases hw with
    | call hpath _ =>
      have hr : Word room _ _ := .reference (Nat.lt_of_lt_of_le (Nat.succ_pos _) hd) hpath
      rw [String.ofList_toList] at hr
      exact listed_of_word hr

/-- Printed arguments with a closing bracket are an argument list. -/
theorem arguments_of_printed {room : Nat} {as : List Argument} {cs : List Char}
    (hp : Argument.PrintedAll as cs) (hw : ∀ a ∈ as, a.WellFormed) (hd : Argument.depthAll as ≤ room) :
    Arguments room (cs ++ [')']) as := by
  cases hp with
  | nil => exact .close
  | single ha => exact (listed_of_printed ha (hw _ (by simp)) (by simpa [Argument.depthAll] using hd)).1
  | @cons a b as cs ds ha has =>
    obtain ⟨h₁, h₂⟩ := Nat.max_le.mp hd
    have hrest := arguments_of_printed has (fun a ha => hw a (List.mem_cons_of_mem _ ha)) h₂
    simpa using (listed_of_printed ha (hw _ (by simp)) h₁).2 _ _ hrest

end

theorem variable_of_printed {c : Call} {inner : List Char} (hp : Argument.PrintedAll c.args inner)
    (hw : c.WellFormed) : Variable (c.path.toList ++ '(' :: (inner ++ [')'])) c := by
  have hd : Argument.depthAll c.args ≤ maxNesting - 1 := Nat.le_sub_of_add_le hw.depth
  have hv := Variable.call hw.path (arguments_of_printed hp hw.args hd)
  rwa [String.ofList_toList] at hv

theorem Literal.append {stop : Char} {cs ds s t : List Char} (h : Literal stop cs s)
    (h' : Literal stop ds t) : Literal stop (cs ++ ds) (s ++ t) := by
  induction h with
  | nil => exact h'
  | plain hb hs _ ih => exact .plain hb hs ih
  | escaped _ ih => exact .escaped ih

theorem eq_nil_of_textNodes {s : List Char} (ns : List Node)
    (h : ∀ n ∈ (textNodes s ++ ns).head?, n.isText = false) : s = [] := by
  by_contra hs
  have := h (.text (String.ofList s)) (by simp [textNodes, hs])
  cases this

/-- Literal text before a source that does not begin with text is a node of its own. -/
theorem Source.prepend {cs ds s : List Char} {ns : List Node} (h : Source ds ns)
    (hn : ∀ n ∈ ns.head?, n.isText = false) (hl : Literal '{' cs s) (hs : s ≠ []) :
    Source (cs ++ ds) (.text (String.ofList s) :: ns) := by
  have htext : textNodes s = [.text (String.ofList s)] := if_neg hs
  cases h with
  | @text ds t ht =>
    obtain rfl := eq_nil_of_textNodes [] (by simpa using hn)
    have := Source.text (hl.append ht)
    rwa [List.append_nil, htext] at this
  | @lone ds t ht =>
    obtain rfl := eq_nil_of_textNodes [] (by simpa using hn)
    have := Source.lone (hl.append ht)
    rwa [List.append_nil, htext, List.append_assoc] at this
  | @braces ds t v rest call ns ht hv hr =>
    obtain rfl := eq_nil_of_textNodes _ hn
    have := Source.braces (hl.append ht) hv hr
    rwa [List.append_nil, htext, List.append_assoc] at this

/-- A printed form of a well-formed tree is a source of it. -/
theorem source_of_printed {ns : List Node} {cs : List Char} (hp : Node.PrintedAll ns cs)
    (hw : Tree.WellFormed ⟨ns⟩) : Source cs ns := by
  induction hp with
  | nil => exact .text .nil
  | @text s ns cs _ ih =>
    have hrest : Tree.WellFormed ⟨ns⟩ :=
      ⟨fun n hn => hw.nodes n (List.mem_cons_of_mem _ hn), hw.apart.tail⟩
    have hs : s.toList ≠ [] := by
      cases hw.nodes _ List.mem_cons_self with
      | text hs => simpa using hs
    have hn : ∀ n ∈ ns.head?, n.isText = false := fun n hn => by
      have := hw.apart.rel_head? hn
      simpa [Node.isText] using this
    have := (ih hrest).prepend hn (literal_escape '{' s.toList) hs
    rwa [String.ofList_toList] at this
  | @call c ns inner cs ha _ ih =>
    have hrest : Tree.WellFormed ⟨ns⟩ :=
      ⟨fun n hn => hw.nodes n (List.mem_cons_of_mem _ hn), hw.apart.tail⟩
    have hc : c.WellFormed := by
      cases hw.nodes _ List.mem_cons_self with
      | call hc => exact hc
    have := Source.braces .nil (variable_of_printed ha hc) (ih hrest)
    simpa [textNodes] using this

/-! ## There is a printed form -/

theorem exists_printedAll {as : List Argument} (h : ∀ a ∈ as, ∃ cs, a.Printed cs) :
    ∃ cs, Argument.PrintedAll as cs := by
  induction as with
  | nil => exact ⟨[], .nil⟩
  | cons a as ih =>
    obtain ⟨cs, ha⟩ := h a List.mem_cons_self
    obtain ⟨ds, hd⟩ := ih fun b hb => h b (List.mem_cons_of_mem _ hb)
    cases as with
    | nil => exact ⟨cs, .single ha⟩
    | cons b as => exact ⟨_, .cons ha hd⟩

theorem Argument.WellFormed.exists_printed {a : Argument} (h : a.WellFormed) : ∃ cs, a.Printed cs := by
  induction h with
  | string s => exact ⟨_, .string s⟩
  | number hx => exact ⟨_, .number hx⟩
  | call _ _ ih =>
    obtain ⟨cs, h⟩ := exists_printedAll ih
    exact ⟨_, .call h⟩

theorem exists_printed_nodes {ns : List Node} (h : ∀ n ∈ ns, n.WellFormed) :
    ∃ cs, Node.PrintedAll ns cs := by
  induction ns with
  | nil => exact ⟨[], .nil⟩
  | cons n ns ih =>
    obtain ⟨cs, hns⟩ := ih fun m hm => h m (List.mem_cons_of_mem _ hm)
    cases h n List.mem_cons_self with
    | text hs => exact ⟨_, .text hns⟩
    | call hc =>
      obtain ⟨inner, hi⟩ := exists_printedAll fun a ha => (hc.args a ha).exists_printed
      exact ⟨_, .call hi hns⟩

/-- The well-formed trees are exactly the trees of templates. Each of them can be printed,
and whichever way it is printed, it is read again as the same tree. -/
theorem wellFormed_iff_and_parseTree_printed (t : Tree) :
    (t.WellFormed ↔ ∃ source, parseTree source = .ok t) ∧
      (t.WellFormed → (∃ source, t.Printed source) ∧
        ∀ source, t.Printed source → parseTree source = .ok t) := by
  have hread {source : String} : parseTree source = .ok t ↔ Source source.toList t.nodes :=
    parseTree_ok_iff.trans parse_eq_ok_iff
  have hprint (hw : t.WellFormed) : ∃ source, t.Printed source := by
    obtain ⟨cs, h⟩ := exists_printed_nodes hw.nodes
    exact ⟨String.ofList cs, by rwa [Tree.Printed, String.toList_ofList]⟩
  have hagain (hw : t.WellFormed) (source : String) (hp : t.Printed source) : parseTree source = .ok t :=
    hread.mpr (source_of_printed hp hw)
  refine ⟨⟨fun hw => ?_, fun ⟨source, h⟩ => wellFormed_of_source (hread.mp h)⟩,
    fun hw => ⟨hprint hw, hagain hw⟩⟩
  obtain ⟨source, hp⟩ := hprint hw
  exact ⟨source, hagain hw source hp⟩

/-- A text and a call whose arguments are a bare bracket and a call with a quote. -/
theorem parseTree_printed_nested :
    Tree.WellFormed ⟨[.text "\x7b", .call ⟨"f", [.call "(" [], .call "g" [.string "\""]]⟩]⟩ ∧
      parseTree "\\\x7b\x7bf((,g(\"\\\"\"))\x7d" =
        .ok ⟨[.text "\x7b", .call ⟨"f", [.call "(" [], .call "g" [.string "\""]]⟩]⟩ := by
  have hg : Argument.WellFormed (.call "g" [.string "\""]) :=
    .call (.mk (c := 'g') rfl (by simp)) (by simpa using .string "\"")
  have hb : Argument.WellFormed (.call "(" []) := .call (.mk (c := '(') rfl (by simp)) (by simp)
  have hw : Tree.WellFormed ⟨[.text "\x7b", .call ⟨"f", [.call "(" [], .call "g" [.string "\""]]⟩]⟩ := by
    refine ⟨fun n hn => ?_, by simp [Node.isText]⟩
    simp only [List.mem_cons, List.not_mem_nil, or_false] at hn
    rcases hn with rfl | rfl
    · exact .text (by simp)
    · exact .call ⟨⟨by simp, by simp [endsPath]⟩, by simp [hg, hb], by decide⟩
  have hp : Tree.Printed ⟨[.text "\x7b", .call ⟨"f", [.call "(" [], .call "g" [.string "\""]]⟩]⟩
      "\\\x7b\x7bf((,g(\"\\\"\"))\x7d" := by
    have hargs : Argument.PrintedAll [.call "(" [], .call "g" [.string "\""]] _ :=
      .cons (.bare "(") (.single (.call (.single (.string "\""))))
    have h := Node.PrintedAll.text (s := "\x7b") (.call (c := ⟨"f", _⟩) hargs .nil)
    simpa [Tree.Printed, escape] using h
  exact ⟨hw, ((wellFormed_iff_and_parseTree_printed _).2 hw).2 _ hp⟩

end Stencil.Template

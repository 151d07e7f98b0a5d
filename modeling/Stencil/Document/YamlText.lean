import Stencil.Document.Yaml
import Stencil.Document.YamlEvent

/-!
# YAML text

The tree of a document from its events. An alias stands for the node with its anchor and is
read as that node is, within the collections that are open around it.

* `link?`: the place of the node that each alias stands for;
* `tagScalar?`: what a scalar with a tag stands for;
* `ofEvents?`: the document of some events;
* `parse?`: the document of a text.

The readers are given a number of steps, which the number of events bounds, and the number of
collections that may still be opened within one another.
-/

namespace Stencil.Yaml

/-- How many collections may stand within one another. -/
def depthLimit : Nat := 128

/-- How many aliases may be followed for each event. -/
def aliasLimit : Nat := 100

/-! ## Aliases -/

/-- The anchors that have been read. Each is given a number, which an alias stands for; a
later node with that number takes the place of an earlier one. -/
structure Anchors where
  numbers : List (String × Nat)
  /-- The places of the nodes with a number, latest first. -/
  places : List (Nat × Nat)

/-- An anchor more. Its number is how many different anchors there were before. -/
def Anchors.add (place : Nat) (name : String) (a : Anchors) : Anchors :=
  let number := a.numbers.length
  ⟨(name, number) :: a.numbers.filter (·.1 != name), (number, place) :: a.places⟩

/-- The events with the numbers of the anchors that the aliases name, and all anchors. -/
def number? (a : Anchors) (place : Nat) : List (Event String) → Option (List (Event Nat) × Anchors)
  | [] => some ([], a)
  | e :: rest => do
    let a := match e.anchor? with
      | some name => a.add place name
      | none => a
    let e ← e.retarget? fun name => a.numbers.lookup name
    let (rest, a) ← number? a (place + 1) rest
    return (e :: rest, a)

/-- The events with the places of the nodes that the aliases stand for. -/
def link? (es : List (Event String)) : Option (List (Event Nat)) := do
  let (es, a) ← number? ⟨[], []⟩ 0 es
  es.mapM (Event.retarget? fun number => a.places.lookup number)

/-! ## Tags -/

/-- A tag of the language itself. -/
def coreTag (name : String) : Bytes := ("tag:yaml.org,2002:" ++ name).toUTF8.toList

/-- The tag starts with an exclamation mark: the document gives it a meaning of its own. -/
def isLocal (tag : Bytes) : Bool := tag.head? == some 0x21

/-- The name that such a tag gives, unless it is no text. -/
def localName? (tag : Bytes) : Option String :=
  if isLocal tag then String.fromUTF8? ⟨tag.tail.toArray⟩ else none

/-- A name without another exclamation mark in front, unless nothing is left. -/
def bareName (name : String) : String :=
  match name.toList with
  | '!' :: c :: rest => String.ofList (c :: rest)
  | _ => name

/-- A node under the name of its tag, which may not be empty. -/
def tagNode? (tag : Option Bytes) (y : Yaml) : Option Yaml :=
  match tag.bind localName? with
  | some name => if name == "" then none else some (tagged (bareName name) y)
  | none => some y

/-- What a scalar with a tag stands for. A tag of the language itself asks for what it names; a
plain scalar with any other tag but a local one is a text. -/
def tagScalar? (tag : Option Bytes) (plain : Bool) (cs : List Char) : Option Json :=
  let text := String.ofList cs
  if tag == some (coreTag "bool") then (bool? text).map .bool
  else if tag == some (coreTag "int") then ((integer? cs).bind integerScalar?).join
  else if tag == some (coreTag "float") then (float? cs).map .float
  else if tag == some (coreTag "null") then if isNull text then some .null else none
  else if plain && tag.all isLocal then resolve? cs
  else some (.string text)

/-! ## Readers -/

/-- Adds an entry in front unless its key is there already. -/
def addEntry? (entries : List (Yaml × Yaml)) (key value : Yaml) : Option (List (Yaml × Yaml)) :=
  if entries.any fun e => e.1.same key then none else some ((key, value) :: entries)

/-- The events that are left, and how many aliases may still be followed. -/
structure Replay where
  events : List (Event Nat)
  aliases : Nat

/-- A reader of events. -/
abbrev Builder := StateT Replay Option

namespace Builder

/-- Takes the next event. -/
def next : Builder (Event Nat) := do
  match (← get).events with
  | e :: rest => modify fun r => { r with events := rest }; return e
  | [] => failure

/-- Ends here if the next event is the end of a sequence or mapping, which is taken. -/
def atEnd : Builder Bool := do
  match (← get).events with
  | .sequenceEnd :: rest | .mappingEnd :: rest => modify fun r => { r with events := rest }; return true
  | _ => return false

/-- Reads what stands at another place, and then goes on here. -/
def elsewhere (events : List (Event Nat)) (read : Builder Yaml) : Builder Yaml := do
  let r ← get
  if r.aliases = 0 then failure
  set (⟨events, r.aliases - 1⟩ : Replay)
  let y ← read
  modify fun after => { after with events := r.events }
  return y

/-- A node under the name of its tag. -/
def tag (p : Properties) (y : Yaml) : Builder Yaml :=
  match tagNode? p.tag y with
  | some y => return y
  | none => failure

variable (all : List (Event Nat))

mutual

/-- A node. An alias is read from the place that it stands for, in all events. -/
def node : (steps depth : Nat) → Builder Yaml
  | 0, _ => failure
  | steps + 1, depth => do
    match ← next, depth with
    | .aliasTo place, depth => elsewhere (all.drop place) (node steps depth)
    | .scalar p plain text, _ =>
      match tagScalar? p.tag plain text with
      | some j => tag p (.scalar j)
      | none => failure
    | .sequenceStart p, depth + 1 => tag p (.sequence (← items steps depth []))
    | .mappingStart p, depth + 1 => tag p (.mapping (← entries steps depth []))
    | _, _ => failure

/-- The items of a sequence, latest first. -/
def items : (steps depth : Nat) → List Yaml → Builder (List Yaml)
  | 0, _, _ => failure
  | steps + 1, depth, out => do
    if ← atEnd then return out.reverse
    items steps depth ((← node steps depth) :: out)

/-- The entries of a mapping, latest first. No key may stand there twice. -/
def entries : (steps depth : Nat) → List (Yaml × Yaml) → Builder (List (Yaml × Yaml))
  | 0, _, _ => failure
  | steps + 1, depth, out => do
    if ← atEnd then return out.reverse
    let key ← node steps depth
    let value ← node steps depth
    match addEntry? out key value with
    | some out => entries steps depth out
    | none => failure

end

end Builder

/-! ## Texts -/

/-- The document of some events, which is null without any. -/
def ofEvents? (es : List (Event String)) : Option Yaml := do
  let es ← link? es
  if es.isEmpty then return scalar .null
  let steps := (depthLimit + 1) * (es.length + 4)
  let (y, _) ← (Builder.node es steps depthLimit).run ⟨es, aliasLimit * es.length⟩
  return y

/-- The document of a text. -/
def parse? (text : String) : Option Yaml := do ofEvents? (← Event.ofTokens? (← Token.ofText? text))

end Stencil.Yaml

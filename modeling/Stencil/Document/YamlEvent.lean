import Stencil.Document.YamlToken

/-!
# YAML events

The tree of a document node by node, in the order in which it is written: scalars, aliases,
and where sequences and mappings start and end. What is left out where a node may stand is
an empty scalar. Anchors and tags belong to the nodes that they stand in front of, and the
handles of the tags are written out.

* `Event.ofTokens?`: the events of the only document of some tokens.

The readers are given a number of steps, which the number of tokens bounds.
-/

namespace Stencil.Yaml

/-- What stands in front of a node. -/
structure Properties where
  anchor : Option String := none
  tag : Option Bytes := none

/-- A step through a document. Aliases say in their own way which node they stand for. -/
inductive Event (α : Type)
  | aliasTo (target : α)
  | scalar (p : Properties) (plain : Bool) (text : List Char)
  | sequenceStart (p : Properties)
  | sequenceEnd
  | mappingStart (p : Properties)
  | mappingEnd

namespace Event

variable {α β : Type}

/-- A node that is left out. -/
def missing : Event α := .scalar {} true []

/-- The anchor of the node that starts here. -/
def anchor? : Event α → Option String
  | scalar p _ _ | sequenceStart p | mappingStart p => p.anchor
  | aliasTo _ | sequenceEnd | mappingEnd => none

/-- The event with another way to say what an alias stands for, if there is one. -/
def retarget? (f : α → Option β) : Event α → Option (Event β)
  | aliasTo target => (f target).map aliasTo
  | scalar p plain text => some (scalar p plain text)
  | sequenceStart p => some (sequenceStart p)
  | sequenceEnd => some sequenceEnd
  | mappingStart p => some (mappingStart p)
  | mappingEnd => some mappingEnd

end Event

/-! ## Handles -/

/-- The handles of a document, and the starts of the tags that are written with them. -/
abbrev Handles := List (String × Bytes)

/-- The handles that need no directive. -/
def standardHandles : Handles := [("!", [0x21]), ("!!", "tag:yaml.org,2002:".toUTF8.toList)]

/-- A tag with its handle written out. -/
def Tag.full? (handles : Handles) (t : Tag) : Option Bytes :=
  if t.handle == "" then some t.rest else (handles.lookup t.handle).map (· ++ t.rest)

/-- The handles of the directives in front of a document, and the tokens after them. The version
is given at most once, and each handle too. -/
def takeDirectives? (versioned : Bool) (handles : Handles) : List Token → Option (Handles × List Token)
  | .directive (.version major minor) :: rest =>
    if versioned || major ≠ 1 || (minor ≠ 1 && minor ≠ 2) then none else takeDirectives? true handles rest
  | .directive (.handle name start) :: rest =>
    if (handles.lookup name).isSome then none else takeDirectives? versioned ((name, start) :: handles) rest
  | ts => some (handles ++ standardHandles, ts)

/-! ## Readers -/

/-- The tokens that are left, and the events so far, latest first. -/
structure Reading where
  tokens : List Token
  events : List (Event String)

/-- A reader of tokens that writes events. -/
abbrev Reader := StateT Reading Option

namespace Reader

/-- The next token. -/
def next : Reader (Option Token) := do return (← get).tokens.head?

/-- Passes the next token over. -/
def skip : Reader Unit := modify fun r => { r with tokens := r.tokens.tail }

/-- Adds an event. -/
def emit (e : Event String) : Reader Unit := modify fun r => { r with events := e :: r.events }

/-- The next token is one of these. -/
def isAt (marks : List Token) : Reader Bool := do return (← next).any marks.contains

/-- Passes the next token over if it is this one. -/
def accept (t : Token) : Reader Bool := do
  let found := (← next) == some t
  if found then skip
  return found

/-- Passes over the next token, which has to be this one. -/
def expect (t : Token) : Reader Unit := do
  unless ← accept t do failure

/-- An anchor, if there is one. -/
def anchor : Reader (Option String) := do
  match ← next with
  | some (.anchor name) => skip; return name
  | _ => return none

/-- A tag, if there is one. -/
def tag (handles : Handles) : Reader (Option Bytes) := do
  match ← next with
  | some (.tag t) =>
    skip
    match t.full? handles with
    | some bytes => return some bytes
    | none => failure
  | _ => return none

/-- What stands in front of a node: an anchor and a tag, in either order. -/
def properties (handles : Handles) : Reader Properties := do
  let first ← anchor
  let tag ← tag handles
  let anchor ← if first.isSome then pure first else anchor
  return { anchor, tag }

/-- A scalar with its properties. The tag of an exclamation mark alone is no tag of a scalar. -/
def scalar (p : Properties) (plain : Bool) (text : List Char) : Reader Unit := do
  skip
  emit (.scalar { p with tag := p.tag.filter (· != Tag.plain.rest) } plain text)

/-- A node without content, which only its properties show. -/
def bare (p : Properties) : Reader Unit := do
  if p.anchor.isNone && p.tag.isNone then failure
  emit (.scalar p true [])

variable (handles : Handles)

mutual

/-- A node. Block collections stand only outside of brackets; after a key or a colon the
items of a block sequence may stand in the column of the mapping. -/
def node : (steps : Nat) → (block unindented : Bool) → Reader Unit
  | 0, _, _ => failure
  | steps + 1, block, unindented => do
    match ← next with
    | some (.aliasTo name) => skip; emit (.aliasTo name)
    | _ =>
      let p ← properties handles
      match ← next with
      | some (.plain text) => scalar p true text
      | some (.quoted text) => scalar p false text
      | some .flowSequence => skip; emit (.sequenceStart p); flowItems steps true
      | some .flowMapping => skip; emit (.mappingStart p); flowEntries steps true
      | some .item => if unindented then emit (.sequenceStart p); items steps false else bare p
      | some .blockSequence => if block then skip; emit (.sequenceStart p); items steps true else bare p
      | some .blockMapping => if block then skip; emit (.mappingStart p); entries steps else bare p
      | _ => bare p

/-- A node, or nothing before one of these marks. -/
def optional : (steps : Nat) → (block : Bool) → (marks : List Token) → Reader Unit
  | 0, _, _ => failure
  | steps + 1, block, marks => do
    if ← isAt marks then emit .missing else node steps block block

/-- The items of a block sequence. Items in the column of a mapping end with the first
other token. -/
def items : (steps : Nat) → (indented : Bool) → Reader Unit
  | 0, _ => failure
  | steps + 1, indented => do
    if ← accept .item then
      let marks := if indented then [.item, .blockEnd] else [.item, .key, .value, .blockEnd]
      if ← isAt marks then emit .missing else node steps true false
      items steps indented
    else
      if indented then expect .blockEnd
      emit .sequenceEnd

/-- The entries of a block mapping. -/
def entries : (steps : Nat) → Reader Unit
  | 0 => failure
  | steps + 1 => do
    if ← accept .key then
      let marks := [.key, .value, .blockEnd]
      optional steps true marks
      if ← accept .value then optional steps true marks else emit .missing
      entries steps
    else
      expect .blockEnd
      emit .mappingEnd

/-- The items of a sequence between brackets. An item with a key is a mapping of one
entry. -/
def flowItems : (steps : Nat) → (first : Bool) → Reader Unit
  | 0, _ => failure
  | steps + 1, first => do
    if ← accept .flowSequenceEnd then emit .sequenceEnd
    else
      unless first do expect .comma
      if ← accept .flowSequenceEnd then emit .sequenceEnd
      else
        if ← accept .key then pair steps else node steps false false
        flowItems steps false

/-- The mapping that an item with a key makes. Where the key itself is left out, the mark
in its place is passed over. -/
def pair : (steps : Nat) → Reader Unit
  | 0 => failure
  | steps + 1 => do
    emit (.mappingStart {})
    if ← isAt [.value, .comma, .flowSequenceEnd] then skip; emit .missing
    else node steps false false
    if ← accept .value then optional steps false [.comma, .flowSequenceEnd] else emit .missing
    emit .mappingEnd

/-- The entries of a mapping between braces. -/
def flowEntries : (steps : Nat) → (first : Bool) → Reader Unit
  | 0, _ => failure
  | steps + 1, first => do
    if ← accept .flowMappingEnd then emit .mappingEnd
    else
      unless first do expect .comma
      if ← accept .flowMappingEnd then emit .mappingEnd
      else
        if ← accept .key then
          optional steps false [.value, .comma, .flowMappingEnd]
          if ← accept .value then optional steps false [.comma, .flowMappingEnd]
          else emit .missing
        else
          node steps false false
          emit .missing
        flowEntries steps false

end

/-- A document, with the mark of its start if `marked`; only then may it be empty. Marks may
stand after it. -/
def document (steps : Nat) (marked : Bool) : Reader Unit := do
  let isEmpty := (← next).isNone || (← isAt [.documentStart, .documentEnd])
  if marked && isEmpty then emit .missing else node handles steps true false
  unless (← get).tokens.all (· == .documentEnd) do failure

end Reader

/-- The events of the only document of some tokens; none at all without any token. After
directives the mark of its start has to stand. -/
def Event.ofTokens? (ts : List Token) : Option (List (Event String)) := do
  if ts.isEmpty then return []
  let (handles, rest) ← takeDirectives? false [] ts
  let marked := rest.head? == some .documentStart
  if rest.length < ts.length && !marked then failure
  let start := if marked then rest.tail else rest
  let ((), r) ← (Reader.document handles (3 * ts.length + 3) marked).run ⟨start, []⟩
  return r.events.reverse

end Stencil.Yaml

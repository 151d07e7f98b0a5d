import Stencil.Document.YamlBlock
import Stencil.Document.YamlProperty

/-!
# YAML tokens

A YAML text as marks, scalars and what stands in front of nodes. Indentation has become
marks of its own here: where a block collection starts and where it ends. So has the place
of a key, which shows only when the colon after it is read.

* `Token.ofText?`: the tokens of a text; none where a character, an indent or a key
  is out of place.
-/

namespace Stencil.Yaml

/-- A mark, a scalar, or what a node has in front of it. -/
inductive Token
  | directive (d : Directive)
  | documentStart
  | documentEnd
  | blockSequence
  | blockMapping
  | blockEnd
  | flowSequence
  | flowSequenceEnd
  | flowMapping
  | flowMappingEnd
  /-- An item of a block sequence follows. -/
  | item
  | comma
  /-- A key follows. -/
  | key
  /-- A value follows. -/
  | value
  | aliasTo (name : String)
  | anchor (name : String)
  | tag (t : Tag)
  | plain (text : List Char)
  /-- A scalar in quotes, or in a block of its own. -/
  | quoted (text : List Char)
  deriving DecidableEq

/-- A token that may turn out to start a key. -/
structure Candidate where
  /-- How many tokens come before. -/
  number : Nat
  place : Place
  /-- It stands where every token starts a key. -/
  required : Bool

/-- A key ends on its line, within 1024 characters. -/
def Candidate.isPast (c : Candidate) (p : Place) : Bool :=
  c.place.line < p.line || c.place.column + 1024 < p.column

/-- The tokens read so far, and what they say about the tokens to come. -/
structure Lexer where
  cursor : Cursor
  tokens : Array Token
  /-- The columns of the open block collections, the innermost first. -/
  indents : List Nat
  /-- The candidate within the innermost bracket. -/
  candidate : Option Candidate
  /-- The candidates around each open bracket, the innermost first. -/
  outer : List (Option Candidate)
  /-- A key may start at the next token. -/
  keyAllowed : Bool

namespace Lexer

/-- The lexer stands within brackets. -/
def inFlow (s : Lexer) : Bool := !s.outer.isEmpty

/-- The column of the next character. -/
def column (s : Lexer) : Nat := s.cursor.place.column

/-! ## Candidates for keys -/

/-- Gives up a candidate, unless a key is required there. -/
def giveUp? : Option Candidate → Option (Option Candidate)
  | some c => if c.required then none else some none
  | none => some none

/-- Gives up a candidate if the key would be too long. -/
def giveUpIfPast? (p : Place) (c : Option Candidate) : Option (Option Candidate) :=
  if c.any fun c => c.isPast p then giveUp? c else some c

/-- Gives up all candidates whose keys would be too long. -/
def dropPast? (s : Lexer) : Option Lexer := do
  let candidate ← giveUpIfPast? s.cursor.place s.candidate
  let outer ← s.outer.mapM (giveUpIfPast? s.cursor.place)
  return { s with candidate, outer }

/-- Gives up the candidate within the innermost bracket. -/
def dropCandidate? (s : Lexer) : Option Lexer := do
  return { s with candidate := ← giveUp? s.candidate }

/-- The next token may start a key. In a block mapping one that stands in the column of
the keys has to. -/
def addCandidate? (s : Lexer) : Option Lexer := do
  if !s.keyAllowed then return s
  let s ← s.dropCandidate?
  let required := !s.inFlow && s.indents.head? == some s.column
  return { s with candidate := some ⟨s.tokens.size, s.cursor.place, required⟩ }

/-! ## Block collections -/

/-- Ends the block collections in the columns that are given up. -/
def endBlocks (isOver : Nat → Bool) (s : Lexer) : Lexer :=
  if s.inFlow then s
  else
    { s with
      indents := s.indents.dropWhile isOver
      tokens := s.tokens ++ ((s.indents.takeWhile isOver).map fun _ => Token.blockEnd).toArray }

/-- Starts a block collection with the token of a number, if its column is further in than
that of the collections around it. -/
def startBlock (t : Token) (number column : Nat) (s : Lexer) : Lexer :=
  if s.inFlow || s.indents.head?.any (column ≤ ·) then s
  else { s with indents := column :: s.indents, tokens := s.tokens.insertIdxIfInBounds number t }

/-! ## Marks -/

/-- Takes a mark of so many characters. -/
def take (width : Nat) (t : Token) (keyAllowed : Bool) (s : Lexer) : Lexer :=
  { s with cursor := s.cursor.drop width, tokens := s.tokens.push t, keyAllowed }

/-- The start or the end of a document. -/
def documentMark? (t : Token) (s : Lexer) : Option Lexer := do
  return (← (s.endBlocks fun _ => true).dropCandidate?).take 3 t false

/-- A directive, with its line. -/
def directive? (s : Lexer) : Option Lexer := do
  let s ← (s.endBlocks fun _ => true).dropCandidate?
  let (d, cursor) ← readDirective? (s.cursor.drop 1)
  return { s with cursor, tokens := s.tokens.push (.directive d), keyAllowed := false }

/-- An opening bracket. -/
def openBracket? (t : Token) (s : Lexer) : Option Lexer := do
  let s ← s.addCandidate?
  return { s with candidate := none, outer := s.candidate :: s.outer }.take 1 t true

/-- A closing bracket. -/
def closeBracket? (t : Token) (s : Lexer) : Option Lexer := do
  let s ← s.dropCandidate?
  return { s with candidate := s.outer.head?.join, outer := s.outer.tail }.take 1 t false

/-- A comma. -/
def comma? (s : Lexer) : Option Lexer := do
  return (← s.dropCandidate?).take 1 .comma true

/-- A mark that starts an entry of a block collection, and the collection with its first
entry. -/
def blockMark? (collection t : Token) (keyAllowed : Bool) (s : Lexer) : Option Lexer := do
  if !s.inFlow && !s.keyAllowed then failure
  let s := s.startBlock collection s.tokens.size s.column
  return (← s.dropCandidate?).take 1 t keyAllowed

/-- The colon after a key, which the candidate turns out to start, or in front of a value
without one. -/
def value? (s : Lexer) : Option Lexer :=
  match s.candidate with
  | some c =>
    let s := { s with candidate := none, tokens := s.tokens.insertIdxIfInBounds c.number .key }
    some ((s.startBlock .blockMapping c.number c.place.column).take 1 .value false)
  | none => s.blockMark? .blockMapping .value (!s.inFlow)

/-! ## Anchors, aliases and tags -/

/-- What has been read in front of a key or of another node: no key starts right behind it. -/
def property? (read : Option (Token × Cursor)) (s : Lexer) : Option Lexer := do
  let s ← s.addCandidate?
  let (t, cursor) ← read
  return { s with cursor, tokens := s.tokens.push t, keyAllowed := false }

/-- An anchor or an alias. -/
def name? (mark : String → Token) (s : Lexer) : Option Lexer :=
  s.property? ((readName? (s.cursor.drop 1)).map fun (name, cursor) => (mark name, cursor))

/-- A tag. -/
def tag? (s : Lexer) : Option Lexer :=
  s.property? ((readTag? s.inFlow s.cursor).map fun (t, cursor) => (.tag t, cursor))

/-! ## Scalars -/

/-- A plain scalar. Its lines are indented further than the collection around it. -/
def plain? (s : Lexer) : Option Lexer := do
  let s ← s.addCandidate?
  let margin := match s.indents with
    | [] => 0
    | column :: _ => column + 1
  let p ← readPlain? s.inFlow margin s.cursor.place .empty [] s.cursor.rest
  return { s with cursor := p.cursor, tokens := s.tokens.push (.plain p.text), keyAllowed := p.crossedLine }

/-- A quoted scalar. -/
def quoted? (quote : Char) (s : Lexer) : Option Lexer := do
  let s ← s.addCandidate?
  let start := s.cursor.drop 1
  let (text, cursor) ← readQuoted? quote start.place .none .empty [] start.rest
  return { s with cursor, tokens := s.tokens.push (.quoted text), keyAllowed := false }

/-- A scalar in a block of its own. A key may start behind it. -/
def block? (folded : Bool) (s : Lexer) : Option Lexer := do
  let s ← s.dropCandidate?
  let (text, cursor) ← readBlock? folded (s.indents.head?.getD 0) (s.cursor.drop 1)
  return { s with cursor, tokens := s.tokens.push (.quoted text), keyAllowed := true }

/-- A character that no plain scalar starts with. -/
def isIndicator (c : Char) : Bool :=
  "-?:,[]\x7b\x7d#&*!|>'\"%@\x60".toList.contains c

/-- A plain scalar may start here: with a character that is no mark, or with a dash,
question mark or colon right before a word. -/
def startsPlain (inFlow : Bool) (c : Char) (rest : List Char) : Bool :=
  !(isGap c || isIndicator c) || (c == '-' && !rest.head?.any isBlank) ||
    (!inFlow && (c == '?' || c == ':') && !atGap rest)

/-! ## Reading -/

/-- Skips blanks, comments and line ends. A tab is a blank within brackets and where no key
may start; outside of brackets a key may start after a line end. -/
def skipGaps (inFlow keyAllowed inComment : Bool) (place : Place) : List Char → Bool × Cursor
  | [] => (keyAllowed, ⟨place, []⟩)
  | c :: rest =>
    if isBreak c then skipGaps inFlow (keyAllowed || !inFlow) false (place.after c) rest
    else if inComment || c == ' ' || (c == '\t' && (inFlow || !keyAllowed)) then
      skipGaps inFlow keyAllowed inComment (place.after c) rest
    else if c == '#' then skipGaps inFlow keyAllowed true (place.after c) rest
    else (keyAllowed, ⟨place, c :: rest⟩)

/-- Goes on to the next token. -/
def advance? (s : Lexer) : Option Lexer :=
  let (keyAllowed, cursor) := skipGaps s.inFlow s.keyAllowed false s.cursor.place s.cursor.rest
  { s with keyAllowed, cursor }.dropPast?

/-- Reads the token that starts with a character. -/
def token? (c : Char) (rest : List Char) (s : Lexer) : Option Lexer :=
  let isMark := atGap rest
  if s.column = 0 && c == '%' then s.directive?
  else if s.column = 0 && startsMark '-' (c :: rest) then s.documentMark? .documentStart
  else if s.column = 0 && startsMark '.' (c :: rest) then s.documentMark? .documentEnd
  else if c == '[' then s.openBracket? .flowSequence
  else if c == '{' then s.openBracket? .flowMapping
  else if c == ']' then s.closeBracket? .flowSequenceEnd
  else if c == '}' then s.closeBracket? .flowMappingEnd
  else if c == ',' then s.comma?
  else if c == '-' && isMark then s.blockMark? .blockSequence .item true
  else if c == '?' && (s.inFlow || isMark) then s.blockMark? .blockMapping .key (!s.inFlow)
  else if c == ':' && (s.inFlow || isMark) then s.value?
  else if c == '*' then s.name? .aliasTo
  else if c == '&' then s.name? .anchor
  else if c == '!' then s.tag?
  else if c == '|' && !s.inFlow then s.block? false
  else if c == '>' && !s.inFlow then s.block? true
  else if c == '\'' || c == '"' then s.quoted? c
  else if startsPlain s.inFlow c rest then s.plain?
  else none

/-- Reads all tokens. -/
def run? : (steps : Nat) → Lexer → Option (List Token)
  | 0, _ => none
  | steps + 1, s => do
    let s ← s.advance?
    match s.cursor.rest with
    | [] => return (← (s.endBlocks fun _ => true).dropCandidate?).tokens.toList
    | c :: rest => run? steps (← (s.endBlocks (s.column < ·)).token? c rest)

end Lexer

/-! ## Texts -/

/-- The character may stand in a text: no control character, and no noncharacter at the end
of the first plane. -/
def isAllowed (c : Char) : Bool :=
  let n := c.toNat
  c == '\t' || c == '\n' || c == '\r' || (0x20 ≤ n && n ≤ 0x7e) || n == 0x85 ||
    (0xa0 ≤ n && n ≤ 0xfffd) || 0x10000 ≤ n

/-- A text with one line feed for each line end, except for the line and paragraph
separators. -/
def lineFeeds : List Char → List Char
  | [] => []
  | '\r' :: '\n' :: rest => '\n' :: lineFeeds rest
  | c :: rest => (if c == '\r' || c == '\u0085' then '\n' else c) :: lineFeeds rest

/-- Where the reading of a text starts. A byte order mark in front is passed over as a blank;
anywhere else it is a character of a scalar. -/
def Cursor.start (cs : List Char) : Cursor :=
  match cs with
  | '\uFEFF' :: rest => ⟨⟨0, 1⟩, rest⟩
  | _ => ⟨⟨0, 0⟩, cs⟩

/-- The tokens of a text. -/
def Token.ofText? (text : String) : Option (List Token) :=
  let cs := text.toList
  if cs.all isAllowed then
    Lexer.run? (cs.length + 1) ⟨.start (lineFeeds cs), #[], [], none, [], true⟩
  else none

end Stencil.Yaml

import Stencil.Document.Hex

/-!
# YAML scalars in writing

Plain and quoted scalars run over as many words and lines as they need. Between two
words stands a gap: blanks, which are kept, or line breaks with blanks around them,
which are folded to one blank or to the empty lines among them.

* `Gap.text`: what a gap stands for;
* `readPlain?`: the text of a plain scalar, up to the mark or comment that ends it;
* `readQuoted?`: the text of a quoted scalar, up to its closing quote.

All line ends are single characters here: a line feed, or the line and paragraph
separators, which are kept when lines are folded.
-/

namespace Stencil.Yaml

/-- A blank within a line. -/
def isBlank (c : Char) : Bool := c == ' ' || c == '\t'

/-- The end of a line. -/
def isBreak (c : Char) : Bool := c == '\n' || c == '\u2028' || c == '\u2029'

/-- A character that stands between words. -/
def isGap (c : Char) : Bool := isBlank c || isBreak c

/-- The next character, if there is one, stands between words. -/
def atGap (cs : List Char) : Bool := cs.head?.all isGap

/-- Three of the given character, which mark the start or the end of a document when a
line starts with them. -/
def startsMark (mark : Char) (cs : List Char) : Bool :=
  match cs with
  | a :: b :: c :: rest => a == mark && b == mark && c == mark && atGap rest
  | _ => false

/-! ## Places -/

/-- A line and a column, both counted from zero. -/
structure Place where
  line : Nat
  column : Nat
  deriving DecidableEq, Repr

/-- The place after a character. -/
def Place.after (p : Place) (c : Char) : Place :=
  if isBreak c then ⟨p.line + 1, 0⟩ else ⟨p.line, p.column + 1⟩

/-- What is left of a text, and the place where it starts. -/
structure Cursor where
  place : Place
  rest : List Char

/-- The cursor after so many characters of a line. -/
def Cursor.drop (width : Nat) (c : Cursor) : Cursor :=
  ⟨⟨c.place.line, c.place.column + width⟩, c.rest.drop width⟩

/-- The cursor after all characters of one kind. -/
def Cursor.skipWhile (p : Char → Bool) (place : Place) : List Char → Cursor
  | [] => ⟨place, []⟩
  | c :: rest => if p c then skipWhile p (place.after c) rest else ⟨place, c :: rest⟩

/-- The cursor after the blanks that follow. -/
def Cursor.skipBlanks (c : Cursor) : Cursor := .skipWhile isBlank c.place c.rest

/-- The start of the next line, if only blanks and a comment are left of this one. -/
def Cursor.nextLine? (c : Cursor) : Option Cursor :=
  let c := c.skipBlanks
  let c := if c.rest.head? == some '#' then .skipWhile (fun d => !isBreak d) c.place c.rest else c
  match c.rest with
  | [] => some c
  | d :: rest => if isBreak d then some ⟨c.place.after d, rest⟩ else none

/-! ## Gaps -/

/-- What stands between two words of a scalar. -/
inductive Gap
  /-- Blanks of one line. -/
  | blanks (text : List Char)
  /-- The end of a line, unless it is escaped, and the ends of empty lines. -/
  | breaks (first : Option Char) (more : List Char)

namespace Gap

/-- The gap between two characters of a word. -/
def empty : Gap := .blanks []

/-- The gap with one character more; blanks do not count once a line has ended. -/
def push (c : Char) : Gap → Gap
  | blanks text => if isBreak c then .breaks (some c) [] else .blanks (text ++ [c])
  | breaks first more => if isBreak c then .breaks first (more ++ [c]) else .breaks first more

/-- A line ends in the gap. -/
def hasBreak : Gap → Bool
  | blanks _ => false
  | breaks _ _ => true

/-- Nothing stands between. -/
def isEmpty : Gap → Bool
  | blanks text => text.isEmpty
  | breaks _ _ => false

/-- What the gap stands for. A line feed is folded: it is a blank, unless empty lines
follow. -/
def text : Gap → List Char
  | blanks text => text
  | breaks none more => more
  | breaks (some '\n') [] => [' ']
  | breaks (some '\n') more => more
  | breaks (some c) more => c :: more

end Gap

/-! ## Plain scalars -/

/-- A plain scalar that has been read: its text, whether a line ended after it, and where
the text goes on. -/
structure PlainScalar where
  text : List Char
  crossedLine : Bool
  cursor : Cursor

/-- A plain scalar that ends here, before the gap that has been read; its text is given in
reverse. -/
def PlainScalar.ending (out : List Char) (gap : Gap) (place : Place) (cs : List Char) : PlainScalar :=
  ⟨out.reverse, gap.hasBreak, place, cs⟩

/-- The character is a mark between brackets. -/
def isFlowMark (c : Char) : Bool := c == ',' || c == '[' || c == ']' || c == '{' || c == '}'

/-- The rest of a plain scalar, whose text so far is given in reverse. Its lines have to
start at the margin, except between brackets. Tabs do not indent a line, and between
brackets no mark may follow a colon. -/
def readPlain? (inFlow : Bool) (margin : Nat) (place : Place) (gap : Gap) (out : List Char)
    (cs : List Char) : Option PlainScalar :=
  match cs with
  | [] => some (.ending out gap place cs)
  | c :: rest =>
    if isGap c then
      if c == '\t' && gap.hasBreak && place.column < margin then none
      else readPlain? inFlow margin (place.after c) (gap.push c) out rest
    else if !gap.isEmpty && (c == '#' || (!inFlow && place.column < margin) ||
        (place.column == 0 && (startsMark '-' cs || startsMark '.' cs))) then
      some (.ending out gap place cs)
    else if inFlow && c == ':' && rest.head?.any (fun d => isFlowMark d || d == '?') then none
    else if (c == ':' && atGap rest) || (inFlow && isFlowMark c) then
      some (.ending out gap place cs)
    else readPlain? inFlow margin (place.after c) .empty (c :: gap.text.reverse ++ out) rest

/-! ## Quoted scalars -/

/-- The character that a letter after a backslash stands for. -/
def escape? (c : Char) : Option Char :=
  match c with
  | '0' => some '\x00'
  | 'a' => some '\x07'
  | 'b' => some '\x08'
  | 't' | '\t' => some '\t'
  | 'n' => some '\n'
  | 'v' => some '\x0b'
  | 'f' => some '\x0c'
  | 'r' => some '\r'
  | 'e' => some '\x1b'
  | ' ' | '"' | '/' | '\\' => some c
  | 'N' => some '\u0085'
  | '_' => some '\u00a0'
  | 'L' => some '\u2028'
  | 'P' => some '\u2029'
  | _ => none

/-- How many hexadecimal digits follow a letter after a backslash. -/
def codeWidth? (c : Char) : Option Nat :=
  match c with
  | 'x' => some 2
  | 'u' => some 4
  | 'U' => some 8
  | _ => none

/-- What has been read of an escape. -/
inductive Escape
  | none
  /-- A backslash. -/
  | opened
  /-- A code point, of which so many digits are left. -/
  | code (left value : Nat)

/-- The rest of a quoted scalar, whose text so far is given in reverse. Single quotes know
one escape, two of them for one; an escaped line end stands for nothing. -/
def readQuoted? (quote : Char) (place : Place) (escape : Escape) (gap : Gap) (out : List Char)
    (cs : List Char) : Option (List Char × Cursor) :=
  match cs with
  | [] => none
  | c :: rest =>
    let next := place.after c
    match escape with
    | .code left value =>
      match Document.hexDigit? c with
      | none => none
      | some d =>
        let value := 16 * value + d
        if left = 1 then
          match Document.charOfCode? value with
          | some c => readQuoted? quote next .none .empty (c :: out) rest
          | none => none
        else readQuoted? quote next (.code (left - 1) value) .empty out rest
    | .opened =>
      if isBreak c then readQuoted? quote next .none (.breaks none []) out rest
      else
        match codeWidth? c, escape? c with
        | some width, _ => readQuoted? quote next (.code width 0) .empty out rest
        | none, some d => readQuoted? quote next .none .empty (d :: out) rest
        | none, none => none
    | .none =>
      if isGap c then readQuoted? quote next .none (gap.push c) out rest
      else if place.column == 0 && (startsMark '-' cs || startsMark '.' cs) then none
      else
        let out := gap.text.reverse ++ out
        if c == quote then
          match rest with
          | '\'' :: rest =>
            if quote == '\'' then
              readQuoted? quote (next.after '\'') .none .empty ('\'' :: out) rest
            else some (out.reverse, ⟨next, '\'' :: rest⟩)
          | _ => some (out.reverse, ⟨next, rest⟩)
        else if c == '\\' && quote == '"' then readQuoted? quote next .opened .empty out rest
        else readQuoted? quote next .none .empty (c :: out) rest

end Stencil.Yaml

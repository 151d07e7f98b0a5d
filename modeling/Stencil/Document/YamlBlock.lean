import Stencil.Document.YamlScalar

/-!
# YAML block scalars

A block scalar is the lines below its mark that are indented further than what is around
it. Its lines are kept as they are, or folded as those of a plain scalar are. Its header
may say how far in its lines start, and what becomes of the line ends after the last one.

* `readHeader?`: the header of a block scalar;
* `readBlock?`: the text of its lines.
-/

namespace Stencil.Yaml

/-! ## Headers -/

/-- What becomes of the line ends after the last line. -/
inductive Chomping
  | strip
  /-- The end of the last line is kept. -/
  | clip
  /-- The ends of the empty lines after it are kept too. -/
  | keep

/-- The header of a block scalar. -/
structure BlockHeader where
  chomping : Chomping
  /-- How much further in the lines start than what is around them, if that is given. -/
  indent : Option Nat

/-- The sign that tells what becomes of the last line ends, if there is one. -/
def takeChomping : List Char → Option Chomping × List Char
  | '+' :: rest => (some .keep, rest)
  | '-' :: rest => (some .strip, rest)
  | cs => (none, cs)

/-- The digit that tells the indent, if there is one. -/
def takeIndent : List Char → Option Nat × List Char
  | c :: rest => if c.isDigit then (some (c.toNat - '0'.toNat), rest) else (none, c :: rest)
  | [] => (none, [])

/-- The header after the mark of a block scalar, with sign and digit in either order, up to
the start of the first line. -/
def readHeader? (start : Cursor) : Option (BlockHeader × Cursor) := do
  let (first, cs) := takeChomping start.rest
  let (indent, cs) := takeIndent cs
  let (chomping, cs) := if first.isSome then (first, cs) else takeChomping cs
  if indent = some 0 then failure
  let cursor ← (start.drop (start.rest.length - cs.length)).nextLine?
  return (⟨chomping.getD .clip, indent⟩, cursor)

/-! ## Lines -/

namespace Gap

/-- The gap as it is written, with its first line end. -/
def written : Gap → List Char
  | blanks text => text
  | breaks first more => first.toList ++ more

/-- What is left of the gap after the last line. -/
def chomp : Chomping → Gap → List Char
  | .strip, _ => []
  | .clip, breaks first _ => first.toList
  | .clip, blanks _ => []
  | .keep, gap => gap.written

end Gap

/-- The lines of a block scalar that have been read. -/
structure BlockLines where
  /-- The text so far, in reverse. -/
  out : List Char := []
  /-- The line ends after it. -/
  gap : Gap := .breaks none []
  /-- The last line starts with a blank. -/
  startsBlank : Bool := false

namespace BlockLines

/-- Starts another line with its first character. Between lines that start with words the
gap is folded if the lines are. -/
def start (folded : Bool) (c : Char) (ls : BlockLines) : BlockLines :=
  let gap := if folded && !ls.startsBlank && !isBlank c then ls.gap.text else ls.gap.written
  { out := c :: gap.reverse ++ ls.out, startsBlank := isBlank c }

/-- Goes on with a character of a line, or with the end of the line. -/
def push (c : Char) (ls : BlockLines) : BlockLines :=
  if isBreak c then { ls with gap := .breaks (some c) [] } else { ls with out := c :: ls.out }

/-- The text of all lines. -/
def text (chomping : Chomping) (ls : BlockLines) : List Char := ls.out.reverse ++ ls.gap.chomp chomping

end BlockLines

/-- The column in which the lines start where the header does not tell: that of the first line or
of a longer empty line before it, but not before the margin. No tab may stand there. -/
def blockIndent? (margin widest : Nat) (place : Place) : List Char → Option Nat
  | [] => some (max margin (max widest place.column))
  | c :: rest =>
    if c == ' ' then blockIndent? margin widest (place.after c) rest
    else if isBreak c then blockIndent? margin (max widest place.column) (place.after c) rest
    else if c == '\t' then none
    else some (max margin (max widest place.column))

/-- The rest of a block scalar, within a line or in front of one. A line that is not indented so
far ends it. -/
def readLines? (folded : Bool) (chomping : Chomping) (indent : Nat) (inLine : Bool) (ls : BlockLines)
    (place : Place) (cs : List Char) : Option (List Char × Cursor) :=
  match cs with
  | [] => some (ls.text chomping, ⟨place, []⟩)
  | c :: rest =>
    let next := place.after c
    if inLine then readLines? folded chomping indent (!isBreak c) (ls.push c) next rest
    else if isBreak c then
      readLines? folded chomping indent false { ls with gap := ls.gap.push c } next rest
    else if place.column < indent && isBlank c then
      if c == '\t' then none else readLines? folded chomping indent false ls next rest
    else if place.column = indent then readLines? folded chomping indent true (ls.start folded c) next rest
    else some (ls.text chomping, ⟨place, cs⟩)

/-- A block scalar after its mark, in a collection that starts in the column `outer`. -/
def readBlock? (folded : Bool) (outer : Nat) (start : Cursor) : Option (List Char × Cursor) := do
  let (header, cursor) ← readHeader? start
  let indent ← match header.indent with
    | some n => some (outer + n)
    | none => blockIndent? (outer + 1) 0 cursor.place cursor.rest
  readLines? folded header.chomping indent false {} cursor.place cursor.rest

end Stencil.Yaml

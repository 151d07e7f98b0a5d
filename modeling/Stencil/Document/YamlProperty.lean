import Stencil.Document.YamlScalar

/-!
# YAML anchors, tags and directives

What a node may have in front of it: an anchor, by which an alias names it, and a tag, which
says what it is. Tags are written with a handle, which stands for the start of the tag; the
directives in front of a document say which handles there are.

* `readName?`: the name of an anchor or alias;
* `readTag?`: a tag, with its handle apart;
* `readDirective?`: the version of the language, or a handle.
-/

namespace Stencil.Yaml

/-- The bytes of a tag. -/
abbrev Bytes := List UInt8

/-- A character of the name of an anchor, a handle or a directive. -/
def isNameChar (c : Char) : Bool := c.isAlphanum || c == '-' || c == '_'

/-- The name of an anchor or alias. It ends at a gap, or at a mark that may follow it. -/
def readName? (start : Cursor) : Option (String × Cursor) :=
  let name := start.rest.takeWhile isNameChar
  let cursor := start.drop name.length
  let ends := cursor.rest.head?.all fun c => isGap c || "?:,]\x7d%@\x60".toList.contains c
  if name.isEmpty || !ends then none else some (String.ofList name, cursor)

/-! ## Tags -/

/-- A character that stands for itself in a tag; commas and square brackets do where the tag
has an end of its own. -/
def isTagChar (brackets : Bool) (c : Char) : Bool :=
  isNameChar c || ";/?:@&=+$.!~*'()".toList.contains c || (brackets && (c == ',' || c == '[' || c == ']'))

/-- How many bytes a character has whose first byte is given. -/
def octetWidth? (octet : Nat) : Option Nat :=
  if octet < 0x80 then some 1
  else if octet / 0x20 = 0b110 then some 2
  else if octet / 0x10 = 0b1110 then some 3
  else if octet / 0x08 = 0b11110 then some 4
  else none

/-- The rest of a tag, whose bytes so far are given in reverse, and where the text goes on.
Bytes may be written in hexadecimal, but then all bytes of a character are. -/
def readBytes? (brackets : Bool) (left : Nat) (out : Bytes) : List Char → Option (Bytes × List Char)
  | '%' :: high :: low :: rest => do
    let octet := 16 * (← Document.hexDigit? high) + (← Document.hexDigit? low)
    let left ←
      if left = 0 then (octetWidth? octet).map (· - 1)
      else if octet / 0x40 = 0b10 then some (left - 1)
      else none
    readBytes? brackets left (UInt8.ofNat octet :: out) rest
  | [] => if left = 0 then some (out.reverse, []) else none
  | c :: rest =>
    if c == '%' || left ≠ 0 then none
    else if isTagChar brackets c then readBytes? brackets 0 (UInt8.ofNat c.toNat :: out) rest
    else some (out.reverse, c :: rest)

/-- A tag of at least one byte. -/
def readSomeBytes? (brackets : Bool) (cs : List Char) : Option (Bytes × List Char) :=
  (readBytes? brackets 0 [] cs).filter fun (bytes, _) => !bytes.isEmpty

/-- A handle: an exclamation mark, or a name between two of them; without the second one it
is the start of a tag. -/
def readHandle? : List Char → Option (List Char × List Char)
  | '!' :: rest =>
    let name := rest.takeWhile isNameChar
    match rest.drop name.length with
    | '!' :: rest => some ('!' :: name ++ ['!'], rest)
    | rest => some ('!' :: name, rest)
  | _ => none

/-- The handle ends in an exclamation mark of its own. -/
def isClosed (handle : List Char) : Bool := 1 < handle.length && handle.getLast? == some '!'

/-- A tag as it is written. -/
structure Tag where
  /-- Empty for a tag that is written in full. -/
  handle : String
  rest : Bytes
  deriving DecidableEq

/-- The tag of an exclamation mark alone, which says that a scalar is none of the tagged ones. -/
def Tag.plain : Tag := ⟨"", [0x21]⟩

/-- The tag that starts here, between angle brackets, with a handle, or with an exclamation mark
for its handle. -/
def readTagText? : List Char → Option (Tag × List Char)
  | '!' :: '<' :: cs => do
    let (bytes, rest) ← readSomeBytes? true cs
    match rest with
    | '>' :: rest => return (⟨"", bytes⟩, rest)
    | _ => failure
  | cs => do
    let (handle, rest) ← readHandle? cs
    if isClosed handle then
      let (bytes, rest) ← readSomeBytes? false rest
      return (⟨String.ofList handle, bytes⟩, rest)
    else
      let start := handle.tail.map fun c => UInt8.ofNat c.toNat
      let (bytes, rest) ← readBytes? false 0 start.reverse rest
      return (if bytes.isEmpty then .plain else ⟨"!", bytes⟩, rest)

/-- A tag. It ends at a gap, or at a comma between brackets. -/
def readTag? (inFlow : Bool) (start : Cursor) : Option (Tag × Cursor) := do
  let (tag, rest) ← readTagText? start.rest
  if !atGap rest && !(inFlow && rest.head? == some ',') then failure
  return (tag, start.drop (start.rest.length - rest.length))

/-! ## Directives -/

/-- What is said about a document in front of it. -/
inductive Directive
  | version (major minor : Nat)
  /-- A handle, and the start of the tags that are written with it. -/
  | handle (name : String) (start : Bytes)
  deriving DecidableEq

/-- A number of at most nine digits. -/
def readVersionNumber? (start : Cursor) : Option (Nat × Cursor) :=
  let digits := start.rest.takeWhile Char.isDigit
  if digits.isEmpty || 9 < digits.length then none
  else some (digits.foldl (fun n c => 10 * n + (c.toNat - '0'.toNat)) 0, start.drop digits.length)

/-- The version of the language. -/
def readVersion? (start : Cursor) : Option (Directive × Cursor) := do
  let (major, cursor) ← readVersionNumber? start.skipBlanks
  if cursor.rest.head? != some '.' then failure
  let (minor, cursor) ← readVersionNumber? (cursor.drop 1)
  return (.version major minor, cursor)

/-- A handle and what it stands for. -/
def readHandleDirective? (start : Cursor) : Option (Directive × Cursor) := do
  let cursor := start.skipBlanks
  let (handle, rest) ← readHandle? cursor.rest
  if handle ≠ ['!'] && !isClosed handle then failure
  if !rest.head?.any isBlank then failure
  let cursor := (cursor.drop handle.length).skipBlanks
  let (bytes, rest) ← readSomeBytes? true cursor.rest
  if !atGap rest then failure
  return (.handle (String.ofList handle) bytes, cursor.drop (cursor.rest.length - rest.length))

/-- The directive after a percent sign, with its line. -/
def readDirective? (start : Cursor) : Option (Directive × Cursor) := do
  let name := start.rest.takeWhile isNameChar
  let cursor := start.drop name.length
  if !atGap cursor.rest then failure
  let (directive, cursor) ←
    if name == "YAML".toList then readVersion? cursor
    else if name == "TAG".toList then readHandleDirective? cursor
    else none
  return (directive, ← cursor.nextLine?)

end Stencil.Yaml

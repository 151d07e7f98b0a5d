import Stencil.Document.Basic
import Stencil.Document.Hex
import Stencil.Decimal.Numeral

/-!
# JSON text

Reading and writing JSON documents. A text is cut into tokens first; the tokens
are read by a machine with a stack of the arrays and objects that are open. A
number with a fraction or an exponent is its leading digits, as many as fit into
64 bits, times a power of ten in double precision.

* `Json.parse?`: the document of a text;
* `Json.pretty`: the text of a document, an entry per line, indented by two
  blanks.
-/

namespace Stencil.Json

open Decimal (natOfDigits ofWhole)

/-! ## Tokens -/

/-- A token of a JSON text. -/
inductive Token
  | openArray | closeArray | openObject | closeObject | comma | colon
  | scalar (j : Json)

/-- A blank of JSON text. -/
def isBlank (c : Char) : Bool := c == ' ' || c == '\n' || c == '\t' || c == '\r'

/-- A power of ten in double precision. -/
def powerOfTen (n : Nat) : Float := Float.ofScientific 1 false n

/-- A number divided by a power of ten, in steps of `10 ^ 308`. -/
def scaleDown (x : Float) (n : Nat) : Float :=
  if n ≤ 308 then x / powerOfTen n
  else if x == 0 then x
  else scaleDown (x / powerOfTen 308) (n - 308)
termination_by n

/-- A number with a fraction or an exponent; none if it is too large. -/
def scaled? (negative : Bool) (significand : Nat) (exponent : Int) : Option Json :=
  let x := ofWhole significand
  let y? :=
    if exponent < 0 then some (scaleDown x exponent.natAbs)
    else if exponent ≤ 308 then
      let y := x * powerOfTen exponent.toNat
      if y.isInf then none else some y
    else if x == 0 then some x
    else none
  y?.map fun y => .float (if negative then -y else y)

/-- The digits that fit into 64 bits one after the other, as a number, and how many
digits are left. -/
def leading (limit : Nat) (n : Nat) : List Char → Nat × Nat
  | [] => (n, 0)
  | c :: rest =>
    let m := 10 * n + (c.toNat - '0'.toNat)
    if limit < m then (n, rest.length + 1) else leading limit m rest

/-- An exponent after its letter: a sign and digits. Beyond 32 bits a positive exponent
is an error and a negative one makes zero, unless the number is zero anyway. -/
def readExponent? (negative : Bool) (significand : Nat) (exponent : Int) (cs : List Char) :
    Option (Json × List Char) :=
  let (down, cs) := Decimal.splitSign cs
  let (ds, rest) := Decimal.spanDigits cs
  if ds.isEmpty then none
  else
    let e := natOfDigits ds
    if e < Nat.pow 2 31 then
      let limit : Int := Nat.pow 2 31
      let total := exponent + Decimal.Magnitude.signed down e
      (scaled? negative significand (max (-limit) (min (limit - 1) total))).map (·, rest)
    else if significand != 0 && !down then none
    else some (.float (if negative then -(ofWhole 0) else ofWhole 0), rest)

/-- What may follow the digits of a number before its exponent. -/
def readTail? (negative : Bool) (significand : Nat) (exponent : Int) (cs : List Char) :
    Option (Json × List Char) :=
  match cs with
  | 'e' :: rest | 'E' :: rest => readExponent? negative significand exponent rest
  | _ => (scaled? negative significand exponent).map (·, cs)

/-- A number after its sign. Whole numbers that fit into 64 bits stay whole. -/
def readNumber? (negative : Bool) (cs : List Char) : Option (Json × List Char) :=
  let limit := Nat.pow 2 64 - 1
  let (whole, rest) := Decimal.spanDigits cs
  if whole.isEmpty || (1 < whole.length && whole.head? == some '0') then none
  else
    let (n, dropped) := leading limit 0 whole
    match rest with
    | '.' :: rest =>
      let (fraction, rest) := Decimal.spanDigits rest
      if fraction.isEmpty then none
      else
        let (m, ignored) := leading limit n fraction
        readTail? negative m ((dropped : Int) - ((fraction.length - ignored : Nat) : Int)) rest
    | 'e' :: rest | 'E' :: rest => readExponent? negative n dropped rest
    | _ =>
      if 0 < dropped then (scaled? negative n dropped).map (·, rest)
      else if !negative then some (.unsigned (UInt64.ofNat n), rest)
      else if 0 < n && n ≤ Nat.pow 2 63 then some (.negative (Int64.ofInt (-n)), rest)
      else some (.float (-(ofWhole n)), rest)

/-- The character of an escape, after the backslash. Characters above the basic plane
are two escapes in a row. -/
def readEscape? (cs : List Char) : Option (Char × List Char) :=
  match cs with
  | '"' :: rest => some ('"', rest)
  | '\\' :: rest => some ('\\', rest)
  | '/' :: rest => some ('/', rest)
  | 'b' :: rest => some ('\x08', rest)
  | 'f' :: rest => some ('\x0c', rest)
  | 'n' :: rest => some ('\n', rest)
  | 'r' :: rest => some ('\r', rest)
  | 't' :: rest => some ('\t', rest)
  | 'u' :: rest => do
    let (n, rest) ← Document.hexNumber? 4 rest
    if 0xd800 ≤ n && n < 0xdc00 then
      match rest with
      | '\\' :: 'u' :: rest =>
        let (m, rest) ← Document.hexNumber? 4 rest
        if 0xdc00 ≤ m && m < 0xe000 then
          return (Char.ofNat (0x10000 + (n - 0xd800) * 0x400 + (m - 0xdc00)), rest)
        else failure
      | _ => failure
    else return (← Document.charOfCode? n, rest)
  | _ => none

/-- The text after an opening quote, and the rest after the closing one. The steps are
bounded by the length of the text. -/
def readString? : (steps : Nat) → List Char → String → Option (String × List Char)
  | 0, _, _ => none
  | _ + 1, [], _ => none
  | steps + 1, c :: rest, out =>
    if c = '"' then some (out, rest)
    else if c = '\\' then do
      let (d, rest) ← readEscape? rest
      readString? steps rest (out.push d)
    else if c.toNat < 0x20 then none
    else readString? steps rest (out.push c)

/-- A word at the start of a text, and the rest. -/
def readWord? (word : String) (cs : List Char) : Option (List Char) :=
  if word.toList.isPrefixOf cs then some (cs.drop word.length) else none

/-- The token at the start of a text that does not begin with a blank. -/
def readToken? (cs : List Char) : Option (Token × List Char) :=
  match cs with
  | [] => none
  | '[' :: rest => some (.openArray, rest)
  | ']' :: rest => some (.closeArray, rest)
  | '{' :: rest => some (.openObject, rest)
  | '}' :: rest => some (.closeObject, rest)
  | ',' :: rest => some (.comma, rest)
  | ':' :: rest => some (.colon, rest)
  | '"' :: rest => do
    let (s, rest) ← readString? (rest.length + 1) rest ""
    return (.scalar (.string s), rest)
  | '-' :: rest => do
    let (j, rest) ← readNumber? true rest
    return (.scalar j, rest)
  | 'n' :: _ => do return (.scalar .null, ← readWord? "null" cs)
  | 't' :: _ => do return (.scalar (.bool true), ← readWord? "true" cs)
  | 'f' :: _ => do return (.scalar (.bool false), ← readWord? "false" cs)
  | _ => do
    let (j, rest) ← readNumber? false cs
    return (.scalar j, rest)

/-- The tokens of a text. The steps are bounded by the length of the text. -/
def readTokens? : (steps : Nat) → List Char → List Token → Option (List Token)
  | 0, _, _ => none
  | steps + 1, cs, out =>
    match cs.dropWhile isBlank with
    | [] => some out.reverse
    | cs => do
      let (t, rest) ← readToken? cs
      readTokens? steps rest (t :: out)

/-! ## Documents -/

/-- An array or object that is open, latest item or entry first. An object knows the key
that waits for its document. -/
inductive Frame
  | array (items : List Json)
  | object (entries : List (String × Json)) (key : String)

/-- What the next token may be. Where a container has just been opened it may also be
closed at once. -/
inductive Expected
  | document (orClose : Bool)
  | key (orClose : Bool)
  | colon
  | separator
  | nothing (read : Json)

/-- The open containers, innermost first, and what comes next. -/
structure Reader where
  stack : List Frame := []
  expected : Expected := .document false

/-- How many containers may be open at once. -/
def maxDepth : Nat := 127

/-- Puts a document where it belongs. -/
def Reader.deliver (stack : List Frame) (j : Json) : Reader :=
  match stack with
  | [] => ⟨[], .nothing j⟩
  | .array items :: below => ⟨.array (j :: items) :: below, .separator⟩
  | .object entries key :: below => ⟨.object ((key, j) :: entries) key :: below, .separator⟩

/-- Opens a container. -/
def Reader.enter? (r : Reader) (frame : Frame) (expected : Expected) : Option Reader :=
  if r.stack.length < maxDepth then some ⟨frame :: r.stack, expected⟩ else none

/-- Closes the innermost container with the bracket of an array or an object. -/
def Reader.leave? (r : Reader) (array : Bool) : Option Reader :=
  match r.stack, array with
  | .array items :: below, true => some (.deliver below (.array items.reverse))
  | .object entries _ :: below, false => some (.deliver below (.object entries.reverse))
  | _, _ => none

/-- What one token does. -/
def Reader.step? (r : Reader) (t : Token) : Option Reader :=
  match r.expected, t with
  | .document _, .scalar j => some (.deliver r.stack j)
  | .document _, .openArray => r.enter? (.array []) (.document true)
  | .document _, .openObject => r.enter? (.object [] "") (.key true)
  | .document true, .closeArray => r.leave? true
  | .key _, .scalar (.string key) =>
    match r.stack with
    | .object entries _ :: below => some ⟨.object entries key :: below, .colon⟩
    | _ => none
  | .key true, .closeObject => r.leave? false
  | .colon, .colon => some { r with expected := .document false }
  | .separator, .comma =>
    match r.stack with
    | .array _ :: _ => some { r with expected := .document false }
    | _ => some { r with expected := .key false }
  | .separator, .closeArray => r.leave? true
  | .separator, .closeObject => r.leave? false
  | _, _ => none

/-- The document of a text, the keys of its objects in order. -/
def parse? (text : String) : Option Json := do
  let cs := text.toList
  let tokens ← readTokens? (cs.length + 1) cs []
  let r ← tokens.foldlM Reader.step? {}
  match r.expected with
  | .nothing j => return j.sorted
  | _ => failure

/-! ## Writing -/

/-- How a character is written inside quotes. -/
def escape (c : Char) : String :=
  match c with
  | '"' => "\\\""
  | '\\' => "\\\\"
  | '\x08' => "\\b"
  | '\x0c' => "\\f"
  | '\n' => "\\n"
  | '\r' => "\\r"
  | '\t' => "\\t"
  | c =>
    if c.toNat < 0x20 then
      "\\u00" ++ (if c.toNat < 0x10 then "0" else "") ++ String.ofList (Nat.toDigits 16 c.toNat)
    else c.toString

/-- A text in quotes. -/
def quoted (s : String) : String :=
  (s.foldl (fun out c => out ++ escape c) "\"").push '"'

/-- Entries between brackets, one to a line, behind an indent. -/
def block (indent opening : String) (entries : List String) (closing : String) : String :=
  match entries with
  | [] => opening ++ closing
  | _ =>
    let line := "\n" ++ indent ++ "  "
    opening ++ line ++ ("," ++ line).intercalate entries ++ "\n" ++ indent ++ closing

mutual

/-- The text of a document whose lines stand behind an indent. -/
def prettyAt (indent : String) : Json → String
  | null => "null"
  | bool b => toString b
  | unsigned n => toString n.toNat
  | negative n => toString n.toInt
  | float x => Decimal.Layout.document.write x
  | string s => quoted s
  | array items => block indent "[" (prettyItems (indent ++ "  ") items) "]"
  | object entries => block indent "\x7b" (prettyEntries (indent ++ "  ") entries) "\x7d"

/-- The texts of items. -/
def prettyItems (indent : String) : List Json → List String
  | [] => []
  | j :: rest => j.prettyAt indent :: prettyItems indent rest

/-- The texts of entries. -/
def prettyEntries (indent : String) : List (String × Json) → List String
  | [] => []
  | (key, j) :: rest => (quoted key ++ ": " ++ j.prettyAt indent) :: prettyEntries indent rest

end

/-- The text of a document. -/
def pretty (j : Json) : String := j.prettyAt ""

end Stencil.Json

import Stencil.Document.Hex
import Stencil.Document.Toml
import Stencil.Decimal.Numeral

/-!
# TOML text

Reading TOML documents: lines with headers and assignments, bare, quoted and
dotted keys, texts in four forms, numbers, dates and times, arrays and tables
between braces.

* `Toml.parse?`: the table of a text.

The readers that repeat or nest are given a number of steps, which the length of
the text bounds.
-/

namespace Stencil.Toml

/-! ## Blanks and comments -/

/-- Skips blanks within a line. -/
def skipBlanks (cs : List Char) : List Char := cs.dropWhile fun c => c == ' ' || c == '\t'

/-- The character may stand in a comment and in a text of one line. -/
def isPlain (c : Char) : Bool := c == '\t' || (0x20 ≤ c.toNat && c.toNat != 0x7f)

/-- The rest after a comment, if one starts here. -/
def skipComment (cs : List Char) : List Char :=
  match cs with
  | '#' :: rest => rest.dropWhile isPlain
  | _ => cs

/-- The rest after the end of a line, which is also the end of the text. -/
def endOfLine? (cs : List Char) : Option (List Char) :=
  match skipComment (skipBlanks cs) with
  | [] => some []
  | '\n' :: rest => some rest
  | '\r' :: '\n' :: rest => some rest
  | _ => none

/-- Skips blanks, comments and ends of lines. -/
def skipLines : (steps : Nat) → List Char → List Char
  | 0, cs => cs
  | steps + 1, cs =>
    match skipComment (skipBlanks cs) with
    | '\n' :: rest => skipLines steps rest
    | '\r' :: '\n' :: rest => skipLines steps rest
    | rest => rest

/-! ## Texts -/

/-- The character of an escape, after the backslash. -/
def readEscape? (cs : List Char) : Option (Char × List Char) :=
  match cs with
  | 'b' :: rest => some ('\x08', rest)
  | 't' :: rest => some ('\t', rest)
  | 'n' :: rest => some ('\n', rest)
  | 'f' :: rest => some ('\x0c', rest)
  | 'r' :: rest => some ('\r', rest)
  | '"' :: rest => some ('"', rest)
  | '\\' :: rest => some ('\\', rest)
  | 'u' :: rest => Document.codePoint? 4 rest
  | 'U' :: rest => Document.codePoint? 8 rest
  | _ => none

/-- The text after an opening double quote. -/
def readBasic? : (steps : Nat) → List Char → String → Option (String × List Char)
  | 0, _, _ | _, [], _ => none
  | _ + 1, '"' :: rest, out => some (out, rest)
  | steps + 1, '\\' :: rest, out => do
    let (c, rest) ← readEscape? rest
    readBasic? steps rest (out.push c)
  | steps + 1, c :: rest, out => if isPlain c then readBasic? steps rest (out.push c) else none

/-- The text after an opening single quote. -/
def readLiteral? (cs : List Char) : Option (String × List Char) :=
  let text := cs.takeWhile (· != '\'')
  match cs.dropWhile (· != '\'') with
  | '\'' :: rest => if text.all isPlain then some (String.ofList text, rest) else none
  | _ => none

/-- How many of the next characters are the given one. -/
def countLeading (c : Char) (cs : List Char) : Nat := (cs.takeWhile (· == c)).length

/-- Skips blanks and ends of lines. -/
def skipEmptyLines : (steps : Nat) → List Char → List Char
  | 0, cs => cs
  | steps + 1, cs =>
    match skipBlanks cs with
    | '\n' :: rest | '\r' :: '\n' :: rest => skipEmptyLines steps rest
    | rest => rest

/-- An escaped end of a line in a text of many lines: the blanks and line ends that
follow are skipped. -/
def continued? (cs : List Char) : Option (List Char) :=
  match skipBlanks cs with
  | '\n' :: rest | '\r' :: '\n' :: rest => some (skipEmptyLines (rest.length + 1) rest)
  | _ => none

/-- The text of many lines after three opening quotes. Up to two quotes may stand right
before the closing three. -/
def readLong? (quote : Char) : (steps : Nat) → List Char → String → Option (String × List Char)
  | 0, _, _ | _, [], _ => none
  | steps + 1, c :: rest, out =>
    let quotes := countLeading quote (c :: rest)
    if 3 ≤ quotes then
      if quotes ≤ 5 then
        some (out ++ String.ofList (List.replicate (quotes - 3) quote), (c :: rest).drop quotes)
      else none
    else if c == '\\' && quote == '"' then
      match continued? rest with
      | some rest => readLong? quote steps rest out
      | none => do
        let (d, rest) ← readEscape? rest
        readLong? quote steps rest (out.push d)
    else if c == '\r' then
      match rest with
      | '\n' :: rest => readLong? quote steps rest (out.push '\n')
      | _ => none
    else if c == '\n' || isPlain c then readLong? quote steps rest (out.push c)
    else none

/-- A line end right after three opening quotes does not count. -/
def skipFirstLineEnd (cs : List Char) : List Char :=
  match cs with
  | '\n' :: rest => rest
  | '\r' :: '\n' :: rest => rest
  | _ => cs

/-- A text in any of the four forms, at its opening quote. -/
def readText? (cs : List Char) : Option (String × List Char) :=
  match cs with
  | '"' :: '"' :: '"' :: rest => readLong? '"' (rest.length + 1) (skipFirstLineEnd rest) ""
  | '\'' :: '\'' :: '\'' :: rest => readLong? '\'' (rest.length + 1) (skipFirstLineEnd rest) ""
  | '"' :: rest => readBasic? (rest.length + 1) rest ""
  | '\'' :: rest => readLiteral? rest
  | _ => none

/-! ## Keys -/

/-- The character may stand in a bare key. -/
def isBare (c : Char) : Bool := c.isAlphanum || c == '_' || c == '-'

/-- One part of a key. -/
def readKeyPart? (cs : List Char) : Option (String × List Char) :=
  match cs with
  | '"' :: rest => readBasic? (rest.length + 1) rest ""
  | '\'' :: rest => readLiteral? rest
  | _ =>
    let part := cs.takeWhile isBare
    if part.isEmpty then none else some (String.ofList part, cs.dropWhile isBare)

/-- The most parts that a key may have, and the most brackets and braces that may stand
around a value. -/
def depthLimit : Nat := 127

/-- The parts of a key, set apart by dots; the number of them is bounded. -/
def readKeyParts? : (most : Nat) → List Char → Option (List String × List Char)
  | 0, _ => none
  | most + 1, cs => do
    let (part, rest) ← readKeyPart? (skipBlanks cs)
    match skipBlanks rest with
    | '.' :: rest =>
      let (parts, rest) ← readKeyParts? most rest
      return (part :: parts, rest)
    | rest => return ([part], rest)

/-- A key. -/
def readKey? (cs : List Char) : Option (List String × List Char) := readKeyParts? depthLimit cs

/-! ## Numbers -/

/-- Digits with single underscores between them, without the underscores. -/
def digitsBetween? (isDigit : Char → Bool) : List Char → Option (List Char)
  | [] => none
  | [c] => if isDigit c then some [c] else none
  | c :: '_' :: rest =>
    if isDigit c then (digitsBetween? isDigit rest).map (c :: ·) else none
  | c :: rest => if isDigit c then (digitsBetween? isDigit rest).map (c :: ·) else none

/-- A whole number in another base than ten, after its mark. -/
def inBase? (base : Nat) (cs : List Char) : Option Nat := do
  let ds ← digitsBetween? (fun c => ((Document.hexDigit? c).getD 16) < base) cs
  return ds.foldl (fun n c => base * n + (Document.hexDigit? c).getD 0) 0

/-- A whole number of 64 bits. -/
def integerOf? (n : Int) : Option Toml :=
  if IntType.i64.holds n then some (.integer (Int64.ofInt n)) else none

/-- The digits of a number that has no zeros to spare in front. -/
def wholeDigits? (cs : List Char) : Option (List Char) := do
  let ds ← digitsBetween? Char.isDigit cs
  if 1 < ds.length && ds.head? == some '0' then failure
  return ds

/-- The exponent of a number, after its letter: sign and digits without underscores. -/
def exponentDigits? (cs : List Char) : Option (List Char) :=
  match cs with
  | '+' :: rest => digitsBetween? Char.isDigit rest
  | '-' :: rest => (digitsBetween? Char.isDigit rest).map ('-' :: ·)
  | _ => digitsBetween? Char.isDigit cs

/-- A number with a point or an exponent, in plain form. -/
def plainFloat? (cs : List Char) : Option (List Char) := do
  let isMark (c : Char) : Bool := c == '.' || c == 'e' || c == 'E'
  let whole ← wholeDigits? (cs.takeWhile fun c => !isMark c)
  let (fraction, rest) ← match cs.dropWhile fun c => !isMark c with
    | '.' :: rest => do
      let fraction ← digitsBetween? Char.isDigit (rest.takeWhile fun c => !isMark c)
      Option.some ('.' :: fraction, rest.dropWhile fun c => !isMark c)
    | rest => Option.some ([], rest)
  let exponent ← match rest with
    | [] => Option.some []
    | 'e' :: rest | 'E' :: rest => (exponentDigits? rest).map ('e' :: ·)
    | _ => none
  return whole ++ fraction ++ exponent

/-- A number without marks of other bases, after its sign. Numbers that are too large are
refused; too far below zero they are minus infinity. -/
def unsignedNumber? (negative : Bool) (cs : List Char) : Option Toml :=
  let sign (x : Float) : Float := if negative then -x else x
  if cs == "inf".toList then some (.float (sign (Decimal.infinity false)))
  else if cs == "nan".toList then some (.float (Float.ofBits 0x7ff8000000000000))
  else
    match wholeDigits? cs with
    | some ds => integerOf? (Decimal.Magnitude.signed negative (Decimal.natOfDigits ds))
    | none => do
      let x ← Decimal.real? (← plainFloat? cs)
      if x.isInf && !negative then failure
      return .float (sign x)

/-- A number. -/
def number? (cs : List Char) : Option Toml :=
  match cs with
  | '0' :: 'x' :: rest => (inBase? 16 rest).bind fun n => integerOf? n
  | '0' :: 'o' :: rest => (inBase? 8 rest).bind fun n => integerOf? n
  | '0' :: 'b' :: rest => (inBase? 2 rest).bind fun n => integerOf? n
  | '+' :: rest => unsignedNumber? false rest
  | '-' :: rest => unsignedNumber? true rest
  | _ => unsignedNumber? false cs

/-- The character may stand in a number, date or time. -/
def isWordChar (c : Char) : Bool := isBare c || c == '+' || c == '.' || c == ':'

/-- The word of a number, date or time; a single blank may stand between a date and a
time. -/
def spanWord (cs : List Char) : List Char × List Char :=
  let word := cs.takeWhile isWordChar
  let rest := cs.dropWhile isWordChar
  match rest with
  | ' ' :: c :: _ =>
    let later := rest.drop 1
    if (Datetime.date? word).any (·.2.isEmpty) && c.isDigit then
      (word ++ ' ' :: later.takeWhile isWordChar, later.dropWhile isWordChar)
    else (word, rest)
  | _ => (word, rest)

/-! ## Values -/

mutual

/-- A value, within so many more brackets and braces. -/
def readValue? : (steps depth : Nat) → List Char → Option (Toml × List Char)
  | 0, _, _ => none
  | steps + 1, depth, cs =>
    match cs with
    | '"' :: _ | '\'' :: _ => do
      let (s, rest) ← readText? cs
      return (.string s, rest)
    | '[' :: rest => do
      if depth = 0 then failure
      let (items, rest) ← readItems? steps (depth - 1) rest []
      return (.array items, rest)
    | '{' :: rest => do
      if depth = 0 then failure
      match skipBlanks rest with
      | '}' :: rest => return (.table .closed [], rest)
      | rest =>
        let (entries, rest) ← readPairs? steps (depth - 1) rest []
        return (.table .closed entries, rest)
    | _ =>
      let (word, rest) := spanWord cs
      if word == "true".toList then some (.bool true, rest)
      else if word == "false".toList then some (.bool false, rest)
      else ((number? word).or ((Datetime.read? .clock word).map datetime)).map (·, rest)

/-- The items of an array, latest first, up to its closing bracket. -/
def readItems? : (steps depth : Nat) → List Char → List Toml → Option (List Toml × List Char)
  | 0, _, _, _ => none
  | steps + 1, depth, cs, out =>
    match skipLines (cs.length + 1) cs with
    | ']' :: rest => some (out.reverse, rest)
    | cs => do
      let (v, rest) ← readValue? steps depth cs
      match skipLines (rest.length + 1) rest with
      | ',' :: rest => readItems? steps depth rest (v :: out)
      | ']' :: rest => return ((v :: out).reverse, rest)
      | _ => failure

/-- The pairs of a table between braces, up to its closing brace. -/
def readPairs? : (steps depth : Nat) → List Char → Table → Option (Table × List Char)
  | 0, _, _, _ => none
  | steps + 1, depth, cs, out => do
    let (key, rest) ← readKey? cs
    let '=' :: rest := rest | failure
    let (v, rest) ← readValue? steps depth (skipBlanks rest)
    let out ← out.fill? key v
    match skipBlanks rest with
    | ',' :: rest => readPairs? steps depth rest out
    | '}' :: rest => return (out, rest)
    | _ => failure

end

/-! ## Documents -/

/-- One statement, a header or an assignment below the header before it: the header
afterwards, the document and the rest of the text. -/
def readStatement? (header : List String) (t : Table) (cs : List Char) :
    Option (List String × Table × List Char) := do
  match cs with
  | '[' :: '[' :: rest =>
    let (path, rest) ← readKey? rest
    let ']' :: ']' :: rest := rest | failure
    return (path, ← t.append? path, ← endOfLine? rest)
  | '[' :: rest =>
    let (path, rest) ← readKey? rest
    let ']' :: rest := rest | failure
    return (path, ← t.define? path, ← endOfLine? rest)
  | _ =>
    let (key, rest) ← readKey? cs
    let '=' :: rest := rest | failure
    let (v, rest) ← readValue? (rest.length + 1) depthLimit (skipBlanks rest)
    return (header, ← t.descend? header (Table.assign? key v), ← endOfLine? rest)

/-- The statements of a text. -/
def readStatements? : (steps : Nat) → List String → Table → List Char → Option Table
  | 0, _, _, _ => none
  | steps + 1, header, t, cs =>
    match skipLines (cs.length + 1) cs with
    | [] => some t
    | cs => do
      let (header, t, rest) ← readStatement? header t cs
      readStatements? steps header t rest

/-- The table of a text. A byte order mark in front does not count. -/
def parse? (text : String) : Option Table :=
  let cs := match text.toList with
    | '\uFEFF' :: rest => rest
    | cs => cs
  readStatements? (cs.length + 1) [] [] cs

end Stencil.Toml

import Stencil.CommandLine.Options
import Stencil.Value.Merge
import Stencil.Document.JsonText
import Stencil.Document.TomlText

/-!
# Configuration

The configuration is made of layers: the defaults, the config file, variables of
the process environment, and the command line.

* `Config.ofToml?`: the config file over the defaults;
* `Config.withVariables`, `Config.withOptions`: the other two layers;
* `parseDefine`: what an item of `-D` defines.
-/

namespace Stencil.CommandLine

/-- Why a run fails: a message, and the messages of its causes, nearest first. -/
structure Failure where
  message : String
  causes : List String := []
  deriving DecidableEq, Repr

/-- The text that is written for a failure. -/
def Failure.text (f : Failure) : String :=
  "error: " ++ f.message ++ "\n" ++ String.join (f.causes.map fun c => "\ncaused by: " ++ c ++ "\n")

/-- A failure that an error of the engine makes. -/
def Failure.ofError (e : Error) : Failure := ⟨e.message, e.causes⟩

/-- The configuration of a run. -/
structure Config where
  format : String := "auto"
  newline : Bool := true
  globals : Bool := true
  env : Bool := false
  defines : Entries Json := []

/-! ## Defines -/

/-- Cuts a text at the first occurrence of a mark. -/
def cutAt? (mark : List Char) : List Char → Option (List Char × List Char)
  | [] => if mark.isEmpty then some ([], []) else none
  | c :: rest =>
    if mark.isPrefixOf (c :: rest) then some ([], (c :: rest).drop mark.length)
    else (cutAt? mark rest).map fun (before, after) => (c :: before, after)

/-- What an item defines: a key with a JSON document after `:=`, a key with a text after
`=`, or the whole item as true. -/
def parseDefine (item : String) : Except Failure (String × Json) :=
  let cs := item.toList
  match cutAt? [':', '='] cs with
  | some (key, raw) =>
    let text := String.ofList raw
    match Json.parse? text with
    | some j => .ok (String.ofList key, j)
    | none => .error ⟨"invalid raw value '" ++ text ++ "' (not valid JSON)", ["malformed JSON text"]⟩
  | none =>
    match cutAt? ['='] cs with
    | some (key, text) => .ok (String.ofList key, .string (String.ofList text))
    | none => .ok (item, .bool true)

namespace Config

/-! ## Layers -/

/-- A field of the config file that has to be a bool. -/
def boolField? (t : Toml.Table) (name : String) (default : Bool) : Option Bool :=
  match t.get? name with
  | none => some default
  | some (.bool b) => some b
  | some _ => none

/-- The defaults with the fields of a config file; other fields are passed over. -/
def ofToml? (t : Toml.Table) : Option Config := do
  let format ← match t.get? "format" with
    | none => some "auto"
    | some (.string s) => some s
    | some _ => none
  let newline ← boolField? t "newline" true
  let globals ← boolField? t "globals" true
  let env ← boolField? t "env" false
  let defines ← match t.get? "defines" with
    | none => some []
    | some (.table _ entries) => some (entries.map fun (key, v) => (key, v.toJson))
    | some (.datetime d) => some [(Toml.datetimeKey, .string d.text)]
    | some _ => none
  return { format, newline, globals, env, defines }

/-- The bool that a variable holds. -/
def boolOfText? (s : String) : Option Bool :=
  let word := String.ofList (s.toList.map Char.toLower)
  if ["0", "false", "no", "off"].contains word then some false
  else if ["1", "true", "yes", "on"].contains word then some true
  else none

/-- The bool of a variable, if it is set. -/
def boolVariable (vars : List (String × String)) (name : String) (default : Bool) : Except Failure Bool :=
  match vars.lookup name with
  | none => .ok default
  | some s =>
    match boolOfText? s with
    | some b => .ok b
    | none => .error ⟨"Invalid boolean value for " ++ name ++ ": " ++ s, []⟩

/-- The layer of the process environment. -/
def withVariables (c : Config) (vars : List (String × String)) : Except Failure Config := do
  let format := (vars.lookup "TMPLFMT_FORMAT").getD c.format
  let newline ← boolVariable vars "TMPLFMT_NEWLINE" c.newline
  let globals ← boolVariable vars "TMPLFMT_GLOBALS" c.globals
  let env ← boolVariable vars "TMPLFMT_ENV" c.env
  return { c with format, newline, globals, env }

/-- Adds the items of `-D`, in order. -/
def define (c : Config) (items : List String) : Except Failure Config :=
  items.foldlM (fun c item => do
    let (key, j) ← parseDefine item
    return { c with defines := c.defines.insert key j }) c

/-- The layer of the command line. -/
def withOptions (c : Config) (o : Options) : Except Failure Config :=
  define
    { c with
      format := o.format.getD c.format
      newline := c.newline && !o.noNewline
      globals := c.globals && !o.noGlobals
      env := c.env || o.env }
    o.defines

/-! ## Views -/

/-- The configuration as a document. -/
def toJson (c : Config) : Json :=
  .object [("format", .string c.format), ("newline", .bool c.newline), ("globals", .bool c.globals),
    ("env", .bool c.env), ("defines", .object (Json.sortEntries c.defines))]

/-- What the configuration adds to the data: the defines, over the process environment
if that is asked for. -/
def extraContext (c : Config) (vars : List (String × String)) : Value :=
  let defines := Value.ofDatum (Json.object (Json.sortEntries c.defines)).toDatum
  if c.env then
    let env := Value.ofPairs (vars.map fun (name, text) => (name, .string text))
    .merge [.map [("ENV", env)], defines]
  else defines

end Config

end Stencil.CommandLine

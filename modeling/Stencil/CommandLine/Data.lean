import Stencil.CommandLine.Config
import Stencil.Document.YamlText
import Stencil.Value.Lookup

/-!
# Data files

* `formatOf`: the format of a data file, detected from its name where it is not
  given;
* `select`: the part of the data that a selector names;
* `loadData`: the map that a data file holds.
-/

namespace Stencil.CommandLine

/-- The name that stands for standard input and output. -/
def standardStream : String := "-"

/-- The extension of the last part of a path. -/
def extension? (path : String) : Option String :=
  let parts := (path.splitOn "/").filter fun p => !p.isEmpty && p != "."
  match parts.getLast? with
  | none => none
  | some name =>
    let pieces := name.splitOn "."
    if pieces.length < 2 || (pieces.length = 2 && pieces.head? = some "") || name = ".." then none
    else pieces.getLast?

/-- The format of a data file. -/
def formatOf (format path : String) : Except Failure String :=
  if format ≠ "auto" then .ok format
  else if path = standardStream then .error ⟨"auto detection does not work with data from stdin", []⟩
  else
    match extension? path with
    | some "json" => .ok "json"
    | some "yaml" | some "yml" => .ok "yaml"
    | some "toml" => .ok "toml"
    | _ => .error ⟨"cannot auto detect format from extension", []⟩

/-- The value of a document in a format. -/
def valueOf (format contents : String) : Except Failure Value :=
  let read (d? : Option Datum) : Except Failure Value :=
    match d? with
    | some d => .ok (.ofDatum d)
    | none => .error ⟨"malformed " ++ format ++ " document", []⟩
  match format with
  | "json" => read ((Json.parse? contents).map Json.toDatum)
  | "yaml" => read ((Yaml.parse? contents).map Yaml.toDatum)
  | "toml" => read (((Toml.parse? contents).bind fun t => (Toml.table .header t).settle?).map Toml.toDatum)
  | other => .error ⟨"unsupported format '" ++ other ++ "'", []⟩

/-- Looks up one part of a selector: whole numbers are indexes, and the rest are names. -/
def selectPart (v : Value) (part : String) : Value :=
  match Value.index? part with
  | some n => v.item n
  | none => v.attr part

/-- Looks up the parts of a selector one after the other; each has to be there. -/
def selectParts (selector : String) (v : Value) : List String → Except Failure Value
  | [] => .ok v
  | part :: rest =>
    let next := selectPart v part
    if next.isUndefined then
      .error ⟨"unable to select " ++ Text.Quoted.ofString part ++ " in " ++
        Text.Quoted.ofString selector ++ " (value was " ++ v.kind.description ++ ")", []⟩
    else selectParts selector next rest

/-- The part of the data that a selector names, its parts set apart by dots. -/
def select (selector : String) (v : Value) : Except Failure Value :=
  selectParts selector v (selector.splitOn ".")

/-- The map that a data file holds. -/
def loadData (format contents : String) (selector? : Option String) : Except Failure Value := do
  let v ← valueOf format contents
  let v ← match selector? with
    | some selector => select selector v
    | none => pure v
  match v with
  | .map _ => return v
  | _ => throw ⟨"failed to interpret input data as object (got " ++ v.kind.description ++ ")", []⟩

end Stencil.CommandLine

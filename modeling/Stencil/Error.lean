import Stencil.Text.Outline

/-!
# Errors

What goes wrong when a template is read or rendered: a kind, and where they are
known a detail, the offset of a character in the template, and the cause it
came from.

* `Error.message`: the line shown to a user;
* `Error.outline`: the structural view;
* two errors are `==` when their kinds agree.
-/

namespace Stencil

open Text (Outline)

/-- The kinds of errors. -/
inductive ErrorKind
  /-- The template cannot be read. -/
  | syntaxError
  /-- A function got arguments that it cannot take. -/
  | invalidArguments
  /-- A function or the engine cannot do what it is asked. -/
  | invalidOperation
  /-- Host data cannot be turned into a value. -/
  | badSerialization
  deriving DecidableEq, Repr

namespace ErrorKind

/-- The words for a kind in messages. -/
def description : ErrorKind → String
  | syntaxError => "syntax error"
  | invalidArguments => "invalid arguments"
  | invalidOperation => "invalid operation"
  | badSerialization => "could not serialize to internal format"

/-- The tag of a kind in outlines. -/
def tag : ErrorKind → String
  | syntaxError => "SyntaxError"
  | invalidArguments => "InvalidArguments"
  | invalidOperation => "InvalidOperation"
  | badSerialization => "BadSerialization"

end ErrorKind

/-- A foreign error that an error came from; it has no cause of its own. -/
structure Cause where
  text : String
  deriving DecidableEq, Repr

/-- An error of the engine or of a function. Offsets count characters. -/
structure Error where
  kind : ErrorKind
  detail : Option String := none
  offset : Option Nat := none
  cause : Option Cause := none
  deriving DecidableEq, Repr

namespace Error

/-- Errors are told apart by their kinds alone. -/
instance : BEq Error := ⟨fun a b => a.kind = b.kind⟩

/-- The message: the kind, then the detail and the offset if there are any. -/
def message (e : Error) : String :=
  let detail := match e.detail with
    | some d => ": " ++ d
    | none => ""
  let offset := match e.offset with
    | some n => " (at " ++ toString n ++ ")"
    | none => ""
  e.kind.description ++ detail ++ offset

/-- The messages of the causes, nearest first. -/
def causes (e : Error) : List String :=
  e.cause.toList.map Cause.text

/-- The structural view names the parts that are there. -/
def outline (e : Error) : Outline :=
  .record "Error" <|
    [("kind", .atom e.kind.tag)] ++
    e.detail.toList.map (fun d => ("detail", .ofString d)) ++
    e.offset.toList.map (fun n => ("offset", .atom (toString n))) ++
    e.cause.toList.map (fun c => ("source", .tuple "Source" [.ofString c.text]))

/-- An error without offset and cause. -/
def ofKind (kind : ErrorKind) (detail : String) : Error := { kind, detail := some detail }

/-- The failure of a conversion of host data. -/
def conversion (message : String) : Error := ofKind .badSerialization message

end Error

end Stencil

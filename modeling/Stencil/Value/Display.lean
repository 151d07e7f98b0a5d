import Stencil.Value.Basic

/-!
# The texts of values

A value is shown in rendered output by its plain text, and in structural views
by its outline.

* `Value.display`: the plain text. Undefined and none are empty, items are
  joined by commas, and entries of a map show their keys and texts in quotes;
* `Value.outline`: the structural view.
-/

namespace Stencil.Value

open Text (Outline Quoted.ofString)
open Decimal (Layout)

/-- How a value is shown inside a map: texts in quotes, absent values as `none`, and
the others by their plain text. -/
def displayInMap (plain : String) : Value → String
  | string s => Quoted.ofString s
  | undefined | none => "none"
  | _ => plain

mutual

/-- The plain text of a value. -/
def display : Value → String
  | undefined | none => ""
  | bool b => toString b
  | unsigned n => toString n.toNat
  | signed n => toString n.toInt
  | float x => Layout.shown.write x
  | string s => s
  | seq items => ",".intercalate (displayItems items)
  | map entries => "\x7b" ++ ", ".intercalate (displayEntries entries) ++ "\x7d"
  | callable name => "<function " ++ name ++ ">"
  | invalid message => "<invalid value: " ++ message ++ ">"

/-- The plain texts of items. -/
def displayItems : List Value → List String
  | [] => []
  | v :: rest => v.display :: displayItems rest

/-- The texts of entries, each key in quotes. -/
def displayEntries : List (String × Value) → List String
  | [] => []
  | (key, v) :: rest =>
    (Quoted.ofString key ++ ": " ++ displayInMap v.display v) :: displayEntries rest

end

mutual

/-- The structural view of a value. -/
def outline : Value → Outline
  | undefined => .atom "undefined"
  | none => .atom "none"
  | bool b => .atom (toString b)
  | unsigned n => .atom (toString n.toNat)
  | signed n => .atom (toString n.toInt)
  | float x => .atom (Layout.structural.write x)
  | string s => .ofString s
  | seq items => .list (outlineItems items)
  | map entries => .map (outlineEntries entries)
  | callable name => .atom name
  | invalid message => .atom ("<invalid value: " ++ message ++ ">")

/-- The structural views of items. -/
def outlineItems : List Value → List Outline
  | [] => []
  | v :: rest => v.outline :: outlineItems rest

/-- The structural views of entries under their keys in quotes. -/
def outlineEntries : List (String × Value) → List (String × Outline)
  | [] => []
  | (key, v) :: rest => (Quoted.ofString key, v.outline) :: outlineEntries rest

end

end Stencil.Value

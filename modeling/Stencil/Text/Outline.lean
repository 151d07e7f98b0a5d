import Stencil.Text.Quoted

/-!
# Outlines

An outline shows the structure of a piece of data: atoms, lists, maps, tagged
tuples and records. It has two written forms, one on a single line and one with
an entry per line, indented by four blanks and closed by a comma.

* `Outline.compact`: the form on one line;
* `Outline.pretty`: the form with a line per entry.
-/

namespace Stencil.Text

/-- The structure of a piece of data, ready to be written. Keys of a map are
written texts. -/
inductive Outline
  | atom (text : String)
  | list (items : List Outline)
  | map (entries : List (String × Outline))
  | tuple (tag : String) (items : List Outline)
  | record (tag : String) (fields : List (String × Outline))

namespace Outline

/-- The outline of a text: the text in quotes. -/
def ofString (s : String) : Outline := .atom (Quoted.ofString s)

/-- The outline of an optional piece of data. -/
def ofOption : Option Outline → Outline
  | none => .atom "None"
  | some o => .tuple "Some" [o]

/-- Four blanks before every line of a text. -/
def indent (text : String) : String :=
  (text.foldl (fun (out, fresh) c =>
    ((if fresh then out ++ "    " else out).push c, c == '\n')) ("", true)).1

/-- Entries between two brackets, each indented on lines of its own and closed by a comma. -/
def block (opening : String) (entries : List String) (closing : String) : String :=
  match entries with
  | [] => opening ++ closing
  | _ => opening ++ "\n" ++ String.join (entries.map fun e => indent (e ++ ",\n")) ++ closing

/-- A record has blanks inside its braces; one without fields is its bare tag. -/
def braced (tag : String) (fields : List String) : String :=
  match fields with
  | [] => tag
  | _ => tag ++ " \x7b " ++ ", ".intercalate fields ++ " \x7d"

/-- The indented form of a record; one without fields is its bare tag. -/
def bracedBlock (tag : String) (fields : List String) : String :=
  match fields with
  | [] => tag
  | _ => block (tag ++ " \x7b") fields "\x7d"

mutual

/-- The form on one line. -/
def compact : Outline → String
  | .atom text => text
  | .list items => "[" ++ ", ".intercalate (compactItems items) ++ "]"
  | .map entries => "\x7b" ++ ", ".intercalate (compactEntries entries) ++ "\x7d"
  | .tuple tag items => tag ++ "(" ++ ", ".intercalate (compactItems items) ++ ")"
  | .record tag fields => braced tag (compactEntries fields)

/-- The items of a list on one line. -/
def compactItems : List Outline → List String
  | [] => []
  | o :: rest => o.compact :: compactItems rest

/-- The entries of a map or record on one line. -/
def compactEntries : List (String × Outline) → List String
  | [] => []
  | (key, o) :: rest => (key ++ ": " ++ o.compact) :: compactEntries rest

end

mutual

/-- The form with a line per entry. -/
def pretty : Outline → String
  | .atom text => text
  | .list items => block "[" (prettyItems items) "]"
  | .map entries => block "\x7b" (prettyEntries entries) "\x7d"
  | .tuple tag items => block (tag ++ "(") (prettyItems items) ")"
  | .record tag fields => bracedBlock tag (prettyEntries fields)

/-- The items of a list, each in the form with a line per entry. -/
def prettyItems : List Outline → List String
  | [] => []
  | o :: rest => o.pretty :: prettyItems rest

/-- The entries of a map or record, each in the form with a line per entry. -/
def prettyEntries : List (String × Outline) → List String
  | [] => []
  | (key, o) :: rest => (key ++ ": " ++ o.pretty) :: prettyEntries rest

end

end Outline

end Stencil.Text

import Stencil.Text.Printable

/-!
# Quoted text and quoted characters

The form in which a text is shown inside quotes: named escapes for five control
characters and the backslash, a backslash before the quote in use, the code
point in hexadecimal for every other hidden character, and the character itself
for the rest.

* `escape`: how one character is written between given quotes;
* `ofString`: a text in double quotes;
* `ofChar`: a character in single quotes.
-/

namespace Stencil.Text.Quoted

/-- How a character is written between two `quote` characters. -/
def escape (quote c : Char) : String :=
  match c with
  | '\x00' => "\\0"
  | '\t' => "\\t"
  | '\n' => "\\n"
  | '\r' => "\\r"
  | '\\' => "\\\\"
  | c =>
    if c = quote then "\\".push c
    else if Printable.isShown c then c.toString
    else "\\u\x7b" ++ String.ofList (Nat.toDigits 16 c.toNat) ++ "\x7d"

/-- The text in double quotes. -/
def ofString (s : String) : String :=
  (s.foldl (fun out c => out ++ escape '"' c) "\"").push '"'

/-- The character in single quotes. -/
def ofChar (c : Char) : String :=
  "'" ++ escape '\'' c ++ "'"

end Stencil.Text.Quoted

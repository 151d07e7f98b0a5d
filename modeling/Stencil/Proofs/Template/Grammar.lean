import Stencil.Template.Reader

/-!
# The grammar of templates

What a template may look like, and the tree that it stands for, without regard
to how it is read. Every relation has the characters of a phrase on the left and
what they stand for on the right.

* `Literal`: text with backslashes, up to a character that would end it;
* `RootPath`, `NestedPath`: the paths of a variable and of a call inside a call;
* `Numeral`: a number as an argument;
* `Word`, `Arguments`: one argument without brackets, and an argument list with
  the bracket that closes it. Their first parameter is the room that is left:
  how many more calls may be opened inside;
* `Variable`, `Source`: what stands between braces, and a whole template.
-/

namespace Stencil.Template

/-! ## Characters -/

/-- A character that ends a path. -/
def endsPath (c : Char) : Bool := c == '(' || c == ',' || c == ')' || c == '}'

/-- A character that passes over to the next argument. -/
def isSeparator (c : Char) : Bool := c == ' ' || c == ','

/-- A character that ends a number. -/
def endsNumber (c : Char) : Bool := c == ',' || c == ')'

/-- A character that the path of a nested call may start with. It may be one that
would end a path later on. -/
def startsNestedPath (c : Char) : Bool :=
  !(c == ')' || c == ',' || c == ' ' || c == '"' || c.isDigit)

/-! ## Words -/

/-- Characters that write a text without an unescaped `stop`: a backslash takes the
next character as it is. -/
inductive Literal (stop : Char) : List Char → List Char → Prop
  | nil : Literal stop [] []
  | plain {c : Char} {cs s : List Char} :
      c ≠ '\\' → c ≠ stop → Literal stop cs s → Literal stop (c :: cs) (c :: s)
  | escaped {c : Char} {cs s : List Char} :
      Literal stop cs s → Literal stop ('\\' :: c :: cs) (c :: s)

/-- The path of a variable. -/
structure RootPath (cs : List Char) : Prop where
  nonempty : cs ≠ []
  plain : ∀ c ∈ cs, endsPath c = false

/-- The path of a call inside a call. -/
inductive NestedPath : List Char → Prop
  | mk {c : Char} {cs : List Char} :
      startsNestedPath c → (∀ d ∈ cs, endsPath d = false) → NestedPath (c :: cs)

/-- A digit and what follows it up to the end of the argument; without the blanks around
it this is a number. -/
inductive Numeral : List Char → Float → Prop
  | mk {c : Char} {cs : List Char} {x : Float} :
      c.isDigit → (∀ d ∈ cs, endsNumber d = false) →
      Decimal.real? (Text.trim (c :: cs)) = some x → Numeral (c :: cs) x

/-- An argument without brackets: a text in quotes with spaces behind it, a number, or
the bare path of a call. -/
inductive Word (room : Nat) : List Char → Argument → Prop
  | string {cs s : List Char} (spaces : Nat) :
      Literal '"' cs s →
      Word room ('"' :: (cs ++ '"' :: List.replicate spaces ' ')) (.string (String.ofList s))
  | number {cs : List Char} {x : Float} : Numeral cs x → Word room cs (.number x)
  | reference {cs : List Char} :
      0 < room → NestedPath cs → Word room cs (.call (String.ofList cs) [])

/-! ## Argument lists -/

/-- An argument list and the bracket that closes its call. After a word comes a comma or
this bracket, and after the bracket that closes a nested call the list just goes on. -/
inductive Arguments : Nat → List Char → List Argument → Prop
  | close {room : Nat} : Arguments room [')'] []
  | skip {room : Nat} {c : Char} {cs : List Char} {as : List Argument} :
      isSeparator c → Arguments room cs as → Arguments room (c :: cs) as
  | last {room : Nat} {w : List Char} {a : Argument} :
      Word room w a → Arguments room (w ++ [')']) [a]
  | more {room : Nat} {w cs : List Char} {a : Argument} {as : List Argument} :
      Word room w a → Arguments room cs as → Arguments room (w ++ ',' :: cs) (a :: as)
  | nested {room : Nat} {w inner cs : List Char} {args as : List Argument} :
      NestedPath w → Arguments room inner args → Arguments (room + 1) cs as →
      Arguments (room + 1) (w ++ '(' :: (inner ++ cs)) (.call (String.ofList w) args :: as)

/-! ## Templates -/

/-- What stands between the braces of a variable. A comma or a closing bracket right after
the path is passed over. -/
inductive Variable : List Char → Call → Prop
  | bare {p : List Char} : RootPath p → Variable p ⟨String.ofList p, []⟩
  | comma {p : List Char} : RootPath p → Variable (p ++ [',']) ⟨String.ofList p, []⟩
  | bracket {p : List Char} : RootPath p → Variable (p ++ [')']) ⟨String.ofList p, []⟩
  | call {p cs : List Char} {as : List Argument} :
      RootPath p → Arguments (maxNesting - 1) cs as → Variable (p ++ '(' :: cs) ⟨String.ofList p, as⟩

/-- The node of a run of literal text, if the run is not empty. -/
def textNodes (s : List Char) : List Node := if s = [] then [] else [.text (String.ofList s)]

/-- A whole template: runs of literal text with variables between them. A backslash at
the very end stands for nothing. -/
inductive Source : List Char → List Node → Prop
  | text {cs s : List Char} : Literal '{' cs s → Source cs (textNodes s)
  | lone {cs s : List Char} : Literal '{' cs s → Source (cs ++ ['\\']) (textNodes s)
  | braces {cs s v rest : List Char} {call : Call} {nodes : List Node} :
      Literal '{' cs s → Variable v call → Source rest nodes →
      Source (cs ++ '{' :: (v ++ '}' :: rest)) (textNodes s ++ .call call :: nodes)

end Stencil.Template

import Stencil.Error
import Stencil.Template.Basic
import Stencil.Decimal.Numeral
import Stencil.Text.Blank

/-!
# Reading templates

A template is read in one pass, character by character. Outside braces the state
gathers literal text, where a backslash takes the next character as it is. Inside
braces it holds a stack of calls that are being read: the root call of the
variable at the bottom, and above each call the nested call that is its current
argument.

* `State.step`: what one character does;
* `parse`: the tree of a source, or the fault that ends the reading and the
  offset of the character it is found at.
-/

namespace Stencil.Template

/-! ## Faults -/

/-- What is wrong with a template. -/
inductive Fault
  /-- A character that cannot stand here. -/
  | unexpected (c : Char)
  /-- A closing brace inside the argument list of a call. -/
  | unclosedCall
  /-- An argument that starts with a digit and is no number. -/
  | badNumber (text : String)
  /-- More calls inside each other than are allowed. -/
  | tooDeep
  /-- A variable without a path. -/
  | emptyVariable
  /-- A variable without a closing brace. -/
  | unterminated
  deriving DecidableEq, Repr

/-- The words for a fault. -/
def Fault.message : Fault → String
  | unexpected c => "unexpected character " ++ Text.Quoted.ofChar c
  | unclosedCall => "unclosed function"
  | badNumber text => "invalid numeric argument " ++ Text.Quoted.ofString text
  | tooDeep => "template exceeds maximum nesting depth"
  | emptyVariable => "empty injected variable"
  | unterminated => "unterminated injected variable"

/-- A fault and the offset of the character it is found at. -/
structure Failure where
  fault : Fault
  offset : Nat
  deriving DecidableEq, Repr

/-- The error that a failure is reported as. -/
def Failure.toError (f : Failure) : Error :=
  { kind := .syntaxError, detail := some f.fault.message, offset := some f.offset }

/-! ## The state -/

/-- How many calls may be open at once inside one variable. -/
def maxNesting : Nat := 150

/-- What a call is reading: its path, or its arguments. -/
inductive Phase
  | path
  | arguments
  deriving DecidableEq, Repr

/-- The argument that a call is reading. -/
inductive Pending
  | unset
  | string (s : String)
  | number (text : String)
  /-- The argument is the call above on the stack. -/
  | nested
  deriving DecidableEq, Repr

/-- A call that is being read. -/
structure OpenCall where
  path : String := ""
  args : Array Argument := #[]
  phase : Phase := .path
  pending : Pending := .unset
  quoted : Bool := false

/-- The state of reading. `opened` is the offset of the brace of the variable that is
being read, `closed` its root call once that is complete. The top of the stack comes
first. -/
structure State where
  nodes : Array Node := #[]
  text : String := ""
  opened : Option Nat := none
  stack : List OpenCall := []
  closed : Option Call := none
  escape : Bool := false

/-! ## Arguments -/

/-- The number that an argument writes, without the blanks around it. -/
def readNumber? (text : String) : Option Float := Decimal.real? (Text.trim text.toList)

/-- Adds the pending text or number to the arguments. -/
def OpenCall.finishArgument (o : OpenCall) (pos : Nat) : Except Failure OpenCall :=
  match o.pending with
  | .unset | .nested => .ok { o with pending := .unset }
  | .string s => .ok { o with pending := .unset, args := o.args.push (.string s) }
  | .number text =>
    match readNumber? text with
    | some x => .ok { o with pending := .unset, args := o.args.push (.number x) }
    | none => .error ⟨.badNumber text, pos⟩

/-- Adds a character to a quoted argument. -/
def OpenCall.pushQuoted (o : OpenCall) (c : Char) : OpenCall :=
  match o.pending with
  | .string s => { o with pending := .string (s.push c) }
  | _ => o

/-- The call that has been read. -/
def OpenCall.toCall (o : OpenCall) : Call := ⟨o.path, o.args.toList⟩

/-! ## Steps -/

namespace State

/-- Completes the call at the top: it becomes an argument of the call below, or the
root call that waits for the closing brace. -/
def closeCall (s : State) : State :=
  match s.stack with
  | [] => s
  | [root] => { s with stack := [], closed := some root.toCall }
  | top :: parent :: below =>
    let arg := .call top.path top.args.toList
    { s with stack := { parent with args := parent.args.push arg, pending := .unset } :: below }

/-- Leaves the variable that was opened at `start`. -/
def leave (s : State) (start : Nat) : Except Failure State :=
  match s.closed with
  | none => .ok { s with opened := none }
  | some call =>
    if call.path.isEmpty then .error ⟨.emptyVariable, start⟩
    else .ok { s with nodes := s.nodes.push (.call call), closed := none, opened := none }

/-- Moves the gathered text into a node of its own, if there is any. -/
def flush (s : State) : State :=
  if s.text.isEmpty then s else { s with nodes := s.nodes.push (.text s.text), text := "" }

/-- A character of literal text. -/
def readText (s : State) (pos : Nat) (c : Char) : State :=
  if s.escape then { s with text := s.text.push c, escape := false }
  else if c = '\\' then { s with escape := true }
  else if c = '{' then { s.flush with opened := some pos, stack := {} :: s.stack }
  else { s with text := s.text.push c }

/-- A character of the path of the call at the top. -/
def readPath (s : State) (start pos : Nat) (top : OpenCall) (below : List OpenCall) (c : Char) :
    Except Failure State :=
  match c with
  | '(' => .ok { s with stack := { top with phase := .arguments } :: below }
  | ',' => .ok s.closeCall
  | ')' => .ok s.closeCall.closeCall
  | '}' => if below.isEmpty then s.closeCall.leave start else .error ⟨.unclosedCall, pos⟩
  | c => .ok { s with stack := { top with path := top.path.push c } :: below }

/-- A character of a quoted argument of the call at the top. -/
def readQuoted (s : State) (top : OpenCall) (below : List OpenCall) (c : Char) : State :=
  if s.escape then { s with escape := false, stack := top.pushQuoted c :: below }
  else if c = '\\' then { s with escape := true }
  else if c = '"' then { s with stack := { top with quoted := false } :: below }
  else { s with stack := top.pushQuoted c :: below }

/-- A character that starts an argument of the call at the top, or stands before one. -/
def readArgument (s : State) (pos : Nat) (top : OpenCall) (below : List OpenCall) (c : Char) :
    Except Failure State :=
  if c = ' ' then .ok s
  else if top.pending ≠ .unset then .error ⟨.unexpected c, pos⟩
  else if c = '"' then
    .ok { s with stack := { top with pending := .string "", quoted := true } :: below }
  else if c.isDigit then
    .ok { s with stack := { top with pending := .number c.toString } :: below }
  else if maxNesting ≤ s.stack.length then .error ⟨.tooDeep, pos⟩
  else .ok { s with stack := { path := c.toString } :: { top with pending := .nested } :: below }

/-- A character between the arguments of the call at the top, or in a number. -/
def readArguments (s : State) (pos : Nat) (top : OpenCall) (below : List OpenCall) (c : Char) :
    Except Failure State :=
  if c = ')' then
    (top.finishArgument pos).map fun top => closeCall { s with stack := top :: below }
  else if c = ',' then
    (top.finishArgument pos).map fun top => { s with stack := top :: below }
  else
    match top.pending with
    | .number text => .ok { s with stack := { top with pending := .number (text.push c) } :: below }
    | _ => s.readArgument pos top below c

/-- A character of a variable that was opened at `start`. -/
def readVariable (s : State) (start pos : Nat) (c : Char) : Except Failure State :=
  match s.stack with
  | [] => if c = '}' then s.leave start else .error ⟨.unexpected c, pos⟩
  | top :: below =>
    match top.phase with
    | .path => s.readPath start pos top below c
    | .arguments =>
      if top.quoted then .ok (s.readQuoted top below c) else s.readArguments pos top below c

/-- The character at an offset. -/
def step (s : State) (pos : Nat) (c : Char) : Except Failure State :=
  match s.opened with
  | some start => s.readVariable start pos c
  | none => .ok (s.readText pos c)

/-- The characters from an offset on. -/
def read (s : State) (pos : Nat) : List Char → Except Failure State
  | [] => .ok s
  | c :: rest =>
    match s.step pos c with
    | .ok next => next.read (pos + 1) rest
    | .error f => .error f

/-- The tree when the source is at its end. -/
def finish (s : State) : Except Failure Tree :=
  match s.opened with
  | some start => .error ⟨.unterminated, start⟩
  | none => .ok ⟨s.flush.nodes.toList⟩

end State

/-- Reads a template. -/
def parse (source : String) : Except Failure Tree :=
  match State.read {} 0 source.toList with
  | .ok s => s.finish
  | .error f => .error f

/-- Reads a template, with failures as errors of the engine. -/
def parseTree (source : String) : Except Error Tree := (parse source).mapError Failure.toError

end Stencil.Template

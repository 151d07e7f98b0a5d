import Stencil.Value.Display

/-!
# Parameters

Functions take typed parameters, and call arguments are converted to them. A
bool takes any value by its truth, a text takes any value by its plain text, an
optional parameter may be left out, and a rest parameter takes all arguments
that are left.

* `Parameter.Carrier`: what a parameter delivers to the function;
* `Parameter.read`: the conversion of one value, or of none;
* `bindArguments`: the conversion of an argument list.
-/

namespace Stencil

/-- The type of a parameter. -/
inductive Parameter
  | int (type : IntType)
  | float
  /-- A number of single precision. -/
  | single
  | bool
  | text
  | value
  | optional (p : Parameter)
  | rest (p : Parameter)
  deriving DecidableEq, Repr

/-- Why arguments do not fit parameters. -/
inductive Mismatch
  | missing
  | tooMany
  | unconvertible (kind : Kind) (target : String)
  deriving DecidableEq, Repr

/-- The words for a mismatch. -/
def Mismatch.message : Mismatch → String
  | missing => "missing argument"
  | tooMany => "too many arguments"
  | unconvertible kind target => "cannot convert " ++ kind.description ++ " to " ++ target

/-- The error that a mismatch is reported as. -/
def Mismatch.toError (m : Mismatch) : Error := .ofKind .invalidArguments m.message

namespace Parameter

/-- What a parameter delivers. -/
@[reducible] def Carrier : Parameter → Type
  | int _ => Int
  | float | single => Float
  | bool => Bool
  | text => String
  | value => Value
  | optional p => Option p.Carrier
  | rest p => List p.Carrier

/-- An argument that has to be there. -/
def required {α : Type} (v? : Option Value) (convert : Value → Except Mismatch α) : Except Mismatch α :=
  match v? with
  | some v => convert v
  | none => .error .missing

/-- A number in double precision. -/
def toFloat (v : Value) : Except Mismatch Float :=
  match v.number? with
  | some x => .ok x
  | none => .error (.unconvertible v.kind "f64")

/-- Converts one argument, or its absence. A value that is not there is undefined; an
optional parameter takes undefined and none for absent. -/
def read : (p : Parameter) → Option Value → Except Mismatch p.Carrier
  | int t, v? => required v? fun v =>
    match v.toInt? t with
    | some n => .ok n
    | none => .error (.unconvertible v.kind t.name)
  | float, v? => required v? toFloat
  | single, v? => required v? fun v => (toFloat v).map Decimal.toSingle
  | bool, v? => required v? fun v => .ok v.isTrue
  | text, v? => required v? fun v => .ok v.display
  | value, v? => .ok (v?.getD .undefined)
  | optional p, v? =>
    match v? with
    | none => .ok none
    | some v => if v.isUndefined || v.isNone then .ok none else (p.read (some v)).map some
  | rest p, v? => v?.toList.mapM fun v => p.read (some v)

/-- Takes the arguments of one parameter from the front of a list: all of them for a
rest parameter, and the first, if there is one, for the others. -/
def take : (p : Parameter) → List Value → Except Mismatch (p.Carrier × List Value)
  | rest p, args => (args.mapM fun v => p.read (some v)).map fun xs => (xs, [])
  | p, args => (p.read args.head?).map fun x => (x, args.tail)

/-- What a parameter delivers, as a value again. -/
def toValue : (p : Parameter) → p.Carrier → Value
  | int t, n => .ofInt t n
  | float, x | single, x => .float x
  | bool, b => .bool b
  | text, s => .string s
  | value, v => v
  | optional p, x? => .ofOption (x?.map p.toValue)
  | rest p, xs => .seq (xs.map p.toValue)

end Parameter

/-- What a list of parameters delivers. -/
@[reducible] def Arguments : List Parameter → Type
  | [] => Unit
  | p :: ps => p.Carrier × Arguments ps

/-- Converts an argument list, in order; no argument may be left over. -/
def bindArguments : (ps : List Parameter) → List Value → Except Mismatch (Arguments ps)
  | [], [] => .ok ()
  | [], _ :: _ => .error .tooMany
  | p :: ps, args =>
    match p.take args with
    | .error m => .error m
    | .ok (x, left) => (bindArguments ps left).map fun xs => (x, xs)

end Stencil

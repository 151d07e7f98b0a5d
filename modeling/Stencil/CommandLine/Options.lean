/-!
# Command line options

The options are read from left to right. A long option takes its value after an
equals sign or from the next argument, a short one also from the characters that
follow it, and short flags may be written together. After `--` all arguments are
files. An option may be given once, except for defines.

* `Options.parse`: the options of an argument list, or why the run ends here.
-/

namespace Stencil.CommandLine

/-- What a run is asked to do. -/
structure Options where
  configFile : Option String := none
  format : Option String := none
  defines : List String := []
  noGlobals : Bool := false
  env : Bool := false
  noNewline : Bool := false
  template : Option String := none
  dump : Option String := none
  output : Option String := none
  select : Option String := none
  printConfig : Bool := false
  templateFile : Option String := none
  dataFile : Option String := none

/-- Why a run ends before it starts. -/
inductive Stop
  | help
  | version
  | misuse (message : String)

/-- The options that take a value. -/
inductive Setting
  | configFile | format | define | template | dump | output | select
  deriving DecidableEq

/-- The options that take none. -/
inductive Flag
  | noGlobals | env | noNewline | printConfig
  deriving DecidableEq

namespace Setting

/-- The long name of an option. -/
def name : Setting → String
  | configFile => "config-file"
  | format => "format"
  | define => "define"
  | template => "template"
  | dump => "dump"
  | output => "output"
  | select => "select"

/-- All options that take a value. -/
def all : List Setting := [configFile, format, define, template, dump, output, select]

/-- The option with a short name. -/
def ofShort? : Char → Option Setting
  | 'f' => some format
  | 'D' => some define
  | 't' => some template
  | 'o' => some output
  | _ => none

/-- The values that an option takes. Files have to have names. -/
def accepts (s : Setting) (value : String) : Bool :=
  match s with
  | format => ["auto", "json", "toml", "yaml"].contains value
  | dump => value == "ast"
  | configFile | output => !value.isEmpty
  | define | template | select => true

end Setting

namespace Flag

/-- The long name of a flag. -/
def name : Flag → String
  | noGlobals => "no-globals"
  | env => "env"
  | noNewline => "no-newline"
  | printConfig => "print-config"

/-- All flags. -/
def all : List Flag := [noGlobals, env, noNewline, printConfig]

end Flag

namespace Options

/-- A value that is given at most once. -/
def once (name : String) (old : Option String) (value : String) : Except Stop (Option String) :=
  match old with
  | none => .ok (some value)
  | some _ => .error (.misuse ("the argument '--" ++ name ++ "' cannot be used multiple times"))

/-- Gives an option its value. -/
def set (o : Options) (s : Setting) (value : String) : Except Stop Options := do
  if !s.accepts value then
    throw (.misuse ("invalid value '" ++ value ++ "' for '--" ++ s.name ++ "'"))
  match s with
  | .configFile => return { o with configFile := ← once s.name o.configFile value }
  | .format => return { o with format := ← once s.name o.format value }
  | .define => return { o with defines := o.defines ++ [value] }
  | .template => return { o with template := ← once s.name o.template value }
  | .dump => return { o with dump := ← once s.name o.dump value }
  | .output => return { o with output := ← once s.name o.output value }
  | .select => return { o with select := ← once s.name o.select value }

/-- Raises a flag. -/
def raise (o : Options) (f : Flag) : Except Stop Options := do
  let again := match f with
    | .noGlobals => o.noGlobals
    | .env => o.env
    | .noNewline => o.noNewline
    | .printConfig => o.printConfig
  if again then
    throw (.misuse ("the argument '--" ++ f.name ++ "' cannot be used multiple times"))
  match f with
  | .noGlobals => return { o with noGlobals := true }
  | .env => return { o with env := true }
  | .noNewline => return { o with noNewline := true }
  | .printConfig => return { o with printConfig := true }

/-- Takes a file: first the template, then the data, which has to have a name. -/
def file (o : Options) (path : String) : Except Stop Options :=
  match o.templateFile, o.dataFile with
  | none, _ => .ok { o with templateFile := some path }
  | some _, none =>
    if path.isEmpty then .error (.misuse "a value is required for '[DATA_FILE]' but none was supplied")
    else .ok { o with dataFile := some path }
  | some _, some _ => .error (.misuse ("unexpected argument '" ++ path ++ "' found"))

end Options

/-- The state of reading arguments: the options so far, the option that waits for its
value, and whether all that follows are files. -/
structure Reading where
  options : Options := {}
  awaiting : Option Setting := none
  onlyFiles : Bool := false

namespace Reading

/-- Continues with other options. -/
def proceed (r : Reading) (o : Except Stop Options) : Except Stop Reading :=
  o.map fun o => { r with options := o, awaiting := none }

/-- Short options written together. -/
def short (r : Reading) : List Char → Except Stop Reading
  | [] => .ok r
  | c :: rest =>
    if c = 'h' then .error .help
    else if c = 'V' then .error .version
    else if c = 'n' then
      match r.options.raise .noNewline with
      | .ok o => short { r with options := o } rest
      | .error e => .error e
    else
      match Setting.ofShort? c, rest with
      | none, _ => .error (.misuse ("unexpected argument '-" ++ c.toString ++ "' found"))
      | some s, [] => .ok { r with awaiting := some s }
      | some s, '=' :: value => r.proceed (r.options.set s (String.ofList value))
      | some s, value => r.proceed (r.options.set s (String.ofList value))

/-- A long option, with the value behind its equals sign if it has one. -/
def long (r : Reading) (name : String) (value? : Option String) : Except Stop Reading :=
  match Setting.all.find? (·.name = name), Flag.all.find? (·.name = name), value? with
  | some s, _, some value => r.proceed (r.options.set s value)
  | some s, _, none => .ok { r with awaiting := some s }
  | none, some f, none => r.proceed (r.options.raise f)
  | none, none, none =>
    if name = "help" then .error .help
    else if name = "version" then .error .version
    else .error (.misuse ("unexpected argument '--" ++ name ++ "' found"))
  | none, _, some value =>
    .error (.misuse ("unexpected value '" ++ value ++ "' for '--" ++ name ++ "' found"))

/-- One argument. A lone hyphen is a file or a value like any other. -/
def step (r : Reading) (arg : String) : Except Stop Reading :=
  if r.onlyFiles then r.proceed (r.options.file arg)
  else
    match r.awaiting, arg.toList with
    | some s, cs =>
      if cs.head? = some '-' ∧ cs ≠ ['-'] then
        .error (.misuse ("a value is required for '--" ++ s.name ++ "' but none was supplied"))
      else r.proceed (r.options.set s arg)
    | none, ['-', '-'] => .ok { r with onlyFiles := true }
    | none, '-' :: '-' :: rest =>
      let name := String.ofList (rest.takeWhile (· != '='))
      match rest.dropWhile (· != '=') with
      | _ :: value => r.long name (some (String.ofList value))
      | [] => r.long name none
    | none, ['-'] => r.proceed (r.options.file arg)
    | none, '-' :: rest => r.short rest
    | none, _ => r.proceed (r.options.file arg)

end Reading

/-- The options of an argument list. -/
def Options.parse (args : List String) : Except Stop Options := do
  let r ← args.foldlM Reading.step {}
  match r.awaiting with
  | some s => throw (.misuse ("a value is required for '--" ++ s.name ++ "' but none was supplied"))
  | none => return r.options

end Stencil.CommandLine

import Stencil.CommandLine.Data
import Stencil.Environment

/-!
# Runs of the command line

A run reads its options, its configuration, a template and a data file, and
writes the rendered template, its tree, or its configuration. What it asks of
the system is given as a record, so that a run can be followed on any system.

* `System`: files, standard input and variables;
* `run`: the outcome of an argument list. Only a run that succeeds writes its
  output.
-/

namespace Stencil.CommandLine

/-- What a run can ask of the system. Failures are given as messages. -/
structure System (m : Type → Type) where
  contentsOf : String → m (Except String String)
  isFile : String → m Bool
  readInput : m (Except String String)
  /-- A file of this name can be created. -/
  canCreate : String → m (Except String Unit)
  /-- What is there under this name, if anything, can be replaced by a file. -/
  canReplace : String → m (Except String Unit)
  environment : List (String × String)
  home : Option String

/-- What a run leaves behind: an exit code, two texts, and a file if it has written one. -/
structure Outcome where
  code : UInt8 := 0
  output : String := ""
  messages : String := ""
  file : Option (String × String) := none

/-- A step of a run, which may fail. -/
abbrev Run (m : Type → Type) := ExceptT Failure m

section

variable {m : Type → Type} [Monad m]

/-- A result as a step that asks nothing of the system. -/
def Run.ofExcept {α : Type} (r : Except Failure α) : Run m α := ExceptT.mk (pure r)

/-- Reads a file or standard input. -/
def readSource (sys : System m) (path what : String) : Run m String := do
  if path = standardStream then
    match ← sys.readInput with
    | .ok text => return text
    | .error cause => throw ⟨"unable to read " ++ what ++ " from stdin", [cause]⟩
  else
    match ← sys.contentsOf path with
    | .ok text => return text
    | .error cause => throw ⟨"unable to read " ++ what ++ " file '" ++ path ++ "'", [cause]⟩

/-- The configuration of a config file. -/
def loadConfigFile (sys : System m) (path : String) : Run m Config := do
  match ← sys.contentsOf path with
  | .error cause => throw ⟨"unable to read config file '" ++ path ++ "'", [cause]⟩
  | .ok text =>
    match (Toml.parse? text).bind Config.ofToml? with
    | some c => return c
    | none => throw ⟨"invalid config file '" ++ path ++ "'", ["malformed TOML text"]⟩

/-- The config file: the one that is named by an option or a variable, or the one in the
home directory if it is there. -/
def loadConfigLayer (sys : System m) (o : Options) : Run m Config := do
  match o.configFile.or (sys.environment.lookup "TMPLFMT_CONFIG_FILE") with
  | some path => loadConfigFile sys path
  | none =>
    match sys.home with
    | none => return {}
    | some home =>
      let path := home ++ "/.tmplfmt.toml"
      if ← sys.isFile path then loadConfigFile sys path else return {}

/-- The configuration with all layers. -/
def loadConfig (sys : System m) (o : Options) : Run m Config := do
  let c ← loadConfigLayer sys o
  let c ← Run.ofExcept (c.withVariables sys.environment)
  Run.ofExcept (c.withOptions o)

/-- The source of the template: the text of an option, or a file. An empty name stands
for no file. -/
def loadTemplate (sys : System m) (o : Options) : Run m String := do
  let file? := match o.templateFile with
    | some path => if path.isEmpty then none else some path
    | none => if o.template.isSome then none else some standardStream
  match o.template, file? with
  | some source, none => return source
  | some _, some _ => throw ⟨"cannot combine --template with a template file", []⟩
  | none, some path =>
    if path = standardStream ∧ o.dataFile = some standardStream then
      throw ⟨"cannot load template from stdin when data is from stdin", []⟩
    readSource sys path "template"
  | none, none => throw ⟨"no template given", []⟩

/-- The data of a run; nothing without a data file. -/
def loadBase (sys : System m) (o : Options) (c : Config) : Run m Value := do
  match o.dataFile with
  | none => return .map []
  | some path =>
    let contents ← readSource sys path "data"
    let format ← Run.ofExcept (formatOf c.format path)
    Run.ofExcept (loadData format contents o.select)

/-- The context of a run: the data, the process environment and the defines, later ones
written over earlier ones. -/
def contextOf (base : Value) (c : Config) (vars : List (String × String)) : Value :=
  .merge [base, c.extraContext vars]

/-- The text that a run produces: the rendered template, or its tree if a dump is asked
for, which always ends its line. -/
def produce (o : Options) (c : Config) (source : String) (ctx : Value) : Except Error String :=
  if o.dump.isSome then
    (Environment.new.parse source).1.map fun tree => tree.outline.pretty ++ "\n"
  else
    let ((result, _), ()) := (Environment.new.render Base.host source ctx c.globals).run ()
    result.map fun text => if c.newline then text ++ "\n" else text

/-- The work of a run with its options. -/
def execute (sys : System m) (o : Options) : Run m Outcome := do
  let c ← loadConfig sys o
  if o.printConfig then
    return { output := c.toJson.pretty ++ "\n" }
  let source ← loadTemplate sys o
  let base ← loadBase sys o c
  let ctx := contextOf base c sys.environment
  let target? := o.output.filter (· ≠ standardStream)
  if let some path := target? then
    if let .error message ← sys.canCreate path then
      throw ⟨message, []⟩
  match produce o c source ctx with
  | .error e => throw (.ofError e)
  | .ok text =>
    match target? with
    | none => return { output := text }
    | some path =>
      match ← sys.canReplace path with
      | .ok () => return { file := some (path, text) }
      | .error cause => throw ⟨"failed to persist temporary file: " ++ cause, [cause]⟩

/-- How the command line is used. -/
def usage : String :=
  "Usage: tmplfmt-cli [OPTIONS] [TEMPLATE_FILE] [DATA_FILE]\n\n" ++
  "Options:\n" ++
  "      --config-file <PATH>          Alternative path to the config file\n" ++
  "  -f, --format <FORMAT>             The format of the input data\n" ++
  "  -D, --define <EXPR>               Defines an input variable\n" ++
  "      --no-globals                  Do not register the base functions\n" ++
  "      --env                         Pass environment variables as ENV to the template\n" ++
  "  -n, --no-newline                  Do not output a trailing newline\n" ++
  "  -t, --template <TEMPLATE_STRING>  Render a string template\n" ++
  "      --dump <KIND>                 Dump internals of a template\n" ++
  "  -o, --output <FILENAME>           Path to the output file\n" ++
  "      --select <SELECTOR>           Select a subset of the input data\n" ++
  "      --print-config                Print out the loaded config\n" ++
  "  -h, --help                        Print help\n" ++
  "  -V, --version                     Print version\n"

/-- The outcome of an argument list: code 1 for a failure, 2 for a misuse. -/
def run (sys : System m) (args : List String) : m Outcome := do
  match Options.parse args with
  | .error .help => return { output := usage }
  | .error .version => return { output := "tmplfmt-cli 0.3.0\n" }
  | .error (.misuse message) => return { code := 2, messages := "error: " ++ message ++ "\n" }
  | .ok o =>
    match ← (execute sys o).run with
    | .ok outcome => return outcome
    | .error f => return { code := 1, messages := f.text }

end

end Stencil.CommandLine

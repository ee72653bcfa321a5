import FlowTyping.Check.Codec
import FlowTyping.Check.Printer
import FlowTyping.Command.Arguments
import FlowTyping.Command.Config
import FlowTyping.Files.Tree
import FlowTyping.Json.Printer

/-!
# Running the analysis on files
-/

namespace FlowTyping

/-- The ways in which a run fails, with the path that is to blame. -/
inductive RunError where
  | unreadableConfig (path : String)
  | invalidConfig (path : String)
  | missingInput (path : String)
  | unreadableDump (path : String)
  | invalidDump (path : String)
  | endlessNesting
  deriving DecidableEq, Repr

def RunError.message : RunError → String
  | unreadableConfig path => "failed to read config " ++ path
  | invalidConfig path => "in " ++ path
  | missingInput path => "input path does not exist: " ++ path
  | unreadableDump path => "failed to read " ++ path
  | invalidDump path => "failed to parse AST dump " ++ path
  | endlessNesting => "nodes are nested in a cycle"

structure RunResult where
  reports : List FileReport
  dumps : List String
  deriving DecidableEq, Repr

namespace RunResult

def diagnostics (r : RunResult) : List Diagnostic :=
  r.reports.flatMap FileReport.diagnostics

def count (r : RunResult) (category : Category) : Nat :=
  r.diagnostics.countP fun d => d.category == category

def hasErrors (r : RunResult) : Bool :=
  r.reports.any FileReport.hasErrors

end RunResult

/-- Whether a file in a directory is taken for a dump. -/
def isDumpName (name : String) : Bool :=
  Text.endsWith ".ast.json".toList name.toList

def SourceUnit.parse? (text : String) : Option SourceUnit := do
  SourceUnit.ofJson? .ordered (← Json.parse? text)

/-- The options of a run: what the command line says wins over the configuration. -/
def Arguments.options (args : Arguments) (config : Config) : Options :=
  let options := config.options
  { options with
    strictTypes := options.strictTypes || args.strictTypes
    checks := if args.checks.isEmpty then options.checks else args.checks }

/-- The paths that a run starts from.  Those of the configuration are seen from the directory
`base`, those of the command line from the directory `cwd`. -/
def Arguments.roots (args : Arguments) (config : Config) (base cwd : String) : List String :=
  if !args.paths.isEmpty then args.paths.map (Path.join cwd)
  else
    match config.inputs with
    | some inputs => inputs.map (Path.join base)
    | none => [cwd]

section

variable {m : Type → Type} [Monad m]

/-- The path of the configuration: the one asked for, or that of the directory, if it has one. -/
def configPath? (fs : FileSystem m) (asked : Option String) (cwd : String) :
    m (Option String) := do
  match asked with
  | some path => return some (Path.join cwd path)
  | none =>
    let path := Path.join cwd Config.fileName
    match ← fs.kindOf path with
    | some .file => return some path
    | _ => return none

def loadConfig (fs : FileSystem m) (path : String) : ExceptT RunError m Config := do
  match ← fs.read path with
  | none => throw (.unreadableConfig path)
  | some text =>
    match Config.parse? text with
    | none => throw (.invalidConfig path)
    | some config => return config

/-- The dumps that a path stands for: a file is taken as it is, in a directory all dumps are. -/
def dumpsOf (fs : FileSystem m) (excluded : List String) (root : String) :
    ExceptT RunError m (List String) := do
  match ← fs.kindOf root with
  | some .file => return [root]
  | some .directory => fs.filesBelow isDumpName excluded root
  | none => throw (.missingInput root)

def loadUnit (fs : FileSystem m) (path : String) : ExceptT RunError m SourceUnit := do
  match ← fs.read path with
  | none => throw (.unreadableDump path)
  | some text =>
    match SourceUnit.parse? text with
    | none => throw (.invalidDump path)
    | some unit => return unit

/-- Finds the configuration and the dumps, and analyses them together. -/
def Arguments.run (args : Arguments) (fs : FileSystem m) (cwd : String) :
    ExceptT RunError m RunResult := do
  let path ← (configPath? fs args.config cwd : m (Option String))
  let config ← match path with
    | some path => loadConfig fs path
    | none => pure {}
  let base := (path.map Path.parent).getD cwd
  let found ← (args.roots config base cwd).mapM (dumpsOf fs config.excludedNames)
  let dumps := Path.sortDistinct found.flatten
  let units ← dumps.mapM (loadUnit fs)
  match checkUnits units (args.options config) with
  | some reports => return { reports, dumps }
  | none => throw .endlessNesting

/-- What a command prints, and the code it ends with. -/
structure CommandResult where
  exitCode : UInt32
  output : String := ""
  errors : String := ""
  deriving DecidableEq, Repr

def asLine (text : String) : String :=
  text ++ "\n"

def RunResult.text (r : RunResult) (style : Style) (dumpTypes : Bool) : CommandResult :=
  let types :=
    if dumpTypes then
      (r.reports.filter fun f => !f.types.isEmpty).map fun f => asLine (style.types f)
    else []
  let diagnostics :=
    if r.diagnostics.isEmpty then [] else [asLine (style.diagnostics r.diagnostics)]
  { exitCode := if r.hasErrors then 1 else 0
    output := String.join (types ++ diagnostics)
    errors := asLine (style.summary r.reports.length (r.count .error) (r.count .warning)) }

def RunResult.json (r : RunResult) : CommandResult :=
  { exitCode := if r.hasErrors then 1 else 0
    output := asLine (Json.pretty (.arr (r.reports.map FileReport.toJson))) }

def usage : String :=
  "Usage: phz [OPTIONS] [PATHS]...\n\n" ++
  "Infers types in dumps of syntax trees and checks their variables.\n\n" ++
  "  -c, --config <CONFIG>  Configuration file\n" ++
  "      --dump-types       Print the type of every expression\n" ++
  "      --format <FORMAT>  text or json\n" ++
  "      --color <COLOR>    auto, always or never\n" ++
  "      --check <ID>       Run only this check; may be repeated\n" ++
  "      --strict-types     Treat every file as declaring strict types\n" ++
  "  -j, --jobs <JOBS>      Number of workers\n" ++
  "  -h, --help             Print this text\n" ++
  "  -V, --version          Print the version\n"

def versionText : String :=
  "phz 0.1.0"

/-- The whole command.  Colours are written to a terminal only, also where they are asked for. -/
def runCommand (fs : FileSystem m) (words : List String) (cwd : String) (isTerminal : Bool) :
    m CommandResult := do
  match Invocation.parse? words with
  | none => return { exitCode := 2, errors := usage }
  | some .help => return { exitCode := 0, output := usage }
  | some .version => return { exitCode := 0, output := asLine versionText }
  | some (.run args) =>
    match ← (args.run fs cwd).run with
    | .error e => return { exitCode := 1, errors := asLine ("Error: " ++ e.message) }
    | .ok result =>
      match args.format.getD .text with
      | .json => return result.json
      | .text =>
        let colored := (args.color.getD .auto).isEnabled isTerminal && isTerminal
        return result.text (.ofBool colored) args.dumpTypes

end

end FlowTyping

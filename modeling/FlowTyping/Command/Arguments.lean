import FlowTyping.Text.Blank

/-!
# Command-line arguments

* `Invocation.parse?`: reads a command line; none where it is not a proper one.

An option takes its value from the same word, after `=` or right after a one-letter name, or from the
next word, which then must not look like an option.  After `--` all words are paths.
-/

namespace FlowTyping

inductive OutputFormat where
  | text
  | json
  deriving DecidableEq, Repr, Inhabited

def OutputFormat.ofName? : String → Option OutputFormat
  | "text" => some .text
  | "json" => some .json
  | _ => none

inductive ColorChoice where
  | auto
  | always
  | never
  deriving DecidableEq, Repr, Inhabited

namespace ColorChoice

def ofName? : String → Option ColorChoice
  | "auto" => some .auto
  | "always" => some .always
  | "never" => some .never
  | _ => none

/-- Whether colours are wanted on an output that is a terminal or not. -/
def isEnabled (choice : ColorChoice) (isTerminal : Bool) : Bool :=
  match choice with
  | .auto => isTerminal
  | .always => true
  | .never => false

end ColorChoice

inductive LogFormat where
  | text
  | tree
  | json
  deriving DecidableEq, Repr, Inhabited

/-- The format that a setting names; plain text for anything unknown. -/
def LogFormat.ofSetting (setting : String) : LogFormat :=
  match String.ofList ((Text.trim setting.toList).map Char.toLower) with
  | "tree" => .tree
  | "json" => .json
  | _ => .text

/-- What a command line asks for; none for an option that is not given. -/
structure Arguments where
  paths : List String := []
  config : Option String := none
  dumpTypes : Bool := false
  format : Option OutputFormat := none
  color : Option ColorChoice := none
  checks : List String := []
  strictTypes : Bool := false
  /-- The number of workers; results do not depend on it. -/
  jobs : Option Nat := none
  deriving DecidableEq, Repr, Inhabited

inductive Invocation where
  | run (args : Arguments)
  | help
  | version
  deriving DecidableEq, Repr

inductive ValueOption where
  | config
  | format
  | color
  | check
  | jobs
  deriving DecidableEq, Repr

/-- What an option name stands for. -/
inductive OptionName where
  | takesValue (option : ValueOption)
  | dumpTypes
  | strictTypes
  | help
  | version
  deriving DecidableEq, Repr

namespace OptionName

def ofLong? : String → Option OptionName
  | "config" => some (.takesValue .config)
  | "format" => some (.takesValue .format)
  | "color" => some (.takesValue .color)
  | "check" => some (.takesValue .check)
  | "jobs" => some (.takesValue .jobs)
  | "dump-types" | "dumpTypes" => some .dumpTypes
  | "strict-types" => some .strictTypes
  | "help" => some .help
  | "version" => some .version
  | _ => none

def ofShort? : Char → Option OptionName
  | 'c' => some (.takesValue .config)
  | 'j' => some (.takesValue .jobs)
  | 'h' => some .help
  | 'V' => some .version
  | _ => none

end OptionName

/-- A number of workers: decimal digits, with a plus sign in front or not, below 2^64. -/
def jobCount? (text : String) : Option Nat :=
  let digits := match text.toList with
    | '+' :: rest => rest
    | cs => cs
  if digits.isEmpty || !digits.all Char.isDigit then none
  else
    let n := digits.foldl (fun n c => 10 * n + (c.toNat - '0'.toNat)) 0
    if n < 18446744073709551616 then some n else none

namespace Arguments

def addPath? (args : Arguments) (path : String) : Option Arguments :=
  if path.isEmpty then none else some { args with paths := args.paths ++ [path] }

/-- Sets an option to a value.  Only checks may be given more than once. -/
def set? (args : Arguments) (value : String) : ValueOption → Option Arguments
  | .config =>
    if args.config.isSome || value.isEmpty then none else some { args with config := some value }
  | .format => do
    if args.format.isSome then none
    else return { args with format := some (← OutputFormat.ofName? value) }
  | .color => do
    if args.color.isSome then none
    else return { args with color := some (← ColorChoice.ofName? value) }
  | .check => some { args with checks := args.checks ++ [value] }
  | .jobs => do
    if args.jobs.isSome then none else return { args with jobs := some (← jobCount? value) }

end Arguments

/-- A word of a command line. -/
inductive Word where
  | endOfOptions
  | long (name : String) (value : Option String)
  | short (letter : Char) (rest : List Char)
  /-- Anything else: a path, or the value of the option before. -/
  | plain (text : String)
  deriving DecidableEq, Repr

def Word.ofText (text : String) : Word :=
  match text.toList with
  | ['-', '-'] => .endOfOptions
  | '-' :: '-' :: rest =>
    match Text.splitFirst? '=' rest with
    | some (name, value) => .long (String.ofList name) (some (String.ofList value))
    | none => .long (String.ofList rest) none
  | '-' :: letter :: rest => .short letter rest
  | _ => .plain text

/-- The value that stands right after a one-letter option: all that follows, without a `=` in
front; none where nothing follows. -/
def attachedValue? : List Char → Option String
  | [] => none
  | '=' :: rest => some (String.ofList rest)
  | rest => some (String.ofList rest)

/-- What a word of a command line leads to. -/
inductive ArgumentStep where
  /-- The next word is read; it is the value of `pending`, if there is one. -/
  | next (args : Arguments) (pending : Option ValueOption)
  | onlyPaths
  | help
  | version
  | reject
  deriving DecidableEq, Repr

namespace ArgumentStep

/-- Goes on with new arguments, if there are any. -/
def ofArguments? : Option Arguments → ArgumentStep
  | some args => .next args none
  | none => .reject

def ofOption (args : Arguments) (value : Option String) : OptionName → ArgumentStep
  | .takesValue option =>
    match value with
    | some value => ofArguments? (args.set? value option)
    | none => .next args (some option)
  | .dumpTypes =>
    if args.dumpTypes || value.isSome then .reject else .next { args with dumpTypes := true } none
  | .strictTypes =>
    if args.strictTypes || value.isSome then .reject
    else .next { args with strictTypes := true } none
  | .help => if value.isSome then .reject else .help
  | .version => if value.isSome then .reject else .version

def ofWord (args : Arguments) : Word → ArgumentStep
  | .endOfOptions => .onlyPaths
  | .plain path => ofArguments? (args.addPath? path)
  | .long name value =>
    match OptionName.ofLong? name with
    | some option => ofOption args value option
    | none => .reject
  | .short letter rest =>
    match OptionName.ofShort? letter with
    | some (.takesValue option) => ofOption args (attachedValue? rest) (.takesValue option)
    | some option => ofOption args none option
    | none => .reject

def ofValue (args : Arguments) (option : ValueOption) : Word → ArgumentStep
  | .plain value => ofArguments? (args.set? value option)
  | _ => .reject

end ArgumentStep

namespace Invocation

/-- Reads the words of a command line; `pending` is an option that waits for its value. -/
def parseFrom (args : Arguments) (pending : Option ValueOption) : List String → Option Invocation
  | [] => if pending.isSome then none else some (.run args)
  | text :: rest =>
    let step := match pending with
      | some option => ArgumentStep.ofValue args option (Word.ofText text)
      | none => ArgumentStep.ofWord args (Word.ofText text)
    match step with
    | .next args pending => parseFrom args pending rest
    | .onlyPaths => (rest.foldlM Arguments.addPath? args).map .run
    | .help => some .help
    | .version => some .version
    | .reject => none

def parse? (words : List String) : Option Invocation :=
  parseFrom {} none words

end Invocation

end FlowTyping

import FlowTyping.Analysis.Options
import FlowTyping.Ast.Codec
import FlowTyping.Json.Reader

/-!
# The configuration file

A JSON record of what to analyse and how.  Every part may be missing or `null`; a part without a
meaning is passed over, and one that is there twice is a fault.

* `Config.parse?`: reads a configuration.
-/

namespace FlowTyping

namespace Json

/-- The parts of a record of which all may be missing.  An array holds the first ones, in order. -/
def partialRecord? (names : List String) : Json → Option (List (String × Json))
  | .obj fields => some fields
  | .arr items => if items.length ≤ names.length then some (names.zip items) else none
  | _ => none

def truthOfWord? (word : String) : Option Bool :=
  match Name.foldCase (String.ofList (Text.trim word.toList)) with
  | "true" | "1" | "yes" | "on" => some true
  | "false" | "0" | "no" | "off" => some false
  | _ => none

def truth? : Json → Option Bool
  | .bool b => some b
  | .str word => truthOfWord? word
  | _ => none

end Json

/-- What a configuration says about the analysis; none where it says nothing. -/
structure OptionSettings where
  strictTypes : Option Bool := none
  narrowLooseNull : Option Bool := none
  propagateClosureUsage : Option Bool := none
  maxDepth : Option UInt32 := none
  checks : Option (List String) := none
  superglobals : Option (List String) := none
  deriving DecidableEq, Repr

structure Config where
  inputs : Option (List String) := none
  excluded : Option (List String) := none
  settings : Option OptionSettings := none
  deriving DecidableEq, Repr

open Json

def OptionSettings.ofJson? (value : Json) : Option OptionSettings := do
  let fields ← value.partialRecord?
    ["strictTypes", "narrowLooseNullEquality", "propagateClosureUsage", "maxExpressionDepth",
     "checks", "superglobals"]
  return { strictTypes := ← optional fields "strictTypes" truth?
           narrowLooseNull := ← optional fields "narrowLooseNullEquality" truth?
           propagateClosureUsage := ← optional fields "propagateClosureUsage" truth?
           maxDepth := ← optional fields "maxExpressionDepth" uint32?
           checks := ← optional fields "checks" strings?
           superglobals := ← optional fields "superglobals" strings? }

namespace Config

def ofJson? (value : Json) : Option Config := do
  let fields ← value.partialRecord? ["include", "exclude", "checkerOptions"]
  return { inputs := ← optional fields "include" strings?
           excluded := ← optional fields "exclude" strings?
           settings := ← optional fields "checkerOptions" OptionSettings.ofJson? }

def parse? (text : String) : Option Config := do
  ofJson? (← Json.parse? text)

/-- The options that a configuration sets; the others stay as they are by default.  A superglobal may
be written with its sigil. -/
def options (config : Config) : Options :=
  let set := config.settings.getD {}
  let default : Options := {}
  { strictTypes := set.strictTypes.getD default.strictTypes
    narrowLooseNull := set.narrowLooseNull.getD default.narrowLooseNull
    propagateClosureUsage := set.propagateClosureUsage.getD default.propagateClosureUsage
    maxDepth := set.maxDepth.getD default.maxDepth
    checks := set.checks.getD default.checks
    superglobals := (set.superglobals.getD default.superglobals).map fun name =>
      String.ofList (name.toList.dropWhile (· == '$')) }

def excludedNames (config : Config) : List String :=
  config.excluded.getD []

def fileName : String :=
  "phz.json"

end Config

end FlowTyping

import FlowTyping.Symbol.Basic

/-!
# Signatures as text

Built-in functions are described by one line each, such as
`int|false strpos(string $haystack, string $needle, int $offset = 0)`.
-/

namespace FlowTyping

/-- The marks between the type and the name of a parameter. -/
structure ParamMarks where
  byRef : Bool := false
  variadic : Bool := false

/-- Reads marks off the end of a text that is given backwards, and returns the rest. -/
def ParamMarks.read (marks : ParamMarks) : List Char → ParamMarks × List Char
  | [] => (marks, [])
  | '.' :: '.' :: '.' :: rest => ParamMarks.read { marks with variadic := true } rest
  | c :: rest =>
    if c == '&' then ParamMarks.read { marks with byRef := true } rest
    else if Text.isBlank c then ParamMarks.read marks rest
    else (marks, c :: rest)

/-- Reads one parameter: an optional type, its marks, its name after `$`, an optional default. -/
def ParamInfo.parse? (cs : List Char) : Option ParamInfo := do
  let (declared, default) := match Text.splitFirst? '=' cs with
    | some (declared, default) => (Text.trim declared, some (Text.trim default))
    | none => (Text.trim cs, none)
  let (before, name) ← Text.splitFirst? '$' declared
  let (marks, rest) := ParamMarks.read {} before.reverse
  let param : ParamInfo := { name := String.ofList (Text.trim name) }
  let param := ((param.withType? (Ty.parseChars? rest.reverse)).withByRef marks.byRef).withVariadic
    marks.variadic
  match default with
  | some text =>
    if Name.sameWord (String.ofList text) "null" then return param.withNullDefault
    else return param.withDefault
  | none => return param

namespace Signature

/-- Pieces between the commas outside quotes and brackets; `depth` brackets are open, `quote` is the
open quote and `piece` the current piece in reverse. -/
def splitParamsFrom (depth : Int) (quote : Option Char) (piece : List Char) :
    List Char → List (List Char)
  | [] => [piece.reverse]
  | c :: cs =>
    match quote with
    | some q => splitParamsFrom depth (if c == q then none else some q) (c :: piece) cs
    | none =>
      if c == '"' || c == '\'' then splitParamsFrom depth (some c) (c :: piece) cs
      else if c == '(' || c == '[' || c == '<' then splitParamsFrom (depth + 1) none (c :: piece) cs
      else if c == ')' || c == ']' || c == '>' then splitParamsFrom (depth - 1) none (c :: piece) cs
      else if c == ',' && depth == 0 then piece.reverse :: splitParamsFrom depth none [] cs
      else splitParamsFrom depth none (c :: piece) cs

/-- The parameters of a list, without the blank ones. -/
def splitParams (cs : List Char) : List (List Char) :=
  (splitParamsFrom 0 none [] cs).filter fun piece => !(Text.trim piece).isEmpty

/-- The head of a signature without the modifier `static`, and whether it was there.  A lone
`static` in front of the name is a type. -/
def splitStatic (head : List Char) : Bool × List Char :=
  match Text.stripPrefix? ['s', 't', 'a', 't', 'i', 'c', ' '] head with
  | some rest => if (Text.trim rest).contains ' ' then (true, Text.trim rest) else (false, head)
  | none => (false, head)

def parseChars? (cs : List Char) : Option Signature := do
  let (head, rest) ← Text.splitFirst? '(' cs
  let (params, _) ← Text.splitLast? ')' rest
  let (isStatic, head) := splitStatic (Text.trim head)
  let (returnType, name) := match Text.splitLast? ' ' head with
    | some (type, name) => (Ty.parseChars? type, Text.trim name)
    | none => (none, head)
  if name.isEmpty then none
  else
    let params ← (splitParams params).mapM ParamInfo.parse?
    return ({ name := String.ofList name, returnType, isStatic : Signature }).withParams params

def parse? (text : String) : Option Signature :=
  parseChars? text.toList

end Signature

end FlowTyping

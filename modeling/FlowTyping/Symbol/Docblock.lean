import FlowTyping.Ty.Declared

/-!
# Doc comments

Types that are declared in comments: `@var T $x`, `@param T $x`, `@return T`.  A comment is read
line by line; a line carries a tag when it starts with it, after the decoration of the comment.

* `Docblock.paramType?`, `Docblock.returnType?`: the types of a function.
-/

namespace FlowTyping.Docblock

def dropOpenings : List Char → List Char
  | '/' :: '*' :: '*' :: rest => dropOpenings rest
  | cs => cs

/-- Drops the closings of a comment in front of a line that is read backwards. -/
def dropClosings : List Char → List Char
  | '/' :: '*' :: rest => dropClosings rest
  | cs => cs

/-- A line without the decoration of the comment. -/
def undecorated (line : List Char) : List Char :=
  let line := (dropOpenings (Text.trim line)).dropWhile (· == '*')
  Text.trim (dropClosings line.reverse).reverse

/-- What follows `tag` in a line that starts with it. -/
def body? (tag line : List Char) : Option (List Char) :=
  match Text.stripPrefix? tag (undecorated line) with
  | some [] => some []
  | some (c :: rest) => if Text.isBlank c then some (Text.trim (c :: rest)) else none
  | none => none

/-- What follows `tag` in each line that starts with it. -/
def bodies (tag doc : String) : List (List Char) :=
  (Text.splitOn '\n' doc.toList).filterMap (body? tag.toList)

/-- Cuts a text after its leading type, which may have blanks inside brackets; `depth` brackets are
open. -/
def splitType (depth : Int) : List Char → List Char × List Char
  | [] => ([], [])
  | c :: cs =>
    if c == '<' || c == '(' || c == '\x7b' then
      let (type, rest) := splitType (depth + 1) cs
      (c :: type, rest)
    else if c == '>' || c == ')' || c == '\x7d' then
      let (type, rest) := splitType (depth - 1) cs
      (c :: type, rest)
    else if Text.isBlank c && depth ≤ 0 then ([], Text.trimStart (c :: cs))
    else
      let (type, rest) := splitType depth cs
      (c :: type, rest)

/-- The name of the variable that a text starts with. -/
def varName? (cs : List Char) : Option String := do
  let word ← Text.firstWord? cs
  match Text.stripPrefix? ['$'] word with
  | some name => return String.ofList name
  | none => return String.ofList (← Text.stripPrefix? ['.', '.', '.', '$'] word)

/-- The type of a `@var` line and the variable it names; none where the line names a variable
only. -/
def varOfBody? (body : List Char) : Option (Ty × Option String) :=
  let (type, rest) := splitType 0 body
  match type with
  | '$' :: _ => none
  | _ => (Ty.parseChars? type).map fun t => (t, varName? rest)

def varTag? (doc : String) : Option (Ty × Option String) :=
  (bodies "@var" doc).findSome? varOfBody?

/-- The type that the comment declares for the variable it stands at. -/
def varTypeFor? (doc name : String) : Option Ty :=
  match varTag? doc with
  | some (t, some other) => if other == name then some t else none
  | some (t, none) => some t
  | none => none

/-- The type of a `@param` line, where it is about `name`. -/
def paramOfBody? (name : String) (body : List Char) : Option Ty :=
  let (type, rest) := splitType 0 body
  if varName? rest == some name then Ty.parseChars? type else none

def paramType? (doc name : String) : Option Ty :=
  (bodies "@param" doc).findSome? (paramOfBody? name)

def returnType? (doc : String) : Option Ty :=
  (bodies "@return" doc).findSome? fun body => Ty.parseChars? (splitType 0 body).1

/-- Whether the comment marks what it stands at as deprecated. -/
def isDeprecated (doc : String) : Bool :=
  !(bodies "@deprecated" doc).isEmpty

end FlowTyping.Docblock

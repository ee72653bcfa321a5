import FlowTyping.Ty.Union

/-!
# Declared types

Types as they are written in declarations and doc comments: `?T`, `A|B`, `A&B`, brackets, arrays
written `T[]` or `array<K, V>`, and the informal keywords of doc comments.

* `Ty.ofWord`: the type that a single word declares.
* `Ty.parse?`: the type that a text declares, if any.

Every recursive call of the reader is on a shorter text, so a budget of one level per character
(`parseUpTo`) is never used up.
-/

namespace FlowTyping

namespace Ty

/-- The type declared by a word that has no brackets: an informal keyword, a built-in type or a
class. -/
def ofKeyword (word : String) : Ty :=
  if word == "$this" then ofClass "static"
  else
    match Name.key word with
    | "true" | "false" => bool
    | "list" | "non-empty-array" | "non-empty-list" => array
    | "iterable" => join array (ofClass "Traversable")
    | "never" => void
    | "resource" | "scalar" | "numeric" => mixed
    | "positive-int" | "negative-int" | "non-negative-int" => int
    | "class-string" | "non-empty-string" | "numeric-string" => string
    | _ =>
      match Primitive.ofName? word with
      | some kind => .primitive kind
      | none => ofClass word

/-- Whether `c` opens type arguments or a shape, which the analysis leaves out. -/
def opensArguments (c : Char) : Bool :=
  c == '<' || c == '\x7b'

/-- The type that a word declares; type arguments are left out. -/
def ofWordChars (cs : List Char) : Ty :=
  let word := Text.trim cs
  if Text.endsWith ['[', ']'] word then array
  else
    let base := Text.trim (word.takeWhile fun c => !opensArguments c)
    if Text.endsWith ['[', ']'] base then array else ofKeyword (String.ofList base)

def ofWord (word : String) : Ty :=
  ofWordChars word.toList

/-- Pieces between the occurrences of `sep` outside brackets; `depth` brackets are open and
`piece` is the current piece in reverse. -/
def splitTopFrom (sep : Char) (depth : Int) (piece : List Char) : List Char → List (List Char)
  | [] => [piece.reverse]
  | c :: cs =>
    if c == '<' || c == '(' || c == '\x7b' then splitTopFrom sep (depth + 1) (c :: piece) cs
    else if c == '>' || c == ')' || c == '\x7d' then splitTopFrom sep (depth - 1) (c :: piece) cs
    else if c == sep && depth == 0 then piece.reverse :: splitTopFrom sep depth [] cs
    else splitTopFrom sep depth (c :: piece) cs

/-- Pieces between the occurrences of `sep` outside brackets. -/
def splitTop (sep : Char) (cs : List Char) : List (List Char) :=
  splitTopFrom sep 0 [] cs

/-- What stands between an opening bracket in front and a closing one at the end. -/
def bracketed? (cs : List Char) : Option (List Char) :=
  match cs with
  | '(' :: rest => Text.stripSuffix? [')'] rest
  | _ => none

def parseUpTo : Nat → List Char → Option Ty
  | 0, _ => none
  | n + 1, cs =>
    match Text.trim cs with
    | [] => none
    | '?' :: rest => (parseUpTo n rest).map fun t => join t null
    | text =>
      match splitTop '|' text with
      | first :: second :: more => ((first :: second :: more).mapM (parseUpTo n)).map unionOf
      | _ =>
        match bracketed? text with
        | some inner => parseUpTo n inner
        | none =>
          match splitTop '&' text with
          | first :: second :: more => ((first :: second :: more).mapM (parseUpTo n)).map .inter
          | _ => some (ofWordChars text)

/-- The type that a text declares; none when the text, or an operand in it, is blank. -/
def parseChars? (cs : List Char) : Option Ty :=
  parseUpTo (cs.length + 1) cs

def parse? (text : String) : Option Ty :=
  parseChars? text.toList

end Ty

/-- A declared type given as a tree of words. -/
inductive Hint where
  | named (name : String)
  | nullable (inner : Hint)
  | union (members : List Hint)
  | inter (members : List Hint)
  deriving Repr, Inhabited

mutual
def Ty.ofHint : Hint → Ty
  | .named name => Ty.ofWord name
  | .nullable inner => Ty.join (Ty.ofHint inner) Ty.null
  | .union members => Ty.unionOf (Ty.ofHints members)
  | .inter members => .inter (Ty.ofHints members)
def Ty.ofHints : List Hint → List Ty
  | [] => []
  | h :: hs => Ty.ofHint h :: Ty.ofHints hs
end

end FlowTyping

import FlowTyping.Ty.Basic

/-!
# Text of types

Types are shown in the notation in which they are declared: `?T`, `A|B`, `A&B`, with brackets
around a union or an intersection that is itself a member.
-/

namespace FlowTyping.Ty

mutual
def chars : Ty → List Char
  | .named name => name.toList
  | .primitive kind => kind.keyword.toList
  | .nullable inner => '?' :: inner.chars
  | .union members => Text.joinWith ['|'] (memberChars members)
  | .inter members => Text.joinWith ['&'] (memberChars members)
/-- The texts of members, bracketed where they have members of their own. -/
def memberChars : List Ty → List (List Char)
  | [] => []
  | t :: ts => (if t.isCompound then '(' :: t.chars ++ [')'] else t.chars) :: memberChars ts
end

def render (t : Ty) : String :=
  String.ofList t.chars

def renderOption : Option Ty → String
  | some t => t.render
  | none => "unknown"

end FlowTyping.Ty

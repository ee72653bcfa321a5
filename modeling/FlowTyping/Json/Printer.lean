import FlowTyping.Json.Basic

/-!
# Writing JSON

* `Json.compact`: a value on one line without blanks.
* `Json.pretty`: a value with one item or field a line, indented by two blanks a level.
-/

namespace FlowTyping.Json

def hexDigit (n : Nat) : Char :=
  if n < 10 then Char.ofNat ('0'.toNat + n) else Char.ofNat ('a'.toNat + (n - 10))

/-- A character inside a string literal.  Only quotes, backslashes and control characters are
escaped. -/
def escapeChar (c : Char) : List Char :=
  if c == '"' then ['\\', '"']
  else if c == '\\' then ['\\', '\\']
  else if c == '\n' then ['\\', 'n']
  else if c == '\r' then ['\\', 'r']
  else if c == '\t' then ['\\', 't']
  else if c == '\x08' then ['\\', 'b']
  else if c == '\x0c' then ['\\', 'f']
  else if c.toNat < 0x20 then
    ['\\', 'u', '0', '0', hexDigit (c.toNat / 16), hexDigit (c.toNat % 16)]
  else [c]

def quote (s : String) : String :=
  String.ofList ('"' :: s.toList.flatMap escapeChar ++ ['"'])

def decimalText (d : Decimal) : String :=
  let sign := if d.negative then "-" else ""
  let digits := Nat.toDigits 10 d.digits
  if d.exponent ≥ 0 then
    if d.exponent ≤ 15 then
      sign ++ String.ofList (digits ++ List.replicate d.exponent.toNat '0') ++ ".0"
    else sign ++ String.ofList digits ++ "e" ++ toString d.exponent
  else if d.exponent ≥ -20 then
    let places := d.exponent.natAbs
    let digits := List.replicate (places + 1 - digits.length) '0' ++ digits
    let split := digits.length - places
    sign ++ String.ofList (digits.take split) ++ "." ++ String.ofList (digits.drop split)
  else sign ++ String.ofList digits ++ "e" ++ toString d.exponent

mutual
def compact : Json → String
  | .null | .unreadable => "null"
  | .bool true => "true"
  | .bool false => "false"
  | .int n => toString n
  | .decimal d => decimalText d
  | .str s => quote s
  | .arr items => "[" ++ String.intercalate "," (compactItems items) ++ "]"
  | .obj fields => "\x7b" ++ String.intercalate "," (compactFields fields) ++ "\x7d"
def compactItems : List Json → List String
  | [] => []
  | item :: items => item.compact :: compactItems items
def compactFields : List (String × Json) → List String
  | [] => []
  | (name, value) :: fields => (quote name ++ ":" ++ value.compact) :: compactFields fields
end

def lineAt (level : Nat) : String :=
  "\n" ++ String.ofList (List.replicate (2 * level) ' ')

mutual
/-- A value over several lines, its first line at the given level. -/
def prettyAt (level : Nat) : Json → String
  | .arr [] => "[]"
  | .obj [] => "\x7b\x7d"
  | .arr items =>
    "[" ++ String.intercalate "," (prettyItems (level + 1) items) ++ lineAt level ++ "]"
  | .obj fields =>
    "\x7b" ++ String.intercalate "," (prettyFields (level + 1) fields) ++ lineAt level ++ "\x7d"
  | other => other.compact
def prettyItems (level : Nat) : List Json → List String
  | [] => []
  | item :: items => (lineAt level ++ prettyAt level item) :: prettyItems level items
def prettyFields (level : Nat) : List (String × Json) → List String
  | [] => []
  | (name, value) :: fields =>
    (lineAt level ++ quote name ++ ": " ++ prettyAt level value) :: prettyFields level fields
end

def pretty (value : Json) : String :=
  prettyAt 0 value

end FlowTyping.Json

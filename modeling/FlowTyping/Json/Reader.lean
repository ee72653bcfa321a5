import FlowTyping.Json.Basic

/-!
# Reading JSON

A strict reader: the text is one value with blanks around it, and nothing else.  There are no
comments, no trailing commas and no numbers with a leading zero.  What fits this grammar and has no
value is kept as `Json.unreadable`, because it is a fault only where the value is asked for.

* `Json.parse?`: the value of a text, none where the text is not JSON.

The readers of values, items and fields call each other.  Each call is given a budget, and each
reading of a nested value consumes a character first, so a budget of the length of the text is
never used up.
-/

namespace FlowTyping.Json

def isSpace (c : Char) : Bool :=
  c == ' ' || c == '\n' || c == '\t' || c == '\r'

def skipSpace (cs : List Char) : List Char :=
  cs.dropWhile isSpace

def digitValue (c : Char) : Nat :=
  c.toNat - '0'.toNat

/-- The number that a row of decimal digits denotes. -/
def ofDigits (cs : List Char) : Nat :=
  cs.foldl (fun n c => 10 * n + digitValue c) 0

def hexValue? (c : Char) : Option Nat :=
  if c.isDigit then some (digitValue c)
  else if 'a' ≤ c && c ≤ 'f' then some (c.toNat - 'a'.toNat + 10)
  else if 'A' ≤ c && c ≤ 'F' then some (c.toNat - 'A'.toNat + 10)
  else none

def hex4? (a b c d : Char) : Option Nat := do
  return 4096 * (← hexValue? a) + 256 * (← hexValue? b) + 16 * (← hexValue? c) + (← hexValue? d)

/-- Whether a 16-bit unit is the first half of a surrogate pair. -/
def isHighHalf (n : Nat) : Bool :=
  0xD800 ≤ n && n < 0xDC00

/-- Whether a 16-bit unit is the second half of a surrogate pair. -/
def isLowHalf (n : Nat) : Bool :=
  0xDC00 ≤ n && n < 0xE000

def ofHalves (high low : Nat) : Nat :=
  0x10000 + (high - 0xD800) * 0x400 + (low - 0xDC00)

def shortEscape? : Char → Option Char
  | '"' => some '"'
  | '\\' => some '\\'
  | '/' => some '/'
  | 'b' => some '\x08'
  | 'f' => some '\x0c'
  | 'n' => some '\n'
  | 'r' => some '\r'
  | 't' => some '\t'
  | _ => none

/-- Reads the rest of a string literal as code points and halves of surrogate pairs; `acc` holds
those read so far in reverse. -/
def readUnits (acc : List Nat) : List Char → Option (List Nat × List Char)
  | [] => none
  | '"' :: rest => some (acc.reverse, rest)
  | '\\' :: 'u' :: a :: b :: c :: d :: rest =>
    match hex4? a b c d with
    | some unit => readUnits (unit :: acc) rest
    | none => none
  | '\\' :: c :: rest =>
    match shortEscape? c with
    | some e => readUnits (e.toNat :: acc) rest
    | none => none
  | c :: rest => if c.toNat < 0x20 then none else readUnits (c.toNat :: acc) rest

/-- The characters that units denote; none where half of a surrogate pair stands alone. -/
def ofUnits? : List Nat → Option (List Char)
  | [] => some []
  | [unit] => if isHighHalf unit || isLowHalf unit then none else some [Char.ofNat unit]
  | unit :: next :: rest =>
    if isHighHalf unit then
      if isLowHalf next then (ofUnits? rest).map (Char.ofNat (ofHalves unit next) :: ·) else none
    else if isLowHalf unit then none
    else (ofUnits? (next :: rest)).map (Char.ofNat unit :: ·)

/-- Reads the rest of a string literal; the text is none where half of a surrogate pair stands
alone. -/
def readString? (cs : List Char) : Option (Option String × List Char) :=
  (readUnits [] cs).map fun (units, rest) => ((ofUnits? units).map String.ofList, rest)

/-- The digits in front and the rest; none where there is no digit. -/
def readDigits? (cs : List Char) : Option (List Char × List Char) :=
  match cs.takeWhile Char.isDigit with
  | [] => none
  | digits => some (digits, cs.dropWhile Char.isDigit)

/-- Reads the digits before the point: a single zero, or digits that do not start with one. -/
def readWhole? (cs : List Char) : Option (List Char × List Char) :=
  match readDigits? cs with
  | some ('0' :: _ :: _, _) => none
  | other => other

/-- Reads the digits after the point; no point means no digits. -/
def readFraction? : List Char → Option (List Char × List Char)
  | '.' :: rest => readDigits? rest
  | cs => some ([], cs)

def readExponent? : List Char → Option (Option Int × List Char)
  | c :: rest =>
    if c == 'e' || c == 'E' then
      match rest with
      | '+' :: rest => (readDigits? rest).map fun (ds, rest) => (some (ofDigits ds : Int), rest)
      | '-' :: rest => (readDigits? rest).map fun (ds, rest) => (some (-(ofDigits ds : Int)), rest)
      | rest => (readDigits? rest).map fun (ds, rest) => (some (ofDigits ds : Int), rest)
    else some (none, c :: rest)
  | [] => some (none, [])

/-- Reads digits behind those of `number` as long as the number fits in 64 bits, and keeps the
others. -/
def takeDigits (number : Nat) : List Char → Nat × List Char
  | [] => (number, [])
  | c :: rest =>
    let next := 10 * number + digitValue c
    if next < 18446744073709551616 then takeDigits next rest else (number, c :: rest)

/-- The number with the given parts.  A whole number beyond 64 bits is read in double precision, and
so is a negative zero.  Digits that do not fit in 64 bits are dropped: those before the point still
count for the exponent. -/
def ofNumberParts (negative : Bool) (whole fraction : List Char) (exponent : Option Int) : Json :=
  let (number, dropped) := takeDigits 0 whole
  let isWhole := fraction.isEmpty && exponent.isNone && dropped.isEmpty
  if isWhole && !negative then .int number
  else if isWhole && 0 < number && number ≤ 9223372036854775808 then .int (-number)
  else
    let (digits, rest) := takeDigits number fraction
    let exponent := exponent.getD 0 + dropped.length + rest.length - fraction.length
    match Double.ofScientific? digits exponent with
    | some x => .decimal (x.shortest.withSign negative)
    | none => .unreadable

def readNumber? (cs : List Char) : Option (Json × List Char) := do
  let (negative, cs) := match cs with
    | '-' :: rest => (true, rest)
    | cs => (false, cs)
  let (whole, cs) ← readWhole? cs
  let (fraction, cs) ← readFraction? cs
  let (exponent, cs) ← readExponent? cs
  return (ofNumberParts negative whole fraction exponent, cs)

/-- How many arrays and objects may stand inside each other. -/
def maxNesting : Nat :=
  127

/-- An array or object that stands inside `depth` others. -/
def nested (depth : Nat) (value : Json) : Json :=
  if depth < maxNesting then value else .unreadable

def namedFields? : List (Option String × Json) → Option (List (String × Json))
  | [] => some []
  | (some name, value) :: rest => (namedFields? rest).map ((name, value) :: ·)
  | (none, _) :: _ => none

def ofFields (fields : List (Option String × Json)) : Json :=
  match namedFields? fields with
  | some fields => .obj fields
  | none => .unreadable

mutual
/-- Reads a value that stands inside `depth` arrays and objects. -/
def readValue (depth : Nat) : Nat → List Char → Option (Json × List Char)
  | 0, _ => none
  | n + 1, cs =>
    match skipSpace cs with
    | 'n' :: 'u' :: 'l' :: 'l' :: rest => some (.null, rest)
    | 't' :: 'r' :: 'u' :: 'e' :: rest => some (.bool true, rest)
    | 'f' :: 'a' :: 'l' :: 's' :: 'e' :: rest => some (.bool false, rest)
    | '"' :: rest =>
      (readString? rest).map fun (text, rest) => ((text.map Json.str).getD .unreadable, rest)
    | '[' :: rest =>
      match skipSpace rest with
      | ']' :: rest => some (nested depth (.arr []), rest)
      | rest =>
        (readItems (depth + 1) n rest).map fun (items, rest) => (nested depth (.arr items), rest)
    | '\x7b' :: rest =>
      match skipSpace rest with
      | '\x7d' :: rest => some (nested depth (.obj []), rest)
      | rest =>
        (readFields (depth + 1) n rest).map fun (fields, rest) =>
          (nested depth (ofFields fields), rest)
    | rest => readNumber? rest
/-- Reads the items of an array up to its closing bracket. -/
def readItems (depth : Nat) : Nat → List Char → Option (List Json × List Char)
  | 0, _ => none
  | n + 1, cs =>
    match readValue depth n cs with
    | none => none
    | some (item, rest) =>
      match skipSpace rest with
      | ',' :: rest => (readItems depth n rest).map fun (items, rest) => (item :: items, rest)
      | ']' :: rest => some ([item], rest)
      | _ => none
/-- Reads the fields of an object up to its closing brace. -/
def readFields (depth : Nat) : Nat → List Char → Option (List (Option String × Json) × List Char)
  | 0, _ => none
  | n + 1, cs =>
    match skipSpace cs with
    | '"' :: rest =>
      match readString? rest with
      | some (name, rest) =>
        match skipSpace rest with
        | ':' :: rest =>
          match readValue depth n rest with
          | none => none
          | some (value, rest) =>
            let field := (name, value)
            match skipSpace rest with
            | ',' :: rest =>
              (readFields depth n rest).map fun (fields, rest) => (field :: fields, rest)
            | '\x7d' :: rest => some ([field], rest)
            | _ => none
        | _ => none
      | none => none
    | _ => none
end

def parse? (text : String) : Option Json :=
  let cs := text.toList
  match readValue 0 (cs.length + 1) cs with
  | some (value, rest) => if (skipSpace rest).isEmpty then some value else none
  | none => none

end FlowTyping.Json

/-!
# Blanks

The white space that surrounds declared types, comment lines and option values.  The class is the
Unicode property `White_Space`, not only the ASCII blanks, so that a type pasted with a no-break
space around it is read as if it stood alone.

* `trimStart`, `trimEnd`, `trim`: a text without its outer blanks.
-/

namespace FlowTyping.Text

def isBlank (c : Char) : Bool :=
  let n := c.toNat
  (0x09 ≤ n && n ≤ 0x0D) || n == 0x20 || n == 0x85 || n == 0xA0 || n == 0x1680 ||
    (0x2000 ≤ n && n ≤ 0x200A) || n == 0x2028 || n == 0x2029 || n == 0x202F ||
    n == 0x205F || n == 0x3000

def trimStart (cs : List Char) : List Char :=
  cs.dropWhile isBlank

def trimEnd (cs : List Char) : List Char :=
  (cs.reverse.dropWhile isBlank).reverse

def trim (cs : List Char) : List Char :=
  trimEnd (trimStart cs)

/-- The rest of `cs` after `pre`, when `cs` starts with it. -/
def stripPrefix? : List Char → List Char → Option (List Char)
  | [], cs => some cs
  | _ :: _, [] => none
  | p :: ps, c :: cs => if p == c then stripPrefix? ps cs else none

/-- What stands before `suf`, when `cs` ends with it. -/
def stripSuffix? (suf cs : List Char) : Option (List Char) :=
  (stripPrefix? suf.reverse cs.reverse).map List.reverse

def endsWith (suf cs : List Char) : Bool :=
  (stripSuffix? suf cs).isSome

/-- What stands before and after the first `sep`. -/
def splitFirst? (sep : Char) : List Char → Option (List Char × List Char)
  | [] => none
  | c :: cs =>
    if c == sep then some ([], cs)
    else (splitFirst? sep cs).map fun (before, after) => (c :: before, after)

def splitLast? (sep : Char) (cs : List Char) : Option (List Char × List Char) :=
  (splitFirst? sep cs.reverse).map fun (after, before) => (before.reverse, after.reverse)

/-- The first run of characters without a blank; none where there is none. -/
def firstWord? (cs : List Char) : Option (List Char) :=
  match (trimStart cs).takeWhile fun c => !isBlank c with
  | [] => none
  | word => some word

/-- Pieces of `cs` between the occurrences of `sep`; one piece more than there are occurrences. -/
def splitOn (sep : Char) : List Char → List (List Char)
  | [] => [[]]
  | c :: cs =>
    if c == sep then [] :: splitOn sep cs
    else
      match splitOn sep cs with
      | [] => [[c]]
      | piece :: pieces => (c :: piece) :: pieces

/-- The texts `pieces` with `sep` between each two. -/
def joinWith (sep : List Char) : List (List Char) → List Char
  | [] => []
  | [piece] => piece
  | piece :: pieces => piece ++ sep ++ joinWith sep pieces

end FlowTyping.Text

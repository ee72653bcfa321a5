import FlowTyping.Ast.Node

/-!
# Diagnostics

What the analysis reports: a category, a numbered message with its arguments filled in, and a place.

* `fillTemplate`: a template with its numbered gaps filled.
* `Diagnostic.render`: the one-line text of a diagnostic.
-/

namespace FlowTyping

/-- How serious a diagnostic is. -/
inductive Category where
  | error | warning | suggestion | message
  deriving DecidableEq, Repr, Inhabited

def Category.label : Category → String
  | .error => "error"
  | .warning => "warning"
  | .suggestion => "suggestion"
  | .message => "message"

/-- A numbered message; its template has the gaps `{0}`, `{1}`, … -/
structure Message where
  code : UInt32
  category : Category
  template : String

namespace Message

def undefinedVariable : Message :=
  ⟨1001, .error, "Variable $\x7b0\x7d is not defined"⟩

def unusedVariable : Message :=
  ⟨1002, .warning, "Variable $\x7b0\x7d is assigned but never used"⟩

def all : List Message :=
  [undefinedVariable, unusedVariable]

def find? (code : UInt32) : Option Message :=
  all.find? fun m => m.code == code

/-- The message with a given number; a number without a message shows its first argument. -/
def ofCode (code : UInt32) : Message :=
  (find? code).getD ⟨code, .error, "\x7b0\x7d"⟩

end Message

/-- `cs` with every occurrence of `gap` replaced, from left to right; `gap` is not empty and
`skip` characters of an occurrence are still to be passed over. -/
def replaceAll (gap text : List Char) : (skip : Nat) → List Char → List Char
  | _, [] => []
  | skip + 1, _ :: cs => replaceAll gap text skip cs
  | 0, c :: cs =>
    if gap.isPrefixOf (c :: cs) then text ++ replaceAll gap text (gap.length - 1) cs
    else c :: replaceAll gap text 0 cs

def gapNumbered (i : Nat) : List Char :=
  '\x7b' :: Nat.toDigits 10 i ++ ['\x7d']

/-- Fills the gaps numbered from `i` on, one argument after the other.  A gap that an argument
brings in is filled by a later argument. -/
def fillGaps : Nat → List (List Char) → List Char → List Char
  | _, [], text => text
  | i, arg :: args, text => fillGaps (i + 1) args (replaceAll (gapNumbered i) arg 0 text)

def fillTemplate (template : String) (args : List String) : String :=
  String.ofList (fillGaps 0 (args.map String.toList) template.toList)

/-- A reported fact. -/
structure Diagnostic where
  category : Category
  code : UInt32
  file : String
  line : Line
  text : String
  deriving DecidableEq, Repr, Inhabited

namespace Diagnostic

/-- The diagnostic with a numbered message and its arguments. -/
def ofCode (file : String) (line : Line) (code : UInt32) (args : List String) : Diagnostic :=
  let message := Message.ofCode code
  ⟨message.category, code, file, line, fillTemplate message.template args⟩

def render (d : Diagnostic) : String :=
  d.file ++ ":" ++ toString d.line.toNat ++ " " ++ d.category.label ++ " PHZ" ++
    toString d.code.toNat ++ ": " ++ d.text

end Diagnostic

end FlowTyping

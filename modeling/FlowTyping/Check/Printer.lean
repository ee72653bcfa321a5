import FlowTyping.Check.Report

/-!
# Reports as text

One line for each diagnostic and each typed expression, and a summary.  On a terminal the parts of a
line have colours.

* `Style`: plain or coloured text.
* `Style.diagnostics`, `Style.types`, `Style.summary`: the texts.
-/

namespace FlowTyping

/-- What a colour marks. -/
inductive Paint where
  | location
  | error
  | warning
  | note
  | code
  | type
  | failure
  | success
  deriving DecidableEq, Repr

namespace Paint

def number : Paint → String
  | location => "36"
  | error => "1;31"
  | warning => "1;33"
  | note => "34"
  | code => "90"
  | type => "32"
  | failure => "31"
  | success => "32"

def reset : String :=
  "\x1b[0m"

def start (paint : Paint) : String :=
  "\x1b[" ++ paint.number ++ "m"

/-- A text in a colour.  Where the text itself ends all colours, the colour starts again. -/
def on (paint : Paint) (text : String) : String :=
  let resumed := replaceAll reset.toList (reset ++ paint.start).toList 0 text.toList
  paint.start ++ String.ofList resumed ++ reset

end Paint

def Category.paint : Category → Paint
  | .error => .error
  | .warning => .warning
  | .suggestion | .message => .note

inductive Style where
  | plain
  | colored
  deriving DecidableEq, Repr

namespace Style

def ofBool (colored : Bool) : Style :=
  if colored then .colored else .plain

/-- A text with a colour, where the style has colours. -/
def paint (style : Style) (paint : Paint) (text : String) : String :=
  match style with
  | .plain => text
  | .colored => paint.on text

def diagnostic (style : Style) (d : Diagnostic) : String :=
  style.paint .location (d.file ++ ":" ++ toString d.line.toNat) ++ " " ++
    style.paint d.category.paint d.category.label ++ " " ++
    style.paint .code ("[PHZ" ++ toString d.code.toNat ++ "]") ++ ": " ++ d.text

def diagnostics (style : Style) (ds : List Diagnostic) : String :=
  "\n".intercalate (ds.map style.diagnostic)

def padded (width : Nat) (text : String) : String :=
  text ++ String.ofList (List.replicate (width - text.length) ' ')

/-- The lines of the types of a file, with the kinds of expressions in a column. -/
def types (style : Style) (r : FileReport) : String :=
  let width := r.types.foldl (fun width t => max width t.kind.length) 0
  "\n".intercalate (r.types.map fun t =>
    r.file ++ ":" ++ toString t.line.toNat ++ "  " ++ padded width t.kind ++ "  " ++
      style.paint .type t.text)

def counted (n : Nat) (thing : String) : String :=
  toString n ++ " " ++ thing ++ if n == 1 then "" else "s"

def summary (style : Style) (files errors warnings : Nat) : String :=
  style.paint (if errors > 0 then .failure else .success)
    ("Checked " ++ counted files "file" ++ ": " ++ counted errors "error" ++ ", " ++
      counted warnings "warning" ++ ".")

end Style

end FlowTyping

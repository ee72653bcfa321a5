import FlowTyping.Ast.Codec
import FlowTyping.Check.Report

/-!
# Reports as JSON
-/

namespace FlowTyping

open Json

def Category.tag : Category → String
  | .error => "Error"
  | .warning => "Warning"
  | .suggestion => "Suggestion"
  | .message => "Message"

def Category.ofTag? (tag : String) : Option Category :=
  [Category.error, .warning, .suggestion, .message].find? fun c => c.tag == tag

def Diagnostic.toJson (d : Diagnostic) : Json :=
  .obj [("category", .str d.category.tag), ("code", ofUInt32 d.code), ("file", .str d.file),
    ("line", ofUInt32 d.line), ("message_text", .str d.text)]

def InferredType.toJson (t : InferredType) : Json :=
  .obj [("line", ofUInt32 t.line), ("node", ofUInt32 t.node), ("kind", .str t.kind),
    ("ty", .str t.text)]

def FileReport.toJson (r : FileReport) : Json :=
  .obj [("file", .str r.file), ("diagnostics", ofList Diagnostic.toJson r.diagnostics),
    ("types", ofList InferredType.toJson r.types)]

end FlowTyping

import FlowTyping.Analysis.State

/-!
# Evaluators

The rules for expressions and statements refer to each other.  Each rule is written against an
evaluator, the collection of those it may refer to; `FlowTyping.Analysis.Engine` ties the rules
together.

* `Evaluator.inferAll`, `Evaluator.checkAll`: expressions and statements in order.
-/

namespace FlowTyping

/-- How control leaves a statement. -/
inductive Flow where
  | normal
  | jump
  | exit
  deriving DecidableEq, Repr, Inhabited

def Flow.fallsThrough : Flow → Bool
  | .normal => true
  | _ => false

/-- The steps that rules refer to. -/
structure Evaluator where
  infer : NodeId → Analysis (Option Ty)
  check : NodeId → Analysis Flow
  assign : NodeId → Option Ty → Line → Analysis Unit
  /-- Prepares the container of a write to one of its elements. -/
  writeInto : NodeId → Line → Analysis Unit
  compact : NodeId → Analysis Unit

namespace Evaluator

variable (ev : Evaluator)

def visit (id : NodeId) : Analysis Unit := do
  let _ ← ev.infer id

def visit? : Option NodeId → Analysis Unit
  | some id => ev.visit id
  | none => pure ()

def visitAll : List NodeId → Analysis Unit
  | [] => pure ()
  | id :: ids => do
    ev.visit id
    visitAll ids

/-- Checks statements in order.  Statements after one that does not fall through are checked too;
the flow is that of the first such statement. -/
def checkAll : List NodeId → Analysis Flow
  | [] => pure .normal
  | id :: ids => do
    let flow ← ev.check id
    let rest ← checkAll ids
    return if flow.fallsThrough then rest else flow

end Evaluator

end FlowTyping

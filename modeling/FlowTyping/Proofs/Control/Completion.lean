import Mathlib.Tactic.Lemma
import FlowTyping.Analysis.Evaluator

/-!
# How statements may complete

The ways in which control may leave a statement, without regard to values: a condition may hold or
fail, a loop may run any number of times, a switch may be entered at any case, and any part of a body
may throw.  `break` and `continue` complete the loop or switch around them, which is the innermost
one of the same function; a function that is declared does not run where it is declared.
-/

namespace FlowTyping

/-- The expression ends the program or throws. -/
def Arena.Leaves (arena : Arena) (id : NodeId) : Prop :=
  (∃ e, arena.expr? id = some (.exit e)) ∨ ∃ e, arena.expr? id = some (.throwExpr e)

/-- A statement that has no other statements run, and leaves control where it is. -/
def Stmt.isPlain : Stmt → Bool
  | .echoStmt _ | .globalStmt _ | .staticStmt _ | .unsetStmt _ | .declareStmt _ | .function _
  | .classDecl _ | .method _ | .property _ | .classConst .. | .enumCase .. | .traitUse _ => true
  | _ => false

mutual

/-- A node in the place of a statement may complete in this way. -/
inductive Completes (arena : Arena) : NodeId → Flow → Prop
  /-- An expression, or no node at all. -/
  | value {id : NodeId} (h : arena.stmt? id = none) : Completes arena id .normal
  | statement {id : NodeId} {s : Stmt} {f : Flow} (h : arena.stmt? id = some s)
      (hrun : Runs arena s f) : Completes arena id f
  /-- Something in it throws. -/
  | throws {id : NodeId} : Completes arena id .exit

/-- Statements in order may complete in this way. -/
inductive CompletesAll (arena : Arena) : List NodeId → Flow → Prop
  | nil : CompletesAll arena [] .normal
  | next {id : NodeId} {ids : List NodeId} {f : Flow} (h : Completes arena id .normal)
      (hrest : CompletesAll arena ids f) : CompletesAll arena (id :: ids) f
  | stop {id : NodeId} {ids : List NodeId} {f : Flow} (h : Completes arena id f)
      (hf : f ≠ .normal) : CompletesAll arena (id :: ids) f

/-- A statement may complete in this way. -/
inductive Runs (arena : Arena) : Stmt → Flow → Prop
  | sourceFile {name : String} {stmts : List NodeId} {f : Flow} (h : CompletesAll arena stmts f) :
      Runs arena (.sourceFile name stmts) f
  | block {stmts : List NodeId} {f : Flow} (h : CompletesAll arena stmts f) :
      Runs arena (.block stmts) f
  | plain {s : Stmt} (h : s.isPlain = true) : Runs arena s .normal
  | expression {e : NodeId} {doc : Option String} (h : ¬ arena.Leaves e) :
      Runs arena (.exprStmt e doc) .normal
  | leave {e : NodeId} {doc : Option String} (h : arena.Leaves e) :
      Runs arena (.exprStmt e doc) .exit
  | returns {e : Option NodeId} : Runs arena (.returnStmt e) .exit
  | breaks : Runs arena .breakStmt .jump
  | continues : Runs arena .continueStmt .jump
  | thenBranch {c : NodeId} {body : List NodeId} {elseIfs : List ElseIf}
      {elseBranch : Option (List NodeId)} {f : Flow} (h : CompletesAll arena body f) :
      Runs arena (.ifStmt c body elseIfs elseBranch) f
  | elseIf {c : NodeId} {body : List NodeId} {elseIfs : List ElseIf}
      {elseBranch : Option (List NodeId)} {branch : ElseIf} {f : Flow} (hb : branch ∈ elseIfs)
      (h : CompletesAll arena branch.body f) : Runs arena (.ifStmt c body elseIfs elseBranch) f
  | elseBranch {c : NodeId} {body other : List NodeId} {elseIfs : List ElseIf} {f : Flow}
      (h : CompletesAll arena other f) : Runs arena (.ifStmt c body elseIfs (some other)) f
  | noBranch {c : NodeId} {body : List NodeId} {elseIfs : List ElseIf} :
      Runs arena (.ifStmt c body elseIfs none) .normal
  | whileLoop {c : NodeId} {body : List NodeId} {f : Flow} (h : Loops arena body f) :
      Runs arena (.whileStmt c body) f
  | forLoop {init c step body : List NodeId} {f : Flow} (h : Loops arena body f) :
      Runs arena (.forStmt init c step body) f
  | foreachLoop {subject value : NodeId} {key : Option NodeId} {byRef : Bool} {body : List NodeId}
      {f : Flow} (h : Loops arena body f) :
      Runs arena (.foreachStmt subject key value byRef body) f
  /-- The body runs once, and then any number of times. -/
  | doWhile {c : NodeId} {body : List NodeId} {g f : Flow} (h : CompletesAll arena body g)
      (hg : g ≠ .exit) (hrest : Loops arena body f) : Runs arena (.doWhileStmt body c) f
  | doExit {c : NodeId} {body : List NodeId} (h : CompletesAll arena body .exit) :
      Runs arena (.doWhileStmt body c) .exit
  /-- A switch is entered at a case. -/
  | switchAt {subject : NodeId} {before after : List SwitchCase} {case : SwitchCase} {f : Flow}
      (h : RunsCases arena (case :: after) f) (hf : f ≠ .jump) :
      Runs arena (.switchStmt subject (before ++ case :: after)) f
  | switchBreak {subject : NodeId} {before after : List SwitchCase} {case : SwitchCase}
      (h : RunsCases arena (case :: after) .jump) :
      Runs arena (.switchStmt subject (before ++ case :: after)) .normal
  /-- A switch without a default case may be passed by. -/
  | switchSkip {subject : NodeId} {cases : List SwitchCase}
      (h : ∀ case ∈ cases, case.test.isNone = false) : Runs arena (.switchStmt subject cases) .normal
  | tries {body : List NodeId} {catches : List CatchClause} {f : Flow}
      (h : Tries arena body catches f) : Runs arena (.tryStmt body catches none) f
  | triesFinally {body last : List NodeId} {catches : List CatchClause} {f : Flow}
      (h : Tries arena body catches f) (hlast : CompletesAll arena last .normal) :
      Runs arena (.tryStmt body catches (some last)) f
  /-- A `finally` block that does not fall through decides. -/
  | finallyLeaves {body last : List NodeId} {catches : List CatchClause} {f g : Flow}
      (h : Tries arena body catches f) (hlast : CompletesAll arena last g) (hg : g ≠ .normal) :
      Runs arena (.tryStmt body catches (some last)) g

/-- The body of a loop runs any number of times. -/
inductive Loops (arena : Arena) : List NodeId → Flow → Prop
  | done {body : List NodeId} : Loops arena body .normal
  | again {body : List NodeId} {g f : Flow} (h : CompletesAll arena body g) (hg : g ≠ .exit)
      (hrest : Loops arena body f) : Loops arena body f
  | exit {body : List NodeId} (h : CompletesAll arena body .exit) : Loops arena body .exit

/-- The cases of a switch run from the first of these on. -/
inductive RunsCases (arena : Arena) : List SwitchCase → Flow → Prop
  | nil : RunsCases arena [] .normal
  | next {case : SwitchCase} {cases : List SwitchCase} {f : Flow}
      (h : CompletesAll arena case.body .normal) (hrest : RunsCases arena cases f) :
      RunsCases arena (case :: cases) f
  | stop {case : SwitchCase} {cases : List SwitchCase} {f : Flow}
      (h : CompletesAll arena case.body f) (hf : f ≠ .normal) : RunsCases arena (case :: cases) f

/-- A body runs, and a handler runs where some part of the body throws. -/
inductive Tries (arena : Arena) : List NodeId → List CatchClause → Flow → Prop
  | body {body : List NodeId} {catches : List CatchClause} {f : Flow}
      (h : CompletesAll arena body f) : Tries arena body catches f
  | caught {body : List NodeId} {catches : List CatchClause} {clause : CatchClause} {f : Flow}
      (hc : clause ∈ catches) (h : CompletesAll arena clause.body f) : Tries arena body catches f
  | uncaught {body : List NodeId} {catches : List CatchClause} : Tries arena body catches .exit

end

lemma Loops.ne_jump {arena : Arena} {body : List NodeId} {f : Flow} :
    Loops arena body f → f ≠ .jump
  | .done => nofun
  | .again _ _ hrest => hrest.ne_jump
  | .exit _ => nofun

end FlowTyping

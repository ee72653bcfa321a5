import FlowTyping.Ast.Builder
import FlowTyping.Check.Report
import FlowTyping.Proofs.Analysis.Engine
import FlowTyping.Proofs.Analysis.Knowledge

/-!
# Marks of reading behind branches

A read marks its variable in the scope of the path that it is on.  Behind `if`, `switch` and `try`
the paths meet, and the marks of those that fall through are joined.  The marks of a path that does
not fall through are first taken over into the scope around the statement; the join of the other
paths then replaces that scope, so these marks last only where no path falls through.
-/

namespace FlowTyping

open Analysis Evaluator List Outcome State Ty

/-- A statement whose paths meet again behind it. -/
inductive Branching where
  | ifStmt (condition : NodeId) (thenBranch : List NodeId) (elseIfs : List ElseIf)
      (elseBranch : Option (List NodeId))
  | switchStmt (subject : NodeId) (cases : List SwitchCase)
  | tryStmt (body : List NodeId) (catches : List CatchClause)
      (finallyBody : Option (List NodeId))

namespace Branching

/-- The statement itself. -/
def stmt : Branching → Stmt
  | ifStmt condition thenBranch elseIfs elseBranch =>
    .ifStmt condition thenBranch elseIfs elseBranch
  | switchStmt subject cases => .switchStmt subject cases
  | tryStmt body catches finallyBody => .tryStmt body catches finallyBody

/-- The scopes of the branches that fall through, and the other branches. -/
def divide (outcomes : List Outcome) : List Scope × List Outcome :=
  ((outcomes.filter isLive).map scope, outcomes.filter fun o => !o.isLive)

/-- The scopes at the ends of the paths that come out behind the branches, and the outcomes of the
paths that do not. -/
def paths (ev : Evaluator) (id : NodeId) : Branching → Analysis (List Scope × List Outcome)
  | ifStmt condition thenBranch elseIfs elseBranch =>
    divide <$> ev.ifOutcomes condition thenBranch elseIfs elseBranch
  | switchStmt subject cases => ev.switchPaths subject cases
  | tryStmt body catches _ => divide <$> ev.tryOutcomes id body catches

/-- What is checked in the joined scope: the block that ends a `try`. -/
def behind (ev : Evaluator) : Branching → Flow → Analysis Flow
  | tryStmt _ _ (some stmts), flow => do
    let finallyFlow ← ev.checkAll stmts
    return if finallyFlow.fallsThrough then flow else finallyFlow
  | _, flow => pure flow

end Branching

/-- A statement with branches runs its paths, joins those that come out, and goes on behind. -/
lemma Evaluator.checkStmt_branching (ev : Evaluator) (id : NodeId) (b : Branching) :
    ev.checkStmt id b.stmt = (do
      let (live, dead) ← b.paths ev id
      let flow ← rejoin live dead .exit
      b.behind ev flow) := by
  cases b with
  | ifStmt condition thenBranch elseIfs elseBranch =>
    show ev.checkIf condition thenBranch elseIfs elseBranch = _
    rw [checkIf_eq]
    simp only [Branching.paths, Branching.behind, map_eq_pure_bind, bind_assoc, pure_bind, bind_pure]
    rfl
  | switchStmt subject cases =>
    show ev.checkSwitch subject cases = _
    rw [checkSwitch_eq]
    simp only [Branching.paths, Branching.behind, bind_pure]
  | tryStmt body catches finallyBody =>
    show ev.checkTry id body catches finallyBody = _
    rw [checkTry_eq]
    cases finallyBody <;>
      simp only [Branching.paths, Branching.behind, map_eq_pure_bind, bind_assoc, pure_bind] <;> rfl

variable {P : Ty → Prop} {cx : Context}

lemma Branching.subperm_divide (outcomes : List Outcome) :
    Subperm ((divide outcomes).1 ++ (divide outcomes).2.map scope)
      (outcomes.map scope) := by
  rw [divide, ← map_append]
  exact ((filter_append_perm isLive outcomes).map scope).subperm

lemma Branching.gives_paths (hP : Closed P) {ev : Evaluator} (hev : ev.Keeps P cx)
    (id : NodeId) (b : Branching) :
    Gives P cx [] (b.paths ev id) (fun r => r.1 ++ r.2.map scope) fun _ => True := by
  have hdivide : ∀ outcomes : List Outcome, Gives P cx (outcomes.map scope)
      (pure (divide outcomes)) (fun r => r.1 ++ r.2.map scope) fun _ => True :=
    fun outcomes => .pure trivial (subperm_divide outcomes)
  have hG : (giving P cx).Holding P cx := giving_holding hP.toStable
  have hruns := keeps_checkAll hev
  cases b with
  | ifStmt condition thenBranch elseIfs elseBranch =>
    exact Gives.bind (hG.ifOutcomes (hev.infer _) (hruns _) (fun _ _ => ⟨hev.infer _, hruns _⟩)
      (hruns _)) fun outcomes _ => hdivide outcomes
  | switchStmt subject cases =>
    exact hG.switchPaths giving_encloses (hev.infer _)
      (hG.checkCases none fun _ _ => ⟨fun _ _ => hev.infer _, hruns _⟩)
  | tryStmt body catches _ =>
    exact Gives.bind (hG.tryOutcomes id (fun name _ => hP.meansIn name) (hruns _)
      fun _ _ => hruns _) fun outcomes _ => hdivide outcomes

/-! ## Reads -/

lemma State.Wf.enterNode {st : State} (h : st.Wf P) (id : NodeId) : (st.enterNode id).Wf P :=
  Wf.around h

lemma reads_of_infer_var (hP : Closed P) {n : Nat} {id : NodeId} {name : String}
    {st st' : State} {type : Option Ty} (hst : st.Wf P)
    (hid : cx.arena.expr? id = some (.var name)) (hdepth : st.depth < cx.options.maxDepth.toNat)
    (hbound : st.stack.current.contains name = true)
    (h : (evaluator n).infer id cx st = some (type, st')) :
    st'.stack.current.reads st'.store name = true := by
  cases n with
  | zero => cases h
  | succ n =>
    rw [show (evaluator (n + 1)).infer id cx st = _ from inferNode_run hid hdepth] at h
    obtain ⟨⟨t, st1⟩, hrun, h⟩ := Option.map_eq_some_iff.1 h
    cases h
    show Scope.reads st1.stack.current st1.store name = true
    exact reads_of_inferVar hP (hst.enterNode id) hbound hrun

lemma ScopeView.used_of_mem_reportedUnused {view : ScopeView} {v : Variable}
    (h : v ∈ view.reportedUnused) : v.used = false := by
  unfold reportedUnused at h
  split at h
  · cases h
  · have hunused := (mem_filter.1 (mem_of_mem_filter h)).2
    simp only [isUnused, Bool.and_eq_true, Bool.not_eq_true'] at hunused
    exact hunused.1.2

/-- `function f($c) { $v = 1; if ($c) { return $v; } }`, where the `if` is node 7, or the same without
the `return`. -/
def guardedRead (returns : Bool) : SourceUnit :=
  Build.result do
    let one ← Build.expr (.int 1)
    let write ← Build.assignStmt "v" one
    let condition ← Build.expr (.var "c")
    let read ← Build.expr (.var "v")
    let use ← Build.stmt (if returns then .returnStmt (some read) else .exprStmt read none)
    let branch ← Build.stmt (.simpleIf condition [use] none)
    let function ← Build.stmt
      (.function { name := "f", params := [{ name := "c" }], body := [write, branch] })
    Build.finish "unit" [function]

end FlowTyping

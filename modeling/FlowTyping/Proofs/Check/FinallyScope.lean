import FlowTyping.Ast.Builder
import FlowTyping.Check.Report
import FlowTyping.Proofs.Analysis.Engine
import FlowTyping.Proofs.Analysis.Knowledge
import FlowTyping.Proofs.Analysis.Tests

/-!
# The scope of a finally block

A `finally` block is entered from the body and from every handler of its `try`, whichever way they
end.  The scope in which it is checked is the join of those that fall through; a path that returns
or throws adds nothing to it, unless there is no other path, and then the block is checked in the
scope from before the `try`.
-/

namespace FlowTyping

open Analysis Evaluator List Scope State

variable {name : String} {cx : Context} {st st' : State}

/-! ## Reads of bound variables -/

lemma Scope.contains_view (s : Scope) (σ : Store) (name : String) :
    (s.view σ).contains name = s.contains name := by
  rw [Bool.eq_iff_iff, contains, Dict.contains_iff]
  simp [ScopeView.contains, view, Dict.keys]

lemma Visit.undefined?_eq_none {arena : Arena} {visit : Visit}
    (hname : arena.varName? visit.node = some name) (h : visit.scope.contains name = true) :
    visit.undefined? arena = none := by
  simp [Visit.undefined?, hname, h, guard]

lemma findings_of_infer_var {unit : SourceUnit} (hunit : unit.arena = cx.arena) {n : Nat}
    {id : NodeId} {type : Option Ty} (hid : cx.arena.expr? id = some (.var name))
    (h : st.stack.current.contains name = true)
    (hr : (evaluator n).infer id cx st = some (type, st')) :
    ∃ new, st'.events = new ++ st.events ∧
      ∀ e ∈ new, Check.undefinedVariable.findings unit e = [] := by
  cases n with
  | zero => cases hr
  | succ n =>
    rcases Nat.lt_or_ge st.depth cx.options.maxDepth.toNat with hdepth | hdepth
    · rw [show (evaluator (n + 1)).infer id cx st = _ from
        inferNode_run hid hdepth] at hr
      obtain ⟨⟨t, st1⟩, hrun, hr⟩ := Option.map_eq_some_iff.1 hr
      cases hr
      obtain ⟨hcurrent, hevents⟩ := Prod.mk.inj (fixes_inferVar id name hrun)
      refine ⟨[.visited (st1.visitOf id type)], ?_, ?_⟩
      · rw [singleton_append, ← show st1.events = st.events from hevents]
        rfl
      · rw [forall_mem_singleton]
        have hscope : (st1.visitOf id type).scope.contains name = true := by
          rw [visitOf, contains_view, show st1.stack.current = st.stack.current from
            hcurrent]
          exact h
        have hname : unit.arena.varName? (st1.visitOf id type).node = some name := by
          simp [visitOf, Arena.varName?, hunit, hid]
        rw [Check.findings, Visit.undefined?_eq_none hname hscope]
        rfl
    · rw [show (evaluator (n + 1)).infer id cx st = _ from
        inferNode_of_depth_le (.inr hdepth)] at hr
      cases hr
      exact ⟨[], rfl, by simp⟩

/-! ## Where the block starts -/

lemma contains_rejoinAll {outcomes : List Outcome} {flow : Flow}
    (h : rejoinAll outcomes cx st = some (flow, st')) (name : String) :
    st'.stack.current.contains name = true ↔
      (∃ o ∈ outcomes, o.isLive = true ∧ o.scope.contains name = true) ∨
        (∀ o ∈ outcomes, o.isLive = false) ∧ st.stack.current.contains name = true := by
  rw [contains_rejoin h]
  simp [and_assoc]

/-- The scope where a `finally` block starts binds a name exactly where a path that falls through
binds it, or where no path falls through and it was bound before the `try`.  What is bound there can
be read without a report. -/
theorem finally_contains_iff {budget : Nat} {unit : SourceUnit} {cx : Context}
    (hunit : unit.arena = cx.arena) {id : NodeId} {body stmts : List NodeId}
    {catches : List CatchClause} {st st' : State} {flow : Flow}
    (h : (evaluator budget).checkTry id body catches (some stmts) cx st = some (flow, st')) :
    ∃ (outcomes : List Outcome) (st₁ st₂ : State) (joined finallyFlow : Flow),
      (evaluator budget).tryOutcomes id body catches cx st = some (outcomes, st₁) ∧
      rejoinAll outcomes cx st₁ = some (joined, st₂) ∧
      (evaluator budget).checkAll stmts cx st₂ = some (finallyFlow, st') ∧
      ∀ name,
        (st₂.stack.current.contains name = true ↔
          (∃ o ∈ outcomes, o.isLive = true ∧ o.scope.contains name = true) ∨
            (∀ o ∈ outcomes, o.isLive = false) ∧ st.stack.current.contains name = true) ∧
        (st₂.stack.current.contains name = true → ∀ (n : Nat) (node : NodeId) (type : Option Ty)
          (st₃ : State), cx.arena.expr? node = some (.var name) →
          (evaluator n).infer node cx st₂ = some (type, st₃) →
          ∃ new, st₃.events = new ++ st₂.events ∧
            ∀ e ∈ new, Check.undefinedVariable.findings unit e = []) := by
  rw [checkTry_eq] at h
  obtain ⟨outcomes, st₁, houtcomes, h⟩ := bind_eq_some.1 h
  obtain ⟨joined, st₂, hjoin, h⟩ := bind_eq_some.1 h
  obtain ⟨finallyFlow, hfinally, -⟩ := result_eq_some.1 h
  refine ⟨outcomes, st₁, st₂, joined, finallyFlow, houtcomes, hjoin, hfinally, fun name => ⟨?_, ?_⟩⟩
  · have hcurrent : st₁.stack.current = st.stack.current :=
      (evaluator budget).fixes_tryOutcomes id body catches houtcomes
    rw [contains_rejoinAll hjoin name, hcurrent]
  · intro hname n node type st₃ hnode hinfer
    exact findings_of_infer_var hunit hnode hname hinfer

/-- `try { $h = 1; return $h; } finally { $h; }`, where the statement is node 8, or the same without
the `return`. -/
def handledRead (returns : Bool) : SourceUnit :=
  Build.result do
    let one ← Build.expr (.int 1)
    let write ← Build.assignStmt "h" one
    let read ← Build.expr (.var "h")
    let leave ← Build.stmt (if returns then .returnStmt (some read) else .exprStmt read none)
    let again ← Build.expr (.var "h")
    let use ← Build.stmt (.exprStmt again none)
    let statement ← Build.stmt (.tryStmt [write, leave] [] (some [use]))
    Build.finish "unit" [statement]

theorem finally_contains_iff_handledRead :
    ∃ st flow st', (evaluator 9).checkTry 8 [3, 5] [] (some [7]) ⟨(handledRead false).arena, {}, {}⟩ st =
        some (flow, st') ∧
      ∃ outcomes st₁ st₂ joined,
        (evaluator 9).tryOutcomes 8 [3, 5] [] ⟨(handledRead false).arena, {}, {}⟩ st =
          some (outcomes, st₁) ∧
        rejoinAll outcomes ⟨(handledRead false).arena, {}, {}⟩ st₁ = some (joined, st₂) ∧
        (st₂.stack.current.contains "h" = true ↔
          (∃ o ∈ outcomes, o.isLive = true ∧ o.scope.contains "h" = true) ∨
            (∀ o ∈ outcomes, o.isLive = false) ∧ st.stack.current.contains "h" = true) := by
  have hsome : ((evaluator 9).checkTry 8 [3, 5] [] (some [7]) ⟨(handledRead false).arena, {}, {}⟩
      (initial {})).isSome := by decide +kernel
  obtain ⟨⟨flow, st'⟩, hrun⟩ := Option.isSome_iff_exists.1 hsome
  have hunit : (handledRead false).arena =
    Context.arena ⟨(handledRead false).arena, {}, {}⟩ := rfl
  obtain ⟨outcomes, st₁, st₂, joined, -, houtcomes, hjoin, -, hnames⟩ :=
    finally_contains_iff hunit hrun
  exact ⟨_, flow, st', hrun, outcomes, st₁, st₂, joined, houtcomes, hjoin, (hnames "h").1⟩

/-- The body binds `$h` and returns; where the block starts the name is not bound, and its read there
is reported. -/
theorem finally_misses_returning_path :
    (∃ outcomes st₁ st₂ joined,
      (evaluator 9).tryOutcomes 8 [3, 5] [] ⟨(handledRead true).arena, {}, {}⟩ (initial {}) =
        some (outcomes, st₁) ∧
      rejoinAll outcomes ⟨(handledRead true).arena, {}, {}⟩ st₁ = some (joined, st₂) ∧
      (∃ o ∈ outcomes, o.scope.contains "h" = true) ∧ st₂.stack.current.contains "h" = false) ∧
    (((handledRead true).analyze {} {}).map fun st =>
      (st.diagnostics (handledRead true) [.undefinedVariable]).map Diagnostic.text) =
        some ["Variable $h is not defined"] := by
  refine ⟨?_, by decide +kernel⟩
  have hrun : (((evaluator 9).tryOutcomes 8 [3, 5] [] ⟨(handledRead true).arena, {}, {}⟩
      (initial {})).any fun r =>
        (rejoinAll r.1 ⟨(handledRead true).arena, {}, {}⟩ r.2).any fun r' =>
          r.1.any (fun o => o.scope.contains "h") && !r'.2.stack.current.contains "h") = true := by
    decide +kernel
  obtain ⟨⟨outcomes, st₁⟩, houtcomes, hrun⟩ := (Option.any_eq_true ..).1 hrun
  obtain ⟨⟨joined, st₂⟩, hjoin, hrun⟩ := (Option.any_eq_true ..).1 hrun
  rw [Bool.and_eq_true, any_eq_true, Bool.not_eq_true'] at hrun
  exact ⟨outcomes, st₁, st₂, joined, houtcomes, hjoin, hrun.1, hrun.2⟩

end FlowTyping

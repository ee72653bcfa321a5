import FlowTyping.Ast.Builder
import FlowTyping.Proofs.Flow.Returns
import FlowTyping.Proofs.Ty.Lowering
import FlowTyping.Ty.Printer

/-!
# Narrowing is sound

Where the variables have values of the types that are declared for them, the check of a loop-free
program comes to an end, and what it says holds of every run: each variable that is read has a value
of the type recorded at its node, and behind the program the variables have values of the types that
the scope knows.

This rests on equality of types, which decides whether the types on two branches are one.  Equality
compares the members of an intersection one by one, so it takes `(A&B)|null` for equal to
`(A&A)|null`; declared types must not hold such an intersection.
-/

namespace FlowTyping

open Analysis Option Scope State Ty

lemma fits_of_declared {w : World} {ρ : Env} {Γ : Typing}
    (hdeclared : ∀ x t, Γ x = some (some t) → (∃ text, parse? text = some t) ∧ t.DistinctParts)
    (hvalues : ρ.Agrees w Γ) : Fits w (some ρ) Γ := by
  refine ⟨fun x t ht => ?_, fun ρ' hρ' => ?_⟩
  · obtain ⟨⟨text, htext⟩, hdistinct⟩ := hdeclared x t (join_eq_some_iff.1 ht)
    exact regular_of_parse? htext hdistinct
  · cases hρ'
    exact hvalues

/-- The check of a loop-free program comes to an end; every run reads variables of the types that are
recorded, and leaves variables of the types that the scope knows. -/
theorem narrowing_sound {w : World} {cx : Context} (calls : NodeId → Bool) {program : Cmds}
    {st : State} {ρ : Env} {budget : Nat} (hin : program.In cx) (htree : program.nodes.Nodup)
    (hready : Ready cx program.nodes st)
    (hdeclared : ∀ x t, st.known x = some (some t) →
      (∃ text, parse? text = some t) ∧ t.DistinctParts)
    (hvalues : ρ.Agrees w st.known) (hbudget : program.height ≤ budget) :
    ∃ flow st', (evaluator budget).checkAll program.ids cx st = some (flow, st') ∧
      Recorded w (program.reads w calls ρ) st' ∧
      ∀ ρ', program.run w calls ρ = some ρ' → flow = .normal ∧ ρ'.Agrees w st'.known := by
  obtain ⟨flow, st', hrun⟩ := (program.succeeds hin hbudget).exists_eq_some st
  have hchecked : Checked w (some ρ) program.nodes (program.run w calls)
      (program.reads w calls) flow st st' :=
    program.checks hin htree hready (fits_of_declared hdeclared hvalues) hrun
  refine ⟨flow, st', hrun, hchecked.recorded ρ rfl, fun ρ' hρ' => ⟨?_, hchecked.fits.holds ρ' hρ'⟩⟩
  have hfalls := hchecked.falls ρ' hρ'
  cases flow with
  | normal => rfl
  | jump | exit => cases hfalls

/-! ## Programs with declared variables -/

/-- Declares a variable, by a text. -/
def State.declare (st : State) (name text : String) : State :=
  let r := st.stack.current.assign st.store name (parse? text) 1
  { st with store := r.2, stack := st.stack.setCurrent r.1 }

lemma State.Wf.declare {st : State} (hst : st.Placed) (name text : String) :
    (st.declare name text).Placed := by
  have hassign : Keeps (fun _ => True) ⟨{}, {}, {}⟩ (onScope fun s σ =>
      s.assign σ name (parse? text) 1) fun _ => True :=
    keeps_onScope fun s σ hs hσ =>
      change_assign hs hσ le_rfl name (fun _ _ => trivial) 1
  exact (hassign.step hst (onScope_run _)).1.wf

lemma State.known_declare {st : State} (hst : st.Placed) (name text : String) :
    (st.declare name text).known = st.known.set name (parse? text) := by
  rw [known, declare, Stack.current_setCurrent]
  exact known_assign hst.current name (parse? text) 1

/-- The state before anything is declared. -/
def State.bare : State :=
  { stack := { root := {} } }

lemma State.placed_bare : bare.Placed := by
  have hempty : Store.TypesIn (fun _ => True) {} := fun _ _ _ => trivial
  refine ⟨hempty, fun s hs => ?_, ?_, ?_, ?_, ⟨?_, ?_⟩, ?_⟩
  · rw [List.mem_singleton.1 hs]
    exact wf_of_empty rfl rfl
  all_goals simp [bare]

lemma State.known_bare : bare.known = fun _ => none := rfl

/-- `if ($x === null) { return; } $y = $x;` where node 5 is the last read of `$x`. -/
def guardedAssign : SourceUnit :=
  Build.result do
    let tested ← Build.expr (.var "x")
    let null ← Build.expr .nullConst
    let test ← Build.expr (.binary .identical tested null)
    let leave ← Build.stmt (.returnStmt none)
    let _ ← Build.stmt (.simpleIf test [leave] none)
    let read ← Build.expr (.var "x")
    let assign ← Build.assignStmt "y" read
    Build.finish "unit" [4, assign]

/-- The program of the unit. -/
def guardedAssignCmds : Cmds :=
  .cons (.branch 4 (.test 2 0 "x" (.compare .identical 1 false)) (.cons (.ret 3 none) .nil) .none)
    (.cons (.assign 8 7 6 "y" (.var 5 "x")) .nil)

theorem narrowing_sound_guardedAssign :
    ∃ flow st', (evaluator 9).checkAll [4, 8] ⟨guardedAssign.arena, {}, {}⟩
        (bare.declare "x" "?int") = some (flow, st') ∧
      Recorded World.discrete [(0, some (.int 3)), (5, some (.int 3))] st' ∧
      flow = .normal ∧ renderOption (st'.table.types.get? 5) = "int" := by
  have hknown : (bare.declare "x" "?int").known =
      Typing.set (fun _ => none) "x" (some (.union [.int, .null])) := by
    rw [known_declare placed_bare, known_bare]
    rfl
  have hin : guardedAssignCmds.In ⟨guardedAssign.arena, {}, {}⟩ :=
    ⟨⟨rfl, ⟨rfl, rfl, rfl, "null", rfl, by decide⟩, ⟨rfl, trivial⟩, trivial⟩,
      ⟨rfl, rfl, rfl, by decide, rfl⟩, trivial⟩
  have hready : Ready ⟨guardedAssign.arena, {}, {}⟩ guardedAssignCmds.nodes
      (bare.declare "x" "?int") :=
    ⟨placed_bare.declare "x" "?int", by decide, fun _ _ => ⟨rfl, rfl⟩⟩
  have hdeclared : ∀ y t, (bare.declare "x" "?int").known y = some (some t) →
      (∃ text, parse? text = some t) ∧ t.DistinctParts := by
    intro y t hy
    rw [hknown, Typing.set] at hy
    split at hy
    · cases hy
      exact ⟨⟨"?int", rfl⟩, trivial, trivial, trivial⟩
    · cases hy
  have hvalues : Env.Agrees World.discrete (Env.set (fun _ => none) "x" (some (.int 3)))
      (bare.declare "x" "?int").known := by
    intro y v hy
    rw [Env.set] at hy
    rw [hknown, Typing.set]
    split at hy
    · cases hy
      exact ⟨_, if_pos ‹_›, .some rfl⟩
    · cases hy
  obtain ⟨flow, st', hrun, hrecorded, hends⟩ := narrowing_sound (fun _ => false) hin
    (by decide) hready hdeclared hvalues (show guardedAssignCmds.height ≤ 9 by decide)
  have htype : ((evaluator 9).checkAll [4, 8] ⟨guardedAssign.arena, {}, {}⟩
      (bare.declare "x" "?int")).any
        (fun r => renderOption (r.2.table.types.get? 5) == "int") = true := by decide +kernel
  rw [show (evaluator 9).checkAll [4, 8] ⟨guardedAssign.arena, {}, {}⟩
    (bare.declare "x" "?int") = some (flow, st') from hrun] at htype
  exact ⟨flow, st', hrun, hrecorded, (hends _ rfl).1, by simpa using htype⟩

/-- A function with parameters of the types `(A&B)|null` and `(A&A)|null`, and the body
`if (c()) { $x = $p; } else { $x = $q; } $y = $x;` where node 10 is the last read of `$x`. -/
def mixedBranches : SourceUnit :=
  Build.result do
    let condition ← Build.expr (.callNamed "c" [])
    let first ← Build.expr (.var "p")
    let taken ← Build.assignStmt "x" first
    let second ← Build.expr (.var "q")
    let skipped ← Build.assignStmt "x" second
    let branch ← Build.stmt (.simpleIf condition [taken] (some [skipped]))
    let read ← Build.expr (.var "x")
    let last ← Build.assignStmt "y" read
    let function ← Build.stmt (.function
      { name := "f", params := [{ name := "p" }, { name := "q" }], body := [branch, last]
        docComment := some "/**\n * @param (A&B)|null $p\n * @param (A&A)|null $q\n */" })
    Build.finish "unit" [function]

/-- The body of the function. -/
def mixedBranchesCmds : Cmds :=
  .cons (.branch 9 (.call 0 "c") (.cons (.assign 4 3 2 "x" (.var 1 "p")) .nil)
      (.otherwise (.cons (.assign 8 7 6 "x" (.var 5 "q")) .nil)))
    (.cons (.assign 13 12 11 "y" (.var 10 "x")) .nil)

/-- The types on the two branches count as equal, and the first one is recorded.  An instance of `A`
that is passed for `$q` comes to the last read and is not one of that type. -/
theorem branch_lost_in_join :
    mixedBranchesCmds.In ⟨mixedBranches.arena, {}, {}⟩ ∧ mixedBranchesCmds.nodes.Nodup ∧
    Ready ⟨mixedBranches.arena, {}, {}⟩ mixedBranchesCmds.nodes
      ((bare.declare "p" "(A&B)|null").declare "q" "(A&A)|null") ∧
    Env.Agrees World.discrete (Env.set (fun _ => none) "q" (some (.object "a")))
      ((bare.declare "p" "(A&B)|null").declare "q" "(A&A)|null").known ∧
    (∃ flow st', (evaluator 9).checkAll mixedBranchesCmds.ids ⟨mixedBranches.arena, {}, {}⟩
        ((bare.declare "p" "(A&B)|null").declare "q" "(A&A)|null") = some (flow, st') ∧
      ¬ Recorded World.discrete (mixedBranchesCmds.reads World.discrete (fun _ => false)
        (Env.set (fun _ => none) "q" (some (.object "a")))) st') ∧
    ((mixedBranches.analyze {} {}).map fun st => renderOption (st.table.types.get? 10)) =
      some "(A&B)|null" := by
  have hplaced := placed_bare.declare "p" "(A&B)|null"
  refine ⟨?_, by decide, ⟨hplaced.declare "q" "(A&A)|null", by decide, fun _ _ => ⟨rfl, rfl⟩⟩,
    fun y v hy => ?_, ?_, by decide +kernel⟩
  · exact ⟨⟨rfl, rfl, ⟨⟨rfl, rfl, rfl, by decide, rfl⟩, trivial⟩,
      ⟨rfl, rfl, rfl, by decide, rfl⟩, trivial⟩, ⟨rfl, rfl, rfl, by decide, rfl⟩, trivial⟩
  · rw [known_declare hplaced, Typing.set]
    rw [Env.set] at hy
    split at hy
    · cases hy
      exact ⟨_, if_pos ‹_›, .some rfl⟩
    · cases hy
  · have hrun : ((evaluator 9).checkAll mixedBranchesCmds.ids ⟨mixedBranches.arena, {}, {}⟩
        ((bare.declare "p" "(A&B)|null").declare "q" "(A&A)|null")).any
          (fun r => (r.2.table.types.get? 10).any
            fun t => !t.holds World.discrete (.object "a")) = true := by decide +kernel
    obtain ⟨⟨flow, st'⟩, hrun, htype⟩ := (any_eq_true ..).1 hrun
    obtain ⟨t, htype, hholds⟩ := (any_eq_true ..).1 htype
    refine ⟨flow, st', hrun, fun hrecorded => ?_⟩
    have hread : ((10 : NodeId), some (Value.object "a")) ∈ mixedBranchesCmds.reads World.discrete
        (fun _ => false) (Env.set (fun _ => none) "q" (some (.object "a"))) := by decide
    have hyes := hrecorded _ hread _ rfl t htype
    rw [hyes] at hholds
    cases hholds

end FlowTyping

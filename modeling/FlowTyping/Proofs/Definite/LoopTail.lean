import FlowTyping.Proofs.Definite.Statements

/-!
# The tail of a loop

The condition of a `do`-`while` and the steps of a `for` stand behind the body, and `continue` goes
there.  They are evaluated in the scope at the end of the body.  The copy of the scope that a
`continue` leaves is joined into the scope behind the loop only, so that a name is missing in the tail
which no path to the end of the body binds.
-/

namespace FlowTyping

open Analysis Evaluator

/-- The body of a loop, and what is evaluated behind it before the next round. -/
def Stmt.bodyAndTail? : Stmt → Option (List NodeId × List NodeId)
  | .doWhileStmt body condition => some (body, [condition])
  | .forStmt _ _ step body => some (body, step)
  | _ => none

namespace Definite

variable {cx : Context} {n : Nat} {id : NodeId} {stmt : Stmt} {body tail : List NodeId} {flow : Flow}
  {st st1 st' : State} {frame : List Scope} {outer : List (List Scope)}

lemma frame_of_grown (h : breaksGrow.rel st st') (hst : st.breaks = frame :: outer) :
    ∃ new, st'.breaks = (frame ++ new) :: outer := by
  have h : Grown 0 st.breaks st'.breaks := h
  rw [hst] at h
  obtain ⟨new, hnew, -⟩ := h
  exact ⟨new, hnew⟩

/-- A jump adds a copy of the current scope to the innermost frame, and leaves the scope as it is. -/
lemma jump_recorded (hs : cx.arena.stmt? id = some stmt) (hjump : stmt.isJump = true)
    (h : (evaluator n).check id cx st = some (flow, st')) (hst : st.breaks = frame :: outer) :
    ∃ s, s.names = st.bound ∧ st'.breaks = (frame ++ [s]) :: outer ∧ st'.bound = st.bound := by
  obtain ⟨m, st1, -, hrun, rfl⟩ := check_inside hs h
  have hrun : checkJump cx (st.enterStmt id) = some (flow, st1) := by
    cases stmt with
    | breakStmt | continueStmt => exact hrun
    | _ => cases hjump
  obtain ⟨s, st2, hfork, hrun⟩ := of_bind hrun
  obtain ⟨hquiet, hstack, hnames⟩ := quiet_forkCurrent hfork
  obtain ⟨⟨⟩, hrecord, -⟩ := of_result hrun
  rw [recordBreak_run, hquiet.breaks, show (st.enterStmt id).breaks = _ from hst] at hrecord
  cases hrecord
  exact ⟨s, hnames, rfl, congrArg (fun stack => stack.current.names) hstack⟩

/-- The body is run with a frame of its own, then the tail; what was recorded in the frame is joined
into the scope behind the loop. -/
lemma tail_of_loop (hparts : stmt.bodyAndTail? = some (body, tail))
    (h : (evaluator n).checkStmt id stmt cx st = some (flow, st')) :
    ∃ start bodyFlow st1 st2 outer frame, start.breaks = [] :: outer ∧
      (evaluator n).checkAll body cx start = some (bodyFlow, st1) ∧ st1.breaks = frame :: outer ∧
      (evaluator n).visitAll tail cx st1 = some ((), st2) ∧ ∀ s ∈ frame, s.names ⊆ st'.bound := by
  have hframes (start : State) {st1 st2 : State} {bodyFlow : Flow} {outer : List (List Scope)}
      (hstart : start.breaks = [] :: outer)
      (hbody : (evaluator n).checkAll body cx start = some (bodyFlow, st1))
      (htail : (evaluator n).visitAll tail cx st1 = some ((), st2)) :
      ∃ frame, st1.breaks = frame :: outer ∧ ∀ s ∈ frame, s ∈ st2.breaks.headD [] := by
    obtain ⟨frame, hframe⟩ :=
      frame_of_grown ((breaksGrow.evaluator cx n).checkAll (fun _ _ => trivial) hbody) hstart
    obtain ⟨more, hmore⟩ := frame_of_grown (kept_visitAll htail).grows hframe
    refine ⟨frame, hframe, fun s hs => ?_⟩
    rw [hmore]
    exact List.mem_append_left _ hs
  cases stmt with
  | doWhileStmt body condition =>
    cases hparts
    have h : (evaluator n).checkDoWhile body condition cx st = some (flow, st') := h
    rw [checkDoWhile_eq] at h
    replace h := bind_rest h rfl
    obtain ⟨bodyFlow, st2, hrun, h⟩ := of_bind h
    replace h := bind_rest h rfl
    obtain ⟨_, st1, hbody, hrun⟩ := of_bind hrun
    obtain ⟨⟨⟩, hvisit, rfl⟩ := of_result hrun
    have htail : (evaluator n).visitAll [condition] cx st1 = some ((), st2) :=
      bind_eq_some.2 ⟨_, _, hvisit, rfl⟩
    obtain ⟨frame, hframe, hkept⟩ := hframes st.enterLoop rfl hbody htail
    refine ⟨_, _, st1, st2, _, frame, rfl, hbody, hframe, htail, fun s hs => ?_⟩
    rcases (quiet_leaveDoWhile h).2 with ⟨-, hnone⟩ | ⟨-, -, hjoined⟩
    · have hs := hkept s hs
      rw [hnone] at hs
      cases hs
    · exact hjoined s (hkept s hs)
  | forStmt init condition step body =>
    cases hparts
    have h : (evaluator n).checkFor init condition tail body cx st = some (flow, st') := h
    rw [checkFor_eq] at h
    obtain ⟨⟨⟩, st3, -, h⟩ := of_bind h
    obtain ⟨⟨⟩, st4, -, h⟩ := of_bind h
    obtain ⟨⟨t, f⟩, st5, -, h⟩ := of_bind h
    replace h := bind_rest h rfl
    obtain ⟨⟨bodyFlow, after⟩, st6, hscope, h⟩ := of_bind h
    obtain ⟨st2, hrun, -, rfl⟩ := inScope_eq_some.1 hscope
    replace h := bind_rest h rfl
    obtain ⟨⟨⟩, hfinish, -⟩ := of_result h
    obtain ⟨_, st1, hbody, hrun⟩ := of_bind hrun
    obtain ⟨⟨⟩, htail, rfl⟩ := of_result hrun
    obtain ⟨frame, hframe, hkept⟩ := hframes (st5.enterLoop.within t) rfl hbody htail
    exact ⟨_, _, st1, st2, _, frame, rfl, hbody, hframe, htail,
      fun s hs => (quiet_finishLoop hfinish).2.2 s (hkept s hs)⟩
  | _ => cases hparts

/-- `do { $x = 1; continue; } while ($x);`, where the loop is node 8, or the same with the body in a
branch. -/
def jumpingLoop (inBranch : Bool) : SourceUnit :=
  Build.result do
    let one ← Build.expr (.int 1)
    let bind ← Build.assignStmt "x" one
    let jump ← Build.stmt .continueStmt
    let test ← Build.expr (.callNamed "c" [])
    let branch ← Build.stmt (.ifStmt test [bind, jump] [] none)
    let read ← Build.expr (.var "x")
    let body := if inBranch then [branch] else [bind, jump]
    let loop ← Build.stmt (.doWhileStmt body read)
    Build.finish "unit" [loop]

end Definite

end FlowTyping

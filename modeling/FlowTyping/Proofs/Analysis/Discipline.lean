import FlowTyping.Proofs.Analysis.Engine

/-!
# Relations that every run respects

Some facts about a run relate the state behind it to the state before it and hold whatever the state
is: what happens to the frames of the loops around, to the nodes and classes around, to the record of
what was passed.  Such a fact need only be looked at for the basic steps and for the pairs of steps
that enter and leave something; this module carries it to all rules and all levels of evaluation.

**Disciplines.**  A `Discipline` is a custom that jumps respect as well, so that there is no need to
look at the nodes: all levels of evaluation respect it (`Discipline.evaluator`).
-/

namespace FlowTyping

open Evaluator

variable {cx : Context} {ok : NodeId → Prop} {ev : Evaluator}

/-- The state behind a function: its scope is off the stack. -/
def State.popped (st : State) : State :=
  match st.stack.pop? with
  | some (_, stack) => { st with stack }
  | none => st

/-- A relation between the states before and behind a step that basic steps respect, and that holds
around a part where it holds inside. -/
structure Custom where
  rel : State → State → Prop
  refl : ∀ st, rel st st
  trans : ∀ {st st' st''}, rel st st' → rel st' st'' → rel st st''
  store : ∀ st σ, rel st { st with store := σ }
  current : ∀ st s, rel st { st with stack := st.stack.setCurrent s }
  table : ∀ st table, rel st { st with table }
  event : ∀ st e, rel st { st with events := e :: st.events }
  expression : ∀ {st st'} id, rel (st.enterNode id) st' →
    rel st { st' with depth := st'.depth - 1, stack := st'.stack.popNode }
  statement : ∀ {st st'} id, rel (st.enterStmt id) st' →
    rel st { st' with stack := st'.stack.popNode }
  cls : ∀ {st st'} c, rel { st with stack := st.stack.pushClass c } st' →
    rel st { st' with stack := st'.stack.popClass }
  closure : ∀ {st st'} s, rel (st.calling s) st' → rel st st'.popped

namespace Custom

open Analysis

variable {d inner : Custom} {α β : Type}

/-- Every run of the step respects the relation. -/
def Follows (d : Custom) (cx : Context) (m : Analysis α) : Prop :=
  ∀ ⦃st : State⦄ ⦃a : α⦄ ⦃st' : State⦄, m cx st = some (a, st') → d.rel st st'

/-- Respecting the relation as a judgement: it is of no account which nodes are evaluated. -/
abbrev judgement (d : Custom) (cx : Context) : Judgement :=
  fun _ _ m => d.Follows cx m

/-! ## Basic steps -/

lemma exhausted (d : Custom) : d.Follows cx (exhausted : Analysis α) := by
  intro st a st' h
  cases h

lemma Follows.pure {a : α} : d.Follows cx (Pure.pure a) := by
  intro st a st' h
  cases h
  exact d.refl st

lemma Follows.looking {m : Analysis α} {f : α → Analysis β} {a : α}
    (hm : ∀ st, m cx st = some (a, st)) (hf : d.Follows cx (f a)) : d.Follows cx (m >>= f) := by
  intro st b st' h
  rw [bind_run (hm st)] at h
  exact hf h

lemma Follows.bind {m : Analysis α} {f : α → Analysis β} (hm : d.Follows cx m)
    (hf : ∀ a, d.Follows cx (f a)) : d.Follows cx (m >>= f) := by
  intro st b st' h
  obtain ⟨a, st1, h1, h2⟩ := of_bind h
  exact d.trans (hm h1) (hf a h2)

lemma Follows.inScope {s : Scope} {m : Analysis α} (hm : d.Follows cx m) :
    d.Follows cx (inScope s m) := by
  rintro st ⟨a, after⟩ st' h
  obtain ⟨st1, h1, -, rfl⟩ := inScope_eq_some.1 h
  exact d.trans (d.trans (d.current st s) (hm h1)) (d.current st1 _)

lemma onScope (d : Custom) (f : Scope → Store → Scope × Store) :
    d.Follows cx (onScope f) := by
  intro st a st' h
  obtain ⟨-, rfl⟩ := h
  exact d.trans (d.store st _) (d.current { st with store := _ } _)

lemma onStore (d : Custom) (f : Store → α × Store) : d.Follows cx (onStore f) := by
  intro st a st' h
  obtain ⟨-, rfl⟩ := h
  exact d.store st _

lemma record (st : State) (table : NodeTable) (e : Event) :
    d.rel st { st with table, events := e :: st.events } :=
  d.trans (d.table st table) (d.event { st with table } e)

lemma leaveFunction_cases {function : NodeId} {o : Option Scope} {st st' : State}
    (h : leaveFunction function cx st = some (o, st')) :
    st' = st.popped ∨
      ∃ table e, st' = { st.popped with table, events := e :: st.popped.events } := by
  cases hpop : st.stack.pop? with
  | none =>
    rw [leaveFunction_of_none hpop] at h
    cases h
    rw [State.popped, hpop]
    exact .inl rfl
  | some popped =>
    obtain ⟨s, stack⟩ := popped
    rw [leaveFunction_run hpop] at h
    cases h
    rw [State.popped, hpop]
    exact .inr ⟨_, _, rfl⟩

lemma structural (d : Custom) : (d.judgement cx).Structural cx where
  mono hm _ := hm
  pure h := Follows.pure h
  bind := Follows.bind
  reads hm hf st _ _ h := hf st ((hm st).symm.trans h)
  onScope _ := d.onScope _
  update := d.onScope
  onStore := d.onStore
  modifyTable f st a st' h := by
    cases h
    exact d.table st _
  setCurrent s st a st' h := by
    cases h
    exact d.current st s
  inScope _ hm := hm.inScope
  inFunction s function hm hf st b st' h := by
    replace h := bind_rest h rfl
    obtain ⟨_, st1, h1, h⟩ := of_bind h
    obtain ⟨o, st2, h2, h⟩ := of_bind h
    refine d.trans (d.closure s (hm h1)) (d.trans ?_ (hf o h))
    rcases leaveFunction_cases h2 with rfl | ⟨table, e, rfl⟩
    · exact d.refl _
    · exact record ..
  inClass c b hm st _ st' h := by
    replace h := bind_rest h rfl
    obtain ⟨_, st1, h1, h⟩ := of_bind h
    cases h
    exact d.cls c (hm h1)

lemma recordVisit (d : Custom) (id : NodeId) (type : Option Ty) :
    d.Follows cx (recordVisit id type) := by
  refine .looking (fun _ => rfl) ?_
  split
  · intro st a st' h
    cases h
    exact d.event st _
  · exact .pure

/-- Around loops and functions the first relation holds where the second one holds inside. -/
structure Encloses (d inner : Custom) : Prop where
  loop : ∀ {st st'}, inner.rel st.enterLoop st' → d.rel st st'.leaveLoop
  function : ∀ {st st'} s, inner.rel (st.withoutLoops.calling s) st' →
    d.rel st { st'.popped with breaks := st.breaks }

lemma Encloses.judgement (henc : d.Encloses inner) :
    (d.judgement cx).Encloses (inner.judgement cx) where
  loop hm hf st b st' h := by
    replace h := bind_rest h rfl
    obtain ⟨a, st1, h1, h⟩ := of_bind h
    replace h := bind_rest h rfl
    exact d.trans (henc.loop (hm h1)) (hf a _ h)
  function s function hm st a st' h := by
    replace h := bind_rest h rfl
    replace h := bind_rest h rfl
    obtain ⟨_, st1, h1, h⟩ := of_bind h
    obtain ⟨o, st2, h2, h⟩ := of_bind h
    cases h
    refine d.trans (henc.function s (hm h1)) ?_
    rcases leaveFunction_cases h2 with rfl | ⟨table, e, rfl⟩
    · exact d.refl _
    · exact record { st1.popped with breaks := _ } table e

/-! ## Nodes -/

/-- What is evaluated at the nodes that `ok` admits respects the relation. -/
abbrev Governs (d : Custom) (cx : Context) (ok : NodeId → Prop) (ev : Evaluator) : Prop :=
  Traverser (fun _ => True) cx ok ok ev (d.judgement cx).held

lemma Governs.of_closed
    (hexpr : ∀ id, ok id → ∀ e, cx.arena.expr? id = some e → ∀ c ∈ e.children, ok c)
    (infer : ∀ {id}, ok id → d.Follows cx (ev.infer id))
    (check : ∀ {id}, ok id → d.Follows cx (ev.check id))
    (assign : ∀ {id}, ok id → ∀ type line, d.Follows cx (ev.assign id type line))
    (writeInto : ∀ {id}, ok id → ∀ line, d.Follows cx (ev.writeInto id line))
    (compact : ∀ {id}, ok id → d.Follows cx (ev.compact id)) : d.Governs cx ok ev where
  toHolding := d.structural.holding
  declares := Context.declaresIn_true _
  read_of_ok := id
  see := infer
  check := check
  assign hid _ _ := assign hid _
  writeInto := writeInto
  compact := compact
  recordWriteAt _ _ _ line := d.structural.typed.recordWrite (fun _ _ => trivial) (fun _ _ => trivial) line
    fun _ _ _ _ => d.exhausted
  parts hid he hm := hm fun c hc => infer (hexpr _ hid _ he c hc)

namespace Governs

variable (hev : d.Governs cx ok ev) {id : NodeId}

include hev

lemma inferNode (h : ∀ e, cx.arena.expr? id = some e → ∀ c ∈ e.children, ok c) :
    d.Follows cx (ev.inferNode id) := by
  have hrecord (type : Option Ty) : d.Follows cx (recordInferred id type) := by
    cases type with
    | some t => exact (d.structural.modifyTable _).bind fun _ =>
        (d.recordVisit ..).bind fun _ => .pure
    | none => exact (d.recordVisit ..).bind fun _ => .pure
  have hinside : d.Follows cx (ev.inferInside id) := by
    refine .looking (fun _ => rfl) ?_
    cases he : cx.arena.expr? id with
    | some e =>
      have hrule := hev.inferExpr id (Ty.closed_true.nodeDeclaresIn _) (h e he)
        (Expr.forall_args (h e he)) (Expr.forall_places (h e he))
      exact Follows.bind hrule hrecord
    | none => exact hrecord none
  intro st a st' hrun
  rw [inferNode_eq] at hrun
  split at hrun
  · cases hrun
    exact d.refl st
  · replace hrun := bind_rest hrun rfl
    replace hrun := bind_rest hrun rfl
    split at hrun
    · cases hrun
      exact d.refl st
    · replace hrun := bind_rest hrun rfl
      obtain ⟨type, st1, h1, hrun⟩ := of_bind hrun
      cases hrun
      exact d.expression id (hinside h1)

lemma checkNode {okIn : NodeId → Prop} (hin : inner.Governs cx okIn ev) (henc : d.Encloses inner)
    (hid : ok id) (h : ∀ stmt, cx.arena.stmt? id = some stmt →
      (∀ c ∈ stmt.children, ok c) ∧ ∀ c ∈ stmt.allParts, okIn c)
    (hjump : ∀ stmt, cx.arena.stmt? id = some stmt → stmt.isJump →
      d.Follows cx checkJump) :
    d.Follows cx (ev.checkNode id) := by
  intro st a st' hrun
  obtain ⟨cx', _, he, hrun⟩ := of_bind hrun
  cases he
  cases hstmt : cx.arena.stmt? id with
  | none =>
    rw [hstmt] at hrun
    exact Follows.bind (hev.visit hid) (fun _ => .pure) hrun
  | some stmt =>
    rw [hstmt] at hrun
    replace hrun := bind_rest hrun rfl
    obtain ⟨flow, st1, h1, hrun⟩ := of_bind hrun
    obtain ⟨_, st2, h2, hrun⟩ := of_bind hrun
    cases hrun
    have hrule := hev.checkStmt hin henc.judgement.held id (Ty.closed_true.nodeDeclaresIn _)
      (h stmt hstmt).1 (h stmt hstmt).2 (hjump stmt hstmt)
    exact d.statement id (d.trans (hrule h1) (d.recordVisit id none h2))

/-- One level of evaluation respects the relation at the nodes of a kind that is closed under parts,
where the level below does. -/
lemma step (hin : inner.Governs cx (fun _ => True) ev) (henc : d.Encloses inner)
    (hexpr : ∀ id, ok id → ∀ e, cx.arena.expr? id = some e → ∀ c ∈ e.children, ok c)
    (hstmt : ∀ id, ok id → ∀ stmt, cx.arena.stmt? id = some stmt → ∀ c ∈ stmt.children, ok c)
    (hjump : ∀ id, ok id → ∀ stmt, cx.arena.stmt? id = some stmt → stmt.isJump →
      d.Follows cx checkJump) : d.Governs cx ok ev.step :=
  .of_closed hexpr (fun hid => hev.inferNode (hexpr _ hid))
    (fun hid => hev.checkNode hin henc hid
      (fun stmt hs => ⟨hstmt _ hid stmt hs, fun _ _ => trivial⟩) (hjump _ hid))
    (fun hid _ line => hev.stepwise.assignTo
      (fun he _ hm => hm (hexpr _ hid _ he) (Expr.forall_looseParts (hexpr _ hid _ he)))
      (hev.infer hid) (fun _ _ => trivial) line)
    (fun hid => hev.stepwise.writeIntoBase
      (fun he _ hm => hm (hexpr _ hid _ he) (Expr.forall_looseParts (hexpr _ hid _ he)))
      (hev.infer hid))
    fun hid => hev.stepwise.compactArg fun items he c hc =>
      hexpr _ hid _ he c (Expr.mem_children_of_item hc)

end Governs

lemma governs_zero
    (hexpr : ∀ id, ok id → ∀ e, cx.arena.expr? id = some e → ∀ c ∈ e.children, ok c) :
    d.Governs cx ok (FlowTyping.evaluator 0) :=
  .of_closed hexpr (fun _ => d.exhausted) (fun _ => d.exhausted) (fun _ _ _ => d.exhausted)
    (fun _ _ => d.exhausted) fun _ => d.exhausted

end Custom

/-- A relation between the states before and behind a step that all steps respect. -/
structure Discipline extends Custom where
  recordBreak : ∀ st frame outer s, st.breaks = frame :: outer →
    rel st { st with breaks := (frame ++ [s]) :: outer }
  loop : ∀ {st st'}, rel st.enterLoop st' → rel st st'.leaveLoop
  function : ∀ {st st'} s, rel (st.withoutLoops.calling s) st' →
    rel st { st'.popped with breaks := st.breaks }

namespace Discipline

open Analysis

variable (d : Discipline)

/-- What is evaluated at any node respects the relation. -/
abbrev Governs (cx : Context) (ev : Evaluator) : Prop :=
  d.toCustom.Governs cx (fun _ => True) ev

lemma encloses : d.toCustom.Encloses d.toCustom :=
  ⟨d.loop, d.function⟩

lemma recordBreakStep (s : Scope) : d.Follows cx (Analysis.recordBreak s) := by
  intro st a st' h
  rw [recordBreak_run] at h
  split at h <;> cases h
  · exact d.refl st
  · next hb => exact d.recordBreak st _ _ s hb

lemma checkJump : d.Follows cx checkJump :=
  Custom.Follows.bind d.structural.holding.forkCurrent fun _ => (d.recordBreakStep _).bind fun _ => .pure

lemma evaluator (cx : Context) (budget : Nat) : d.Governs cx (FlowTyping.evaluator budget) := by
  induction budget with
  | zero => exact Custom.governs_zero fun _ _ _ _ _ _ => trivial
  | succ n ih =>
    exact ih.step ih d.encloses (fun _ _ _ _ _ _ => trivial) (fun _ _ _ _ _ _ => trivial)
      fun _ _ _ _ _ => d.checkJump

end Discipline

end FlowTyping

import FlowTyping.Proofs.Analysis.FunctionRules
import FlowTyping.Proofs.Analysis.StatementRules

/-!
# Every run keeps to its scope

Each rule is a step in the sense of `Step`, whatever the evaluator below it does, as long as that
keeps to its scope too.  The rules are tied together by the budget: what holds of each rule, given the
evaluator below, holds of the evaluator at every budget.
-/

namespace FlowTyping

open Analysis List Scope State Ty

variable {P : Ty → Prop} {cx : Context} {α : Type} {Q : α → Prop} {n : Nat} {st st' : State}
  {l : List Scope} {ev : Evaluator} {type : Option Ty} {id : NodeId} {flow : Flow}

/-- What the rules assume of the evaluator below: every step keeps to its scope, and what it infers
lies in `P`. -/
structure Evaluator.Keeps (P : Ty → Prop) (cx : Context) (ev : Evaluator) : Prop where
  infer : ∀ id, Analysis.Keeps P cx (ev.infer id) (KnownIn P)
  check : ∀ id, Analysis.Keeps P cx (ev.check id) fun _ => True
  assign : ∀ id {type} line, KnownIn P type →
    Analysis.Keeps P cx (ev.assign id type line) fun _ => True
  writeInto : ∀ id line, Analysis.Keeps P cx (ev.writeInto id line) fun _ => True
  compact : ∀ id, Analysis.Keeps P cx (ev.compact id) fun _ => True

namespace Analysis

lemma keeps_exhausted : Keeps P cx (exhausted : Analysis α) Q :=
  fun _ _ _ _ _ _ _ _ h => nomatch h

/-! ## Short circuits -/

lemma held_merged (hP : ∀ a b, P a → P b → P (join a b)) {a b : Scope} (hst : st.Wf P)
    (hn : n ≤ st.store.size) (hl : Held P n st l) (ha : a.Wf P st.store) (hb : b.Wf P st.store) :
    Step P n st { st with store := (merged a b st.store).2 } ∧
      Held P n { st with store := (merged a b st.store).2 }
        ((merged a b st.store).1 :: l) := by
  have h := change_merged (t := {}) hP ha hb hst.types (Nat.le_refl _)
  refine ⟨.of_store hst h.types h.size_le fun k hk _ => ?_, ?_⟩
  · exact h.read_eq k (Nat.lt_of_lt_of_le hk hn) fun ⟨_, hname⟩ => nomatch hname
  · exact hl.cons_of_size_le hst (Nat.le_refl _) h.wf
      (fun k hk => owns_merged hP ha hb hst.types hk) h.size_le hn rfl rfl

lemma held_shortScopes (hP : ∀ a b, P a → P b → P (join a b)) {b : Bool} {other t f : Scope}
    {r : Scope × Scope} (hst : st.Wf P) (hn : n ≤ st.store.size) (hl : Held P n st l)
    (ho : other.Wf P st.store) (ht : t.Wf P st.store) (hf : f.Wf P st.store)
    (h : shortScopes b other t f cx st = some (r, st')) :
    Step P n st st' ∧ Held P n st' (r.2 :: r.1 :: l) := by
  cases b with
  | true =>
    cases h
    obtain ⟨hstep1, hheld1⟩ := held_fork hst hn hl ht
    obtain ⟨hstep2, hheld2⟩ := held_merged hP hstep1.wf (Nat.le_trans hn hstep1.size_le) hheld1
      (ho.mono hstep1.size_le) (hf.mono hstep1.size_le)
    exact ⟨hstep1.trans hstep2, hheld2⟩
  | false =>
    cases h
    obtain ⟨hstep1, hheld1⟩ := held_merged hP hst hn hl ho ht
    obtain ⟨hstep2, hheld2⟩ := held_fork hstep1.wf (Nat.le_trans hn hstep1.size_le) hheld1
      (hf.mono hstep1.size_le)
    exact ⟨hstep1.trans hstep2, hheld2⟩

/-! ## The judgement -/

/-- The steps that keep to their scope, with results in `P`. -/
abbrev giving (P : Ty → Prop) (cx : Context) : ScopeJudgement :=
  fun _ _ l m l' r => Gives P cx l m l' (r.In P)

lemma giving_holding (hP : Stable P) : (giving P cx).Holding P cx where
  stable := hP
  mono h _ := h.subperm
  frame h := h.frame
  pure := Gives.pure
  bind := Gives.bind
  reads hm hf _ st c hst hn hl _ _ hr := hf st hst.shows c hst hn hl ((hm st).symm.trans hr)
  onScope := gives_onScope
  modifyTable := gives_modifyTable
  new ht h := gives_new h ht
  onHeldWith := gives_onHeldWith
  forkCurrent := gives_forkCurrent
  branchScopes := gives_branchScopes
  shortScopes {_ _ _ _ _ id _ _ _ _} ho hafter hk n st c hst hn hl a st' hr := by
    replace hr := bind_rest hr rfl
    obtain ⟨p, st1, hscopes, hr⟩ := of_bind hr
    -- The scopes that the right side implies stay in the store while copies are made of them.
    have hafter := hl.wf _ (mem_append_left _ hafter)
    obtain ⟨hstep, hheld⟩ := held_shortScopes hP.join hst.toWf hn hl
      (hl.wf _ (mem_append_left _ ho)) (hst.table.getD_whenTrue? hafter id)
      (hst.table.getD_whenFalse? hafter id) hscopes
    obtain ⟨hstep', hheld', hq⟩ := hk _ p c (hstep.fit hst) (Nat.le_trans hn hstep.size_le) hheld hr
    exact ⟨hstep.trans hstep', hheld', hq⟩
  forkAssertions := Keeps.forkAssertions
  replaceCurrent := gives_replaceCurrent
  inScope := gives_inScope
  inFunction line uses s function hm hf := .inFunction hm hf line uses s function
  inClass {_ _ cls _ _} hcls hm := by
    refine Gives.around (fun st => ⟨cls :: st.stack.classes, st.stack.ancestors, st.depth, rfl,
      fun houter => forall_mem_cons.2 ⟨hcls, houter⟩⟩)
      (fun st st1 hclasses hancestors hdepth => ?_) hm fun _ _ => keeps_pure trivial
    have htail : st1.stack.classes.tail = st.stack.classes := by rw [hclasses]; rfl
    show st1.around _ st1.stack.ancestors st1.depth = _
    rw [htail, hancestors, hdepth]
    rfl

lemma giving_encloses : (giving P cx).Encloses P (giving P cx) where
  loop := Gives.loop
  function s function hm := .function hm s function

end Analysis

/-! ## The rules -/

namespace Evaluator

open Analysis

lemma keeps_checkJump : Analysis.Keeps P cx checkJump fun _ => True :=
  gives_forkCurrent.bind fun s _ => (gives_recordBreak s).bind fun _ _ => keeps_pure trivial

lemma Keeps.traverser (hP : Stable P) (hcx : cx.DeclaresIn P) (hev : ev.Keeps P cx) :
    Traverser P cx (fun _ => True) (fun _ => True) ev (giving P cx) where
  toHolding := giving_holding hP
  declares := hcx
  read_of_ok := id
  see _ := hev.infer _
  assign _ _ ht line := hev.assign _ line ht
  writeInto _ := hev.writeInto _
  compact _ := hev.compact _
  recordWriteAt _ _ ht line := ((giving_holding hP).typed hcx).recordWrite (fun _ _ => trivial) ht line
    fun _ _ _ _ => keeps_exhausted
  check _ := hev.check _
  parts _ _ hm := hm fun _ _ => hev.infer _

lemma keeps_visit (hev : ev.Keeps P cx) (id : NodeId) :
    Analysis.Keeps P cx (ev.visit id) fun _ => True :=
  (hev.infer id).then fun _ _ => keeps_pure trivial

lemma keeps_visitAll (hev : ev.Keeps P cx) (ids : List NodeId) :
    Analysis.Keeps P cx (ev.visitAll ids) fun _ => True := by
  induction ids with
  | nil => exact keeps_pure trivial
  | cons id ids ih => exact (keeps_visit hev id).then fun _ _ => ih

lemma keeps_checkAll (hev : ev.Keeps P cx) (ids : List NodeId) :
    Analysis.Keeps P cx (ev.checkAll ids) fun _ => True := by
  induction ids with
  | nil => exact keeps_pure trivial
  | cons id ids ih =>
    exact (hev.check id).then fun _ _ => ih.then fun _ _ => keeps_pure trivial

end Evaluator

open Evaluator State

variable {e : Expr} {stmt : Stmt} {index : Index} {unit : SourceUnit} {options : Options}
  {budget : Nat}

/-- What is recorded of a node that was evaluated. -/
def State.visitOf (st : State) (id : NodeId) (type : Option Ty) : Visit where
  node := id
  type := type
  ancestors := st.stack.ancestors.tail
  cls := st.stack.class?
  scope := st.stack.current.view st.store

namespace Analysis

lemma keeps_event {event : State → Event} (h : ∀ st, st.Wf P → (event st).TypesIn P) :
    Keeps P cx (modify fun st => { st with events := event st :: st.events }) fun _ => True := by
  intro n st c hst hn hl a st' hr
  obtain ⟨-, rfl⟩ := Prod.mk.inj (Option.some.inj hr)
  refine ⟨?_, ⟨hl.wf, hl.ge, hl.stack, hl.breaks, hl.pairwise⟩, trivial⟩
  exact {
    wf := ⟨hst.types, hst.stack, hst.breaks, hst.breaks_apart, hst.breaks_pairwise, hst.table,
      forall_mem_cons.2 ⟨h st hst.toWf, hst.events⟩⟩
    size_le := le_rfl
    read_eq := fun _ _ _ => rfl
    owns := fun _ => .inl
    stack := (Stack.setCurrent_current _).symm
    breaks := .refl ..
    depth := rfl
    events := suffix_cons .. }

lemma recordVisit_run (hid : (cx.arena.get? id).isSome = true) (type : Option Ty) (st : State) :
    recordVisit id type cx st =
      some ((), { st with events := .visited (st.visitOf id type) :: st.events }) := by
  show (if (cx.arena.get? id).isSome then _ else _ : Analysis _) cx st = _
  rw [if_pos hid]
  rfl

lemma keeps_recordVisit (id : NodeId) (ht : KnownIn P type) :
    Keeps P cx (recordVisit id type) fun _ => True := by
  refine keeps_read.then fun _ _ => ?_
  split
  · exact keeps_event fun st hst => ⟨ht, hst.current.view hst.types⟩
  · exact keeps_pure trivial

lemma keeps_recordInferred (id : NodeId) (ht : KnownIn P type) :
    Keeps P cx (recordInferred id type) (KnownIn P) := by
  have hrecord : Keeps P cx (recordVisit id type >>= fun _ => pure type) (KnownIn P) :=
    (keeps_recordVisit id ht).then fun _ _ => keeps_pure ht
  cases type with
  | none => exact hrecord
  | some t =>
    have hset : Keeps P cx (modifyTable fun table => table.setType id t) fun _ => True :=
      gives_modifyTable fun _ _ htable _ => htable.setType (ht t rfl)
    exact hset.then fun _ _ => hrecord

lemma Gives.underNode {β : Type} {l' : α → List Scope} {l'' : β → List Scope} {R : β → Prop}
    {m : Analysis α} {f : α → Analysis β} (hm : Gives P cx l m l' Q) (id : NodeId)
    (hf : ∀ a, Q a → Gives P cx (l' a) (f a) l'' R) :
    Gives P cx l (modifyStack (fun st => st.pushNode id) >>= fun _ => m >>= fun a =>
      modifyStack Stack.popNode >>= fun _ => f a) l'' R := by
  refine Gives.around (fun st => ⟨_, _, _, rfl, fun h => h⟩)
    (fun st st1 hclasses hancestors hdepth => ?_) hm hf
  show st1.around st1.stack.classes st1.stack.ancestors.tail st1.depth = _
  rw [hclasses, hancestors, hdepth]
  rfl

end Analysis

/-- The state in which the expression at a node is evaluated. -/
def State.enterNode (st : State) (id : NodeId) : State :=
  { st with depth := st.depth + 1, stack := st.stack.pushNode id }

/-- The state behind the evaluation of an expression, which is entered into the table and the
record. -/
def State.leaveNode (st : State) (id : NodeId) (type : Option Ty) : State :=
  let table := match type with
    | some t => st.table.setType id t
    | none => st.table
  { st with
    table
    events := .visited (st.visitOf id type) :: st.events
    depth := st.depth - 1
    stack := st.stack.popNode }

lemma State.assertions_leaveNode :
    (st.leaveNode id type).table.assertions = st.table.assertions := by
  cases type <;> rfl

/-- The state in which the statement at a node is checked. -/
def State.enterStmt (st : State) (id : NodeId) : State :=
  { st with stack := st.stack.pushNode id }

/-- The state behind a statement, which is entered into the record. -/
def State.leaveStmt (st : State) (id : NodeId) : State :=
  { st with events := .visited (st.visitOf id none) :: st.events, stack := st.stack.popNode }

namespace Evaluator

open Analysis

lemma inferNode_of_depth_le (h : id = NodeId.absent ∨ cx.options.maxDepth.toNat ≤ st.depth) :
    ev.inferNode id cx st = some (none, st) := by
  rw [inferNode_eq]
  by_cases hid : id = NodeId.absent
  · rw [if_pos (beq_iff_eq.2 hid)]
    rfl
  · rw [if_neg (by simpa using hid)]
    show (if st.depth ≥ cx.options.maxDepth.toNat then _ else _ : Analysis _) cx st = _
    rw [if_pos (h.resolve_left hid)]
    rfl

lemma inferNode_inside (hid : id ≠ NodeId.absent) (hdepth : st.depth < cx.options.maxDepth.toNat) :
    ev.inferNode id cx st = (ev.inferInside id cx (st.enterNode id)).bind fun r =>
      some (r.1, { r.2 with depth := r.2.depth - 1, stack := r.2.stack.popNode }) := by
  rw [inferNode_eq, if_neg (by simpa using hid)]
  show (if st.depth ≥ cx.options.maxDepth.toNat then _ else _ : Analysis _) cx st = _
  rw [if_neg (Nat.not_le.2 hdepth)]
  rfl

lemma inferNode_run (he : cx.arena.expr? id = some e)
    (hdepth : st.depth < cx.options.maxDepth.toNat) :
    ev.inferNode id cx st = (ev.inferExpr id e cx (st.enterNode id)).map fun (type, st1) =>
      (type, st1.leaveNode id type) := by
  have hid : id ≠ NodeId.absent := by
    rintro rfl
    cases he
  have hinside : ev.inferInside id cx (st.enterNode id) =
      (ev.inferExpr id e >>= recordInferred id) cx (st.enterNode id) := by
    unfold inferInside
    rw [bind_run (show exprAt id cx (st.enterNode id) = some (cx.arena.expr? id, _) from rfl), he]
  rw [inferNode_inside hid hdepth, hinside]
  show ((ev.inferExpr id e cx (st.enterNode id)).bind fun r => recordInferred id r.1 cx r.2).bind _ = _
  cases ev.inferExpr id e cx (st.enterNode id) with
  | none => rfl
  | some r =>
    obtain ⟨type, st1⟩ := r
    have harena := Arena.get?_isSome_of_expr? he
    cases type with
    | none =>
      show ((recordVisit id none cx st1).bind _).bind _ = _
      rw [recordVisit_run harena]
      rfl
    | some t =>
      show ((recordVisit id (some t) cx { st1 with table := st1.table.setType id t }).bind _).bind _
        = _
      rw [recordVisit_run harena]
      rfl

lemma inferNode_of_expr?_none (he : cx.arena.expr? id = none) :
    ev.inferNode id cx st = some (none, st) ∨
      ev.inferNode id cx st = some (none, (st.enterNode id).leaveNode id none) := by
  by_cases hcut : id = NodeId.absent ∨ cx.options.maxDepth.toNat ≤ st.depth
  · exact .inl (inferNode_of_depth_le hcut)
  rw [not_or, Nat.not_le] at hcut
  have hinside : ev.inferInside id cx (st.enterNode id) =
      recordInferred id none cx (st.enterNode id) := by
    unfold inferInside
    rw [bind_run (show exprAt id cx (st.enterNode id) = some (cx.arena.expr? id, _) from rfl), he]
    rfl
  rw [inferNode_inside hcut.1 hcut.2, hinside]
  show ((recordVisit id none cx (st.enterNode id)).bind _).bind _ = _ ∨
    ((recordVisit id none cx (st.enterNode id)).bind _).bind _ = _
  by_cases hget : (cx.arena.get? id).isSome = true
  · rw [recordVisit_run hget]
    exact .inr rfl
  · have hskip : recordVisit id none cx (st.enterNode id) = some ((), st.enterNode id) := by
      show (if (cx.arena.get? id).isSome then _ else _ : Analysis _) cx _ = _
      rw [if_neg hget]
      rfl
    rw [hskip]
    exact .inl rfl

lemma checkNode_run (h : cx.arena.stmt? id = some stmt) :
    ev.checkNode id cx st = (ev.checkStmt id stmt cx (st.enterStmt id)).map fun (flow, st1) =>
      (flow, st1.leaveStmt id) := by
  have harena := Arena.get?_isSome_of_stmt? h
  unfold checkNode
  rw [bind_run (show (read : Analysis _) cx st = some (cx, st) from rfl), h]
  show (ev.checkStmt id stmt cx (st.enterStmt id)).bind (fun r => _) = _
  cases ev.checkStmt id stmt cx (st.enterStmt id) with
  | none => rfl
  | some r =>
    show (recordVisit id none cx r.2).bind _ = _
    rw [recordVisit_run harena]
    rfl

lemma keeps_inferInside (hP : Stable P) (hcx : cx.DeclaresIn P) (hev : ev.Keeps P cx)
    (id : NodeId) : Analysis.Keeps P cx (ev.inferInside id) (KnownIn P) := by
  refine (keeps_exprAt id).then fun e he => ?_
  cases e with
  | none => exact keeps_recordInferred id .none
  | some e =>
    have hrule := (hev.traverser hP hcx).inferExpr id (hcx.of_expr? he.symm)
      (fun _ _ => trivial) (fun _ _ => trivial) fun _ _ => trivial
    exact Keeps.then hrule fun _ ht => keeps_recordInferred id ht

lemma keeps_inferNode (hP : Stable P) (hcx : cx.DeclaresIn P) (hev : ev.Keeps P cx)
    (id : NodeId) : Analysis.Keeps P cx (ev.inferNode id) (KnownIn P) := by
  rw [inferNode_eq]
  split
  · exact keeps_pure .none
  · refine keeps_get.then fun _ _ => keeps_read.then fun _ _ => ?_
    split
    · exact keeps_pure .none
    · refine Gives.around (fun st => ⟨_, _, _, rfl, fun h => h⟩)
        (fun st st1 hclasses hancestors hdepth => ?_) (keeps_inferInside hP hcx hev id)
        fun _ ht => keeps_pure ht
      show st1.around st1.stack.classes st1.stack.ancestors.tail (st1.depth - 1) = _
      rw [hclasses, hancestors, hdepth]
      rfl

lemma keeps_checkNode (hP : Stable P) (hcx : cx.DeclaresIn P) (hev : ev.Keeps P cx)
    (id : NodeId) : Analysis.Keeps P cx (ev.checkNode id) fun _ => True := by
  refine keeps_read.then fun cx h => ?_
  subst h
  split
  · exact (keeps_visit hev id).then fun _ _ => keeps_pure trivial
  · next stmt hstmt =>
    have hev := hev.traverser hP hcx
    have hrule := hev.checkStmt hev giving_encloses id (hcx.of_stmt? hstmt) (fun _ _ => trivial)
      (fun _ _ => trivial) fun _ => keeps_checkJump
    have hinside : Analysis.Keeps P cx (do
        let flow ← ev.checkStmt id stmt
        recordVisit id none
        return flow) fun _ => True :=
      Keeps.then hrule fun _ _ => (keeps_recordVisit id .none).then fun _ _ => keeps_pure trivial
    simpa only [bind_assoc, pure_bind] using
      hinside.underNode id fun flow _ => keeps_pure (a := flow) trivial

end Evaluator

lemma evaluator_keeps_declared (hP : Stable P) (hcx : cx.DeclaresIn P) (budget : Nat) :
    (evaluator budget).Keeps P cx := by
  induction budget with
  | zero => exact ⟨fun _ => keeps_exhausted, fun _ => keeps_exhausted,
      fun _ _ _ _ => keeps_exhausted, fun _ _ => keeps_exhausted,
      fun _ => keeps_exhausted⟩
  | succ n ih => exact ⟨keeps_inferNode hP hcx ih, keeps_checkNode hP hcx ih,
      fun id _ line ht => (ih.traverser hP hcx).stepwise.assignTo
        (fun _ _ h => h (fun _ _ => trivial) fun _ _ => trivial) (ih.infer id) ht line,
      fun id => (ih.traverser hP hcx).stepwise.writeIntoBase
        (fun _ _ h => h (fun _ _ => trivial) fun _ _ => trivial) (ih.infer id),
      fun _ => (ih.traverser hP hcx).stepwise.compactArg fun _ _ _ _ => trivial⟩

lemma evaluator_keeps (hP : Closed P) (hindex : cx.index.TypesIn P) (budget : Nat) :
    (evaluator budget).Keeps P cx :=
  evaluator_keeps_declared hP.toStable (hP.declaresIn hindex) budget

lemma Evaluator.keeps_checkFile (hev : ev.Keeps P cx) (root : NodeId) :
    Analysis.Keeps P cx (ev.checkFile root) fun _ => True := by
  refine keeps_read.then fun _ _ => ?_
  split
  · simpa only [bind_pure_unit] using (keeps_checkAll hev _).underNode root fun _ _ =>
      keeps_pure (a := ()) trivial
  · exact (hev.check root).then fun _ _ => keeps_pure trivial
  · exact keeps_pure trivial

/-! ## Nodes -/

section Node

/-- An expression within the limit of depth is evaluated between entering and leaving its node. -/
lemma infer_inside (he : cx.arena.expr? id = some e)
    (hdepth : st.depth < cx.options.maxDepth.toNat)
    (h : (evaluator n).infer id cx st = some (type, st')) :
    ∃ m st1, n = m + 1 ∧ (evaluator m).inferExpr id e cx (st.enterNode id) = some (type, st1) ∧
      st' = st1.leaveNode id type := by
  cases n with
  | zero => cases h
  | succ m =>
    rw [show (evaluator (m + 1)).infer id cx st = _ from inferNode_run he hdepth] at h
    obtain ⟨⟨t, st1⟩, hrun, h⟩ := Option.map_eq_some_iff.1 h
    cases h
    exact ⟨m, st1, rfl, hrun, rfl⟩

lemma infer_cases (he : cx.arena.expr? id = some e)
    (h : (evaluator n).infer id cx st = some (type, st')) :
    type = none ∧ st' = st ∨ ∃ m st1, n = m + 1 ∧
      (evaluator m).inferExpr id e cx (st.enterNode id) = some (type, st1) ∧
      st' = st1.leaveNode id type := by
  rcases Nat.lt_or_ge st.depth cx.options.maxDepth.toNat with hdepth | hdepth
  · exact .inr (infer_inside he hdepth h)
  · cases n with
    | zero => cases h
    | succ m =>
      rw [show (evaluator (m + 1)).infer id cx st = _ from
        inferNode_of_depth_le (.inr hdepth)] at h
      cases h
      exact .inl ⟨rfl, rfl⟩

lemma check_inside (hstmt : cx.arena.stmt? id = some stmt)
    (h : (evaluator n).check id cx st = some (flow, st')) :
    ∃ m st1, n = m + 1 ∧ (evaluator m).checkStmt id stmt cx (st.enterStmt id) = some (flow, st1) ∧
      st' = st1.leaveStmt id := by
  cases n with
  | zero => cases h
  | succ m =>
    rw [show (evaluator (m + 1)).check id cx st = _ from checkNode_run hstmt] at h
    obtain ⟨⟨f, st1⟩, hrun, h⟩ := Option.map_eq_some_iff.1 h
    cases h
    exact ⟨m, st1, rfl, hrun, rfl⟩

open Analysis in
lemma Evaluator.checkAll_append {before after : List NodeId}
    (h : ev.checkAll (before ++ after) cx st = some (flow, st')) :
    ∃ flow1 st1 flow2, ev.checkAll before cx st = some (flow1, st1) ∧
      ev.checkAll after cx st1 = some (flow2, st') := by
  induction before generalizing st flow with
  | nil => exact ⟨_, st, flow, rfl, h⟩
  | cons first before ih =>
    obtain ⟨_, st1, hfirst, h⟩ := of_bind h
    obtain ⟨_, hrest, -⟩ := of_result h
    obtain ⟨_, st2, flow2, hbefore, hafter⟩ := ih hrest
    exact ⟨_, st2, flow2, bind_eq_some.2 ⟨_, _, hfirst, result_eq_some.2 ⟨_, hbefore, rfl⟩⟩, hafter⟩

end Node

/-- A state whose scopes are placed in its store; nothing is asked of types.  Every state of an
analysis is one: the first is (`State.wf_initial`), and each step keeps it so (`evaluator_keeps`). -/
abbrev State.Placed (st : State) : Prop :=
  st.Wf fun _ => True

/-- The scopes are held beside those of the state. -/
abbrev State.Holds (st : State) (l : List Scope) : Prop :=
  Held (fun _ => True) 0 st l

lemma evaluator_keeps_any (n : Nat) : (evaluator n).Keeps (fun _ => True) cx :=
  evaluator_keeps closed_true cx.index.typesIn_true n

/-! ## Files -/

lemma State.fit_initial (hP : Stable P) (options : Options) :
    (initial options).Fit P := by
  have hempty : Store.TypesIn P {} := fun k t ht => nomatch ht
  have h := change_addSuperglobals hP options.superglobals
    (@Scope.wf_of_empty P { flags := { isGlobal := true, isStrict := options.strictTypes } } {} rfl rfl)
    hempty (Nat.zero_le _)
  refine ⟨⟨h.types, fun s hs => ?_, ?_, ?_, ?_, ⟨?_, ?_⟩, ?_⟩, ?_⟩
  · rw [mem_singleton.1 hs]
    exact h.wf
  all_goals simp [initial]

lemma State.wf_initial (hP : Closed P) (options : Options) : (initial options).Wf P :=
  (fit_initial hP.toStable options).toWf

/-- What the analysis of a file leaves behind is well formed, where all that is declared lies in
`P`. -/
lemma SourceUnit.wf_of_declaresIn (hP : Stable P)
    (hcx : Context.DeclaresIn P ⟨unit.arena, index, options⟩)
    (h : unit.analyzeUpTo index options budget = some st) : st.Wf P := by
  obtain ⟨⟨_, _⟩, hrun, rfl⟩ := Option.map_eq_some_iff.1 h
  have hkeeps := keeps_checkFile (evaluator_keeps_declared hP hcx budget) unit.root
  exact (hkeeps [] (fit_initial hP options) le_rfl .nil hrun).1.wf

lemma SourceUnit.wf_of_analyzeUpTo (hP : Closed P) (hindex : index.TypesIn P)
    (h : unit.analyzeUpTo index options budget = some st) : st.Wf P :=
  SourceUnit.wf_of_declaresIn hP.toStable (hP.declaresIn hindex) h

end FlowTyping

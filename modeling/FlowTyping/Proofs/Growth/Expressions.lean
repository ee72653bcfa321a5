import FlowTyping.Proofs.Compare.Below
import FlowTyping.Proofs.Growth.Branches
import FlowTyping.Proofs.Growth.Steps
import FlowTyping.Proofs.Walk.Engine

/-!
# Expressions that lose nothing

The evaluation of an expression takes nothing back: names stay bound, and marks and flags stay set.
And it loses no read: wherever a variable is evaluated in the expression, be it in an operand of `&&`,
a branch of a ternary or an arm of a match that throws, the variable is marked in the end.  The body of
a function may lose names, but it runs in a scope of its own, so the scope around it does not.
-/

namespace FlowTyping

variable {α : Type} {W : Watch} {cx : Context} {id : NodeId} {st st' : State} {s t : Scope}
  {n : Nat} {e : Expr} {name : String} {type : Option Ty} {m : Analysis α} {a : α} {arena : Arena}
  {event : Event}

section Functions

open Analysis Arena Evaluator List Option Scope State

/-! ## Records -/

/-- Evaluations of the nodes below `roots`, from the state `start`. -/
def Comparison.confined (cx : Context) (roots : List NodeId) (start : State) : Comparison where
  __ := inContext cx (fun ⟨p, hp, hid⟩ he _ hc => ⟨p, hp, hid.trans (.child he hc)⟩)
    (fun ⟨p, hp, hid⟩ hs _ hc => ⟨p, hp, hid.trans (.part hs hc)⟩)
  nodes id := ∃ p ∈ roots, cx.arena.Reach p id
  kept m _ := ∀ {id}, cx.arena.Avoids roots id → m.get? id = start.table.assertions.get? id
  events es _ := ∃ new, es = new ++ start.events ∧
    ∀ e ∈ new, ∃ p ∈ roots, cx.arena.Reach p e.node
  kept_insert := fun {_ _ id _ _} h ⟨p, hp, hid⟩ hexpr _ _ other hother => by
    obtain ⟨e, he⟩ := isSome_iff_exists.1 hexpr
    rw [IdMap.get?_insert, if_neg (hother.ne hp hid he)]
    exact h hother
  kept_erase := fun {_ _ id} h ⟨p, hp, hid⟩ hexpr other hother => by
    obtain ⟨e, he⟩ := isSome_iff_exists.1 hexpr
    rw [IdMap.get?_erase, if_neg (hother.ne hp hid he)]
    exact h hother
  events_cons := fun {_ _ e _} ⟨new, heq, hnew⟩ hid _ =>
    ⟨e :: new, by rw [heq, cons_append], forall_mem_cons.2 ⟨hid, hnew⟩⟩

variable {s' : Scope} {names : List String} {uses : List ClosureUse}

lemma confined_run {roots : List NodeId} (hst : st.Placed)
    (hm : (Comparison.confined cx roots st).Same (.upTo st.store.size) m m)
    (h : m cx st = some (a, st')) :
    (∀ {id}, cx.arena.Avoids roots id →
      st'.table.assertions.get? id = st.table.assertions.get? id) ∧
    ∃ new, st'.events = new ++ st.events ∧ ∀ e ∈ new, ∃ p ∈ roots, cx.arena.Reach p e.node := by
  have hself : (Comparison.confined cx roots st).States (.upTo st.store.size) st st :=
    hst.like_self _ (fun _ => rfl) rfl (fun _ => rfl) ⟨[], rfl, fun _ he => nomatch he⟩
  rcases rel_cases (hm le_rfl hself) with ⟨hnone, -⟩ | ⟨_, _, hsome, -, _, -, hstates, -⟩
  · cases h.symm.trans hnone
  · cases h.symm.trans hsome
    exact ⟨hstates.table.kept, hstates.events⟩

/-! ## Functions -/

lemma propagateUsage_quiet (h : propagateUsage names cx st = some ((), st')) :
    st'.table = st.table ∧ st'.events = st.events := by
  replace h := bind_rest h rfl
  split at h
  · cases h
    exact ⟨rfl, rfl⟩
  · obtain ⟨-, rfl⟩ := of_pure h
    exact ⟨rfl, rfl⟩

lemma capture_quiet {line : Line} (h : capture line uses s cx st = some (s', st')) :
    st'.table = st.table ∧ st'.events = st.events := by
  induction uses generalizing s st with
  | nil =>
    obtain ⟨rfl, rfl⟩ := of_pure h
    exact ⟨rfl, rfl⟩
  | cons use uses ih =>
    obtain ⟨name, byRef⟩ := use
    cases byRef with
    | true =>
      obtain ⟨htable, hevents⟩ := ih h
      exact ⟨htable, hevents⟩
    | false =>
      obtain ⟨htable, hevents⟩ := ih h
      exact ⟨htable, hevents⟩

lemma Scope.leads_of_marks {σ τ : Store}
    (hslots : ∀ {name k}, s.slot? name = some k → t.slot? name = some k)
    (hflags : t.flags = s.flags)
    (hread : ∀ {name k}, W.names name → s.slot? name = some k →
      τ.read k = σ.read k ∨ τ.read k = { σ.read k with used := true }) :
    s.Leads W σ t τ := by
  refine ⟨fun {name v} hname hv => ?_, hflags ▸ .refl _⟩
  obtain ⟨k, hk, rfl⟩ := map_eq_some_iff.1 hv
  refine ⟨τ.read k, by rw [var?, hslots hk, map_some], ?_⟩
  rcases hread hname hk with h | h <;> rw [h]
  · exact .refl _
  · exact ⟨⟨fun _ => rfl, id, id⟩, fun _ => id⟩

lemma Event.not_reads_function (he : arena.expr? id = some e) (hown : e.isFunction = true) :
    ¬ event.Reads arena id name := by
  rintro ⟨visit, -, houter, hname⟩
  generalize visit.node = node at houter hname
  cases houter with
  | refl =>
    rw [varName?, he] at hname
    cases e with
    | closure | arrow => cases hname
    | _ => cases hown
  | expr he' hown' =>
    cases he.symm.trans he'
    cases hown.symm.trans hown'

/-- What the body of a function records is about its nodes, and besides, the function is left. -/
lemma passed_function {around ended : State} {entered : Scope} (hid : cx.arena.OnePath id)
    (he : cx.arena.expr? id = some e) (hown : e.isFunction = true)
    (hpending : Pending cx.arena [id] st) (hwf : (around.calling entered).Placed)
    (htable : around.table = st.table) (hevents : around.events = st.events)
    (hm : ∀ C : Comparison, (∀ c ∈ e.children, C.nodes c) → ∀ ρ, C.Self ρ m)
    (hbody : m cx (around.calling entered) = some (a, ended))
    (hmarks : propagateUsage names cx (ended.left id ended.stack.current around.stack) =
      some ((), st'))
    (hgrows : st.stack.current.Leads W st.store st'.stack.current st'.store) :
    Passed W cx.arena [] [id] st st' ∧ st'.table.assertions.get? id = none := by
  have hbelow : ∀ {p x}, p ∈ e.children → cx.arena.Reach p x → cx.arena.Reach id x :=
    fun hp hx => (Reach.child he hp).trans hx
  have hsilent : ∀ {x}, cx.arena.Reach id x → st.table.assertions.get? x = none :=
    hpending.silent id (.head _)
  obtain ⟨hrecords, new, hnew, hnodes⟩ := confined_run hwf
    (hm (.confined cx e.children _) (fun c hc => ⟨c, hc, .refl c⟩) _) hbody
  obtain ⟨htable', hevents'⟩ := propagateUsage_quiet hmarks
  have hkept : ∀ {x}, cx.arena.Avoids e.children x →
      st'.table.assertions.get? x = st.table.assertions.get? x := by
    intro x hx
    rw [htable', ← htable]
    exact hrecords hx
  refine ⟨⟨⟨fun _ havoids => hkept fun hsome p hp hx => ?_, ?_⟩, hgrows⟩, ?_⟩
  · exact havoids hsome id (.head _) (hbelow hp hx)
  · refine ⟨.left id (ended.stack.current.view ended.store) :: new, ?_, fun event hevent =>
      ⟨id, .head _, ?_, fun _ h => absurd h (Event.not_reads_function he hown)⟩⟩
    · rw [hevents', ← hevents]
      exact congrArg _ hnew
    · rcases mem_cons.1 hevent with rfl | hevent
      · exact .refl id
      · obtain ⟨p, hp, hreach⟩ := hnodes event hevent
        exact hbelow hp hreach
  · rw [hkept fun _ p hp => hid.not_reach_part (partsOf_of_expr? he ▸ hp)]
    exact hsilent (.refl id)

lemma passed_arrow {fn : ArrowExpr} (hid : cx.arena.OnePath id)
    (he : cx.arena.expr? id = some (.arrow fn)) (hpending : Pending cx.arena [id] st)
    (h : (evaluator n).inferArrow id fn cx st = some (type, st')) :
    Passed W cx.arena [] [id] st st' ∧ st'.table.assertions.get? id = none := by
  have hst := hpending.placed
  have hkeeps : (evaluator n).Keeps (fun _ => True) cx := evaluator_keeps_any n
  obtain ⟨hstack, hread⟩ := inferArrow_effect Ty.closed_true hkeeps hst h
  obtain ⟨entered, around, ended, hrun⟩ := inferArrow_stages Ty.closed_true hkeeps hst h
  obtain ⟨names, hmarks⟩ := hrun.marks
  obtain ⟨hwf, hcaptured⟩ := hrun.made.captured hst
  refine passed_function hid he rfl hpending (hwf.calling hcaptured) (by rw [hrun.made.rest])
    (by rw [hrun.made.rest])
    (fun C hC ρ => (C.evaluator n).visit (hC fn.body (by simp [Expr.children]))) hrun.visit hmarks ?_
  rw [hstack]
  exact leads_of_marks (fun hk => hk) rfl fun {name k} _ hk =>
    (hread k (hst.current.lt ⟨name, hk⟩)).imp_right And.right

lemma Gained.slot?_eq_some (h : Gained n uses s s') {k : Slot}
    (hk : s.slot? name = some k) : s'.slot? name = some k := by
  obtain ⟨new, -, hslot⟩ := h.slot?_eq
  rw [hslot, hk, some_or]

lemma passed_closure {fn : ClosureExpr} (hid : cx.arena.OnePath id)
    (he : cx.arena.expr? id = some (.closure fn))
    (huses : ∀ use ∈ fn.uses, use.byRef = true → ¬ W.names use.name)
    (hpending : Pending cx.arena [id] st)
    (h : (evaluator n).inferClosure id fn cx st = some (type, st')) :
    Passed W cx.arena [] [id] st st' ∧ st'.table.assertions.get? id = none := by
  have hst := hpending.placed
  obtain ⟨entered, around, ended, hrun⟩ :=
    inferClosure_stages Ty.closed_true (evaluator_keeps_any n) hst h
  obtain ⟨made, before, hmade, hcapture⟩ := hrun.capture
  obtain ⟨htable, hevents⟩ := capture_quiet hcapture
  obtain ⟨flow, hcheck⟩ := hrun.check
  obtain ⟨names, -, hmarks⟩ := hrun.marks
  refine passed_function hid he rfl hpending (hrun.wf.calling hrun.captured)
    (by rw [htable, hmade.rest]) (by rw [hevents, hmade.rest])
    (fun C hC ρ => (C.evaluator n).checkAll hC) hcheck hmarks ?_
  rw [hrun.stack_eq]
  refine leads_of_marks hrun.gained.slot?_eq_some hrun.gained.flags fun {name k} hname hk => ?_
  rcases hrun.effect (hst.current.lt ⟨name, hk⟩) with hread | ⟨a, ha, hslot⟩ | ⟨-, -, -, hread⟩
  · exact .inl hread
  · -- A variable of another name is another variable.
    obtain rfl := hst.current.placed.inj hslot hk
    exact absurd hname (huses _ ha rfl)
  · exact .inr hread

end Functions

open Analysis List Evaluator State Arena

/-! ## Parts -/

section Parts

variable (hid : arena.OnePath id) (he : arena.expr? id = some e)

include hid he

lemma PendingAt.of_pending (hpending : Pending arena [id] st) : PendingAt arena id e.children st where
  placed := hpending.placed
  silent _ hp _ hx := hpending.silent id (.head _) (.expr he hp hx)
  disjoint := partsOf_of_expr? he ▸ hid.pairwise_disjoint
  fresh := hpending.silent id (.head _) (.refl id)
  avoids _ _ hp := hid.not_reach_part (partsOf_of_expr? he ▸ hp)

lemma Event.Reads.part {p : NodeId} (hp : p ∈ e.children) (hreach : arena.Reach p event.node)
    (h : event.Reads arena id name) : event.Reads arena p name := by
  obtain ⟨visit, rfl, houter, hname⟩ := h
  refine ⟨visit, rfl, ?_, hname⟩
  replace hreach : arena.Reach p visit.node := hreach
  generalize visit.node = node at houter hname hreach
  have hnode : (arena.get? node).isSome = true :=
    get?_isSome_of_expr? (expr?_of_varName? hname)
  rw [← partsOf_of_expr? he] at hp
  cases houter with
  | refl => exact absurd hreach (hid.not_reach_part hp)
  | @expr _ child _ _ he' _ hchild hbelow =>
    rw [← partsOf_of_expr? he'] at hchild
    by_cases heq : child = p
    · exact heq ▸ hbelow
    · exact absurd hreach (hid.disjoint hchild hp heq node hnode hbelow.reach)

lemma Passes.whole (h : Passes W arena [id] e.children s st t st') :
    Passes W arena [] [id] s st t st' where
  records {x} _ havoids := by
    refine h.records (fun hx => ?_) fun hsome p hp hx => ?_
    · obtain rfl := mem_singleton.1 hx
      exact havoids (get?_isSome_of_expr? he) x hx (.refl x)
    · exact havoids hsome id (.head _) (.expr he hp hx)
  events := by
    obtain ⟨new, heq, hnew⟩ := h.events
    refine ⟨new, heq, fun event hevent => ?_⟩
    obtain ⟨p, hp, hreach, hreads⟩ := hnew event hevent
    exact ⟨id, .head _, .expr he hp hreach, fun name hname =>
      hreads name (hname.part hid he hp hreach)⟩
  grows := h.grows

end Parts

lemma Grows.of_parts (hid : cx.arena.OnePath id) (he : cx.arena.expr? id = some e)
    (hm : Grows W cx e.children m) : Grows W cx [id] m := by
  intro st a st' hpending h
  obtain ⟨hplaced, hpassed⟩ := hm (PendingAt.of_pending hid he hpending).toPending h
  exact ⟨hplaced, (hpassed.mono (nil_subset _) (Subset.refl _)).whole hid he⟩

/-! ## Rules -/

namespace Grower

variable {ev : Evaluator} (hev : Grower W cx ev) {operand expr : NodeId}

include hev

lemma settles_of_infer {f : Option Ty → Analysis α} (hoperand : cx.arena.PlainFor W operand)
    (hf : ∀ {type st a st'}, st.Placed → st.table.assertions.get? id = none →
      (cx.arena.FreeIn W operand → st.Implied W operand) → f type cx st = some (a, st') →
      Settled W cx.arena id st st') :
    Settles W cx id [operand] (ev.infer operand >>= f) := by
  intro st a st' hpending h
  obtain ⟨type, st1, hinfer, h⟩ := of_bind h
  obtain ⟨hst1, hpassed, himplied⟩ := hev.infer hoperand hpending.toPending hinfer
  have hsettled := hf hst1 (hpending.fresh_after hpassed) himplied h
  exact ⟨hsettled.placed, hpassed.trans (hsettled.passed hst1), hsettled.implied⟩

lemma inferSuppress (hexpr : cx.arena.PlainFor W expr)
    (hfree : cx.arena.FreeIn W id → cx.arena.FreeIn W expr) :
    Settles W cx id [expr] (ev.inferSuppress id expr) := by
  refine hev.settles_of_infer hexpr fun hst hfresh himplied h => ?_
  obtain ⟨⟨⟩, hforward, -⟩ := of_result h
  exact settled_forwardAssertions hst hfresh (himplied ∘ hfree) hforward

lemma inferNot (hoperand : cx.arena.PlainFor W operand)
    (hfree : cx.arena.FreeIn W id → cx.arena.FreeIn W operand) :
    Settles W cx id [operand] (ev.inferUnary id .not operand) := by
  refine hev.settles_of_infer hoperand fun hst hfresh himplied h => ?_
  obtain ⟨⟨⟩, hnegate, -⟩ := of_result h
  exact settled_negate hst hfresh hfree (himplied ∘ hfree) hnegate

lemma inferCastBool (hexpr : cx.arena.PlainFor W expr)
    (hfree : cx.arena.FreeIn W id → cx.arena.FreeIn W expr) :
    Settles W cx id [expr] (ev.inferCast id .bool expr) := by
  simp only [inferCast, visit, bind_assoc, pure_bind]
  refine hev.settles_of_infer hexpr fun hst hfresh himplied h => ?_
  obtain ⟨⟨⟩, hforward, -⟩ := of_result h
  exact settled_forwardAssertions hst hfresh (himplied ∘ hfree) hforward

lemma inferExpr (hid : cx.arena.PlainFor W id) (he : cx.arena.expr? id = some e)
    (hown : e.isFunction = false) : Settles W cx id e.children (ev.inferExpr id e) := by
  have h (c : NodeId) (hc : c ∈ e.children) : cx.arena.PlainFor W c := hid.part he hown hc
  have hfree (c : NodeId) (hc : c ∈ e.children) (hid : cx.arena.FreeIn W id) : cx.arena.FreeIn W c :=
    hid.part he hown hc
  have htests := hid.tests (.refl id) he
  by_cases hkeeps : e.keepsScope = true
  · exact hev.stepwise.inferExpr (Settles.concludes W cx id) (Ty.closed_true.nodeDeclaresIn _) hkeeps h
      (Expr.forall_args h) (Expr.forall_places h) hfree fun target ht name => hid.writes (.refl id) he ht
  · cases e with
    | ternary condition ifTrue ifFalse =>
      simp only [Expr.children, forall_mem_append, forall_mem_cons] at h
      exact .of_grows (hev.inferTernary h.1.1 (forall_mem_singleton.1 htests) h.1.2 h.2.1)
    | matchExpr subject arms =>
      have h := forall_mem_cons.1 h
      exact .of_grows (hev.inferMatch h.1 h.2 htests)
    | binary op left right =>
      have hl := h left (by simp [Expr.children])
      have hr := h right (by simp [Expr.children])
      have hright := hfree right (by simp [Expr.children])
      cases op with
      | boolAnd | logicalAnd =>
        exact hev.inferShort (b := true) hl (forall_mem_singleton.1 htests) hr hright
      | boolOr | logicalOr =>
        exact hev.inferShort (b := false) hl (forall_mem_singleton.1 htests) hr hright
      | _ => exact absurd rfl hkeeps
    | suppress expr =>
      exact hev.inferSuppress (forall_mem_singleton.1 h) (forall_mem_singleton.1 hfree)
    | unary op operand =>
      cases op with
      | not => exact hev.inferNot (forall_mem_singleton.1 h) (forall_mem_singleton.1 hfree)
      | _ => exact absurd rfl hkeeps
    | cast kind expr =>
      cases kind with
      | bool =>
        exact hev.inferCastBool (forall_mem_singleton.1 h) (forall_mem_singleton.1 hfree)
      | _ => exact absurd rfl hkeeps
    | closure _ | arrow _ => cases hown
    | _ => exact absurd rfl hkeeps

end Grower

/-! ## Nodes -/

/-- The evaluation is recorded when the node is left; if it reads a variable, the variable is marked
by then. -/
lemma passed_leaveNode {st1 : State} (type : Option Ty)
    (hpassed : Passed W cx.arena [] [id] (st.enterNode id) st1)
    (hread : ∀ name, cx.arena.varName? id = some name → st.stack.current.contains name = true →
      st1.stack.current.reads st1.store name = true) :
    Passed W cx.arena [] [id] st (st1.leaveNode id type) where
  records hx havoids := by
    rw [show (st1.leaveNode id type).table.assertions = st1.table.assertions by cases type <;> rfl]
    exact hpassed.records hx havoids
  events := by
    obtain ⟨new, heq, hnew⟩ := hpassed.events
    refine ⟨.visited (st1.visitOf id type) :: new, congrArg _ heq, forall_mem_cons.2 ⟨?_, hnew⟩⟩
    refine ⟨id, .head _, .refl id, ?_⟩
    rintro name ⟨visit, hvisit, -, hname⟩ hbound
    cases hvisit
    exact hread name hname hbound.2
  grows := hpassed.grows

namespace Grower

variable (hev : Grower W cx (evaluator n)) (hid : cx.arena.PlainFor W id)

include hev hid

lemma passed_inferExpr (he : cx.arena.expr? id = some e) (hpending : Pending cx.arena [id] st)
    (h : (evaluator n).inferExpr id e cx st = some (type, st')) :
    Passed W cx.arena [] [id] st st' ∧ (cx.arena.FreeIn W id → st'.Implied W id) := by
  cases hown : e.isFunction with
  | false =>
    obtain ⟨-, hpassed, himplied⟩ :=
      hev.inferExpr hid he hown (PendingAt.of_pending hid.onePath he hpending) h
    exact ⟨hpassed.whole hid.onePath he, himplied⟩
  | true =>
    cases e with
    | arrow fn =>
      obtain ⟨hpassed, hfresh⟩ := passed_arrow hid.onePath he hpending h
      exact ⟨hpassed, fun _ => implied_of_get? hfresh⟩
    | closure fn =>
      obtain ⟨hpassed, hfresh⟩ :=
        passed_closure hid.onePath he (hid.captures (.refl id) he) hpending h
      exact ⟨hpassed, fun _ => implied_of_get? hfresh⟩
    | _ => cases hown

lemma inferNode (hpending : Pending cx.arena [id] st)
    (h : (evaluator n).inferNode id cx st = some (type, st')) :
    st'.Placed ∧ Passed W cx.arena [] [id] st st' ∧ (cx.arena.FreeIn W id → st'.Implied W id) := by
  refine ⟨(((evaluator_keeps_any (n + 1)).infer id).step hpending.placed h).1.wf, ?_⟩
  have hstay (st : State) : Passed W cx.arena [] [id] st st :=
    (Passes.quiet (.refl ..) rfl rfl).mono (Subset.refl _) (nil_subset _)
  have hfresh : st.Implied W id :=
    implied_of_get? (hpending.silent id (.head _) (.refl id))
  have hpending0 : Pending cx.arena [id] (st.enterNode id) :=
    ⟨Wf.around hpending.placed, hpending.silent, hpending.disjoint⟩
  cases he : cx.arena.expr? id with
  | none =>
    have hnode : (evaluator n).inferNode id cx st = _ ∨ _ := inferNode_of_expr?_none he
    rcases hnode with heq | heq
    · cases h.symm.trans heq
      exact ⟨hstay st, fun _ => hfresh⟩
    · cases h.symm.trans heq
      refine ⟨passed_leaveNode none (hstay _) fun name hname => ?_, fun _ => hfresh⟩
      cases he.symm.trans (expr?_of_varName? hname)
  | some e =>
    rcases Nat.lt_or_ge st.depth cx.options.maxDepth.toNat with hdepth | hdepth
    · rw [inferNode_run he hdepth] at h
      obtain ⟨⟨_, st1⟩, hrun, h⟩ := Option.map_eq_some_iff.1 h
      cases h
      obtain ⟨hpassed, himplied⟩ := hev.passed_inferExpr hid he hpending0 hrun
      refine ⟨passed_leaveNode type hpassed fun name hname hbound => ?_, ?_⟩
      · cases he.symm.trans (expr?_of_varName? hname)
        exact reads_of_inferVar Ty.closed_true hpending0.placed hbound hrun
      · cases type <;> exact himplied
    · rw [inferNode_of_depth_le (.inr hdepth)] at h
      cases h
      exact ⟨hstay st, fun _ => hfresh⟩

end Grower

/-! ## Levels -/

lemma grower_evaluator (W : Watch) (cx : Context) (n : Nat) : Grower W cx (evaluator n) := by
  induction n with
  | zero =>
    refine ⟨evaluator_keeps_any 0, fun _ _ _ _ _ h => ?_, fun _ _ _ _ _ _ _ _ h => ?_,
      fun _ _ _ _ _ _ h => ?_, fun _ _ _ _ _ h => ?_⟩ <;> cases h
  | succ n ih =>
    have hparts {m : Analysis Unit} {id : NodeId} {e : Expr} (hid : cx.arena.PlainFor W id)
        (he : cx.arena.expr? id = some e) (hown : e.isFunction = false)
        (hm : (∀ c ∈ e.children, cx.arena.PlainFor W c) → (∀ c ∈ e.looseParts, cx.arena.PlainFor W c) →
          Grows W cx e.children m) : Grows W cx [id] m := by
      have hchildren (c : NodeId) (hc : c ∈ e.children) := hid.part he hown hc
      exact .of_parts hid.onePath he (hm hchildren (Expr.forall_looseParts hchildren))
    exact
      { keeps := evaluator_keeps_any (n + 1)
        infer := fun hid _ _ _ hpending h => ih.inferNode hid hpending h
        assign := fun hid _ htarget line =>
          ih.stepwise.assignTo (hparts hid) (ih.stepwise.infer hid) (fun _ _ => trivial) line htarget
        writeInto := fun hid => ih.stepwise.writeIntoBase (hparts hid) (ih.stepwise.infer hid)
        compact := fun hid => ih.stepwise.compactArg fun items he c hc =>
          hid.part he rfl (Expr.mem_children_of_item hc) }

/-- The evaluation of an expression comes to an end and loses nothing.  No node stands in the
expression twice, no closure in it captures by reference, and nothing is recorded of its nodes.  Then
the current scope has all names, marks and flags that it had; and a variable that was bound before,
and that is evaluated in the expression outside of functions, is marked as read. -/
theorem infer_loses_nothing (hst : st.Placed) (hid : cx.arena.Plain id)
    (hfresh : ∀ {below}, cx.arena.Reach id below → st.table.assertions.get? below = none) :
    (∀ n, 2 * (cx.arena.size + 1) ≤ n →
      ∃ type st', (evaluator n).infer id cx st = some (type, st')) ∧
    ∀ n type st', (evaluator n).infer id cx st = some (type, st') →
      st.stack.current.GrowsTo st.store st'.stack.current st'.store ∧
      ∃ new, st'.events = new ++ st.events ∧ ∀ e ∈ new, ∀ name, e.Reads cx.arena id name →
        st.stack.current.contains name = true → st'.stack.current.reads st'.store name = true := by
  constructor
  · intro n hn
    have hwalks := (walker_evaluator cx (Nat.le_refl _) hn).infer hid.onePath.endsWithin
    obtain ⟨type, st', h, -⟩ := @hwalks st
    exact ⟨type, st', h⟩
  · intro n type st' h
    have hpending : Pending cx.arena [id] st :=
      ⟨hst, forall_mem_singleton.2 hfresh, pairwise_singleton ..⟩
    obtain ⟨-, hpassed, -⟩ := (grower_evaluator .all cx n).infer hid.plainFor hpending h
    obtain ⟨new, heq, hnew⟩ := hpassed.events
    refine ⟨hpassed.grows.growsTo, new, heq, fun e he name hname hbound => ?_⟩
    obtain ⟨p, hp, -, hreads⟩ := hnew e he
    obtain rfl := mem_singleton.1 hp
    exact hreads name hname ⟨trivial, hbound⟩

/-- `$a = 1; $b = 1; $c = 1; $d = 1; $e = 1;`, where the statements are the nodes 3, 7, 11, 15 and 19,
and apart from these, as node 34, the expression
`f($a && $b ? $c : 1, match (true) { $d => throw $e, default => 2 }, fn () => $a)`. -/
def scatteredReads : Arena := Build.result do
  for name in ["a", "b", "c", "d", "e"] do
    let one ← Build.expr (.int 1)
    let _ ← Build.assignStmt name one
  let a ← Build.expr (.var "a")
  let b ← Build.expr (.var "b")
  let both ← Build.expr (.binary .boolAnd a b)
  let c ← Build.expr (.var "c")
  let one ← Build.expr (.int 1)
  let ternary ← Build.expr (.ternary both (some c) one)
  let subject ← Build.expr (.boolConst true)
  let d ← Build.expr (.var "d")
  let e ← Build.expr (.var "e")
  let throwing ← Build.expr (.throwExpr e)
  let two ← Build.expr (.int 2)
  let choice ← Build.expr (.matchExpr subject [⟨some [d], throwing⟩, ⟨none, two⟩])
  let inner ← Build.expr (.var "a")
  let arrow ← Build.expr (.arrow { params := [], body := inner })
  let _ ← Build.expr (.callNamed "f" [ternary, choice, arrow])
  return (← get).arena

theorem infer_loses_nothing_scatteredReads :
    scatteredReads.Plain 34 ∧ ∃ st, st.Placed ∧
      (∀ {below}, scatteredReads.Reach 34 below → st.table.assertions.get? below = none) ∧
      st.stack.current.reads st.store "e" = false ∧
      ∃ type st', (evaluator 72).infer 34 ⟨scatteredReads, {}, {}⟩ st = some (type, st') ∧
        st.stack.current.GrowsTo st.store st'.stack.current st'.store ∧
        st'.stack.current.reads st'.store "e" = true := by
  obtain ⟨nodes, hclosed, hroot, hvalue, hrun⟩ : ∃ nodes : List NodeId,
      scatteredReads.closedUnder nodes = true ∧ nodes.contains 34 = true ∧
      (nodes.all fun c => (scatteredReads.expr? c).all fun e => e.kindName != "Closure") = true ∧
      (((evaluator 9).checkAll [3, 7, 11, 15, 19] ⟨scatteredReads, {}, {}⟩
        (initial {})).any fun r =>
          nodes.all (fun c => (r.2.table.assertions.get? c).isNone) &&
          r.2.stack.current.contains "e" && !r.2.stack.current.reads r.2.store "e" &&
          r.2.events.all (fun e => e.node != 28) &&
          ((evaluator 72).infer 34 ⟨scatteredReads, {}, {}⟩ r.2).any fun r' =>
            r'.2.events.any fun e => e.evaluated? == some 28) = true :=
    ⟨[20, 21, 22, 23, 24, 25, 26, 27, 28, 29, 30, 31, 32, 33, 34], by decide +kernel,
      by decide +kernel, by decide +kernel, by decide +kernel⟩
  have htree : scatteredReads.IsTree 34 := by decide +kernel
  have hsize : 2 * (scatteredReads.size + 1) ≤ 72 := by decide +kernel
  have hname : scatteredReads.varName? 28 = some "e" := by decide +kernel
  have hpath : ([(34, 31), (31, 29), (29, 28)].all fun r => (scatteredReads.expr? r.1).any fun e =>
      !e.isFunction && e.children.contains r.2) = true := by decide +kernel
  -- The arena need not be looked into any further.
  generalize scatteredReads = arena at *
  have hnodes {below : NodeId} (h : arena.Reach 34 below) : below ∈ nodes :=
    h.mem_of_closed nodes hclosed (contains_iff_mem.1 hroot)
  have hplain : arena.Plain 34 := by
    refine ⟨htree.onePath, fun {c fn} houter hc => ?_⟩
    have hnone := all_eq_true.1 hvalue c (hnodes houter.reach)
    rw [hc, Option.all_some] at hnone
    cases hnone
  have houter : arena.Outer 34 28 := by
    simp only [all_cons, all_nil, Bool.and_true, Bool.and_eq_true, Option.any_eq_true,
      Bool.not_eq_true', contains_iff_mem] at hpath
    obtain ⟨⟨e₁, h₁, hown₁, hc₁⟩, ⟨e₂, h₂, hown₂, hc₂⟩, e₃, h₃, hown₃, hc₃⟩ := hpath
    exact .expr h₁ hown₁ hc₁ (.expr h₂ hown₂ hc₂ (.expr h₃ hown₃ hc₃ (.refl 28)))
  obtain ⟨⟨flow, st⟩, hwrites, hrun⟩ := (Option.any_eq_true ..).1 hrun
  simp only [Bool.and_eq_true, Bool.not_eq_true'] at hrun
  obtain ⟨⟨⟨⟨hsilent, hbound⟩, hunread⟩, hbefore⟩, hvisited⟩ := hrun
  have hev : (evaluator 9).Keeps (fun _ => True) ⟨arena, {}, {}⟩ := evaluator_keeps_any 9
  have hst : st.Placed := ((keeps_checkAll hev _).step
    (wf_initial Ty.closed_true {}) hwrites).1.wf
  have hfresh {below : NodeId} (h : arena.Reach 34 below) :
      st.table.assertions.get? below = none :=
    Option.isNone_iff_eq_none.1 (all_eq_true.1 hsilent below (hnodes h))
  obtain ⟨hends, hkeeps⟩ := @infer_loses_nothing ⟨arena, {}, {}⟩ 34 st hst hplain hfresh
  obtain ⟨type, st', hinfer⟩ := hends 72 hsize
  obtain ⟨hgrows, new, hevents, hreads⟩ := hkeeps 72 type st' hinfer
  refine ⟨hplain, st, hst, hfresh, hunread, type, st', hinfer, hgrows, ?_⟩
  rw [hinfer, Option.any_some, hevents] at hvisited
  obtain ⟨event, hevent, hnode⟩ := any_eq_true.1 hvisited
  cases event with
  | left => cases hnode
  | visited visit =>
    have hnode : visit.node = 28 := Option.some.inj (beq_iff_eq.1 hnode)
    have hnew : Event.visited visit ∈ new := (mem_append.1 hevent).resolve_right fun hold =>
      bne_iff_ne.1 (all_eq_true.1 hbefore _ hold) hnode
    exact hreads _ hnew "e" ⟨visit, rfl, hnode ▸ houter, hnode ▸ hname⟩ hbound

end FlowTyping

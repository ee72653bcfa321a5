import FlowTyping.Proofs.Analysis.Engine
import FlowTyping.Proofs.Analysis.Knowledge
import FlowTyping.Proofs.Ast.Paths
import FlowTyping.Proofs.Compare.Steps
import FlowTyping.Proofs.Growth.Scopes

/-!
# Steps that lose nothing

The evaluation of nodes that were not evaluated before, from a scope to a scope.
-/

namespace FlowTyping

open Analysis Assertions Judgement List Option Scope State Ty TypeJudgement

variable {r : Reference} {a : Assertions} {arena : Arena} {id : NodeId} {W : Watch} {e : Expr}
  {nodes own own' nodes' : List NodeId} {bound read : String → Prop} {st st1 st' : State}
  {s t : Scope} {α β : Type} {cx : Context} {m : Analysis α}

/-! ## Nodes -/

/-- The second node is the first one or stands in it, outside of functions. -/
inductive Arena.Outer (arena : Arena) : NodeId → NodeId → Prop
  | refl (id : NodeId) : Outer arena id id
  | expr {id child below : NodeId} {e : Expr} (h : arena.expr? id = some e)
    (hown : e.isFunction = false) (hchild : child ∈ e.children)
    (hbelow : Outer arena child below) : Outer arena id below

lemma Arena.Outer.reach {below : NodeId} (h : arena.Outer id below) : arena.Reach id below := by
  induction h with
  | refl id => exact .refl id
  | expr he _ hchild _ ih => exact .expr he hchild ih

/-- No node stands in the expression twice, and no closure captures by reference, unless it stands in
another function. -/
structure Arena.Plain (arena : Arena) (id : NodeId) : Prop where
  onePath : arena.OnePath id
  byValue : ∀ {c fn}, arena.Outer id c → arena.expr? c = some (.closure fn) →
    ∀ use ∈ fn.uses, use.byRef = false

/-- The conditions by whose outcome the evaluation goes on. -/
def Expr.conditions : Expr → List NodeId
  | .ternary condition _ _ => [condition]
  | .binary op left _ => if op.isShortCircuit then [left] else []
  | .matchExpr _ arms => arms.flatMap fun arm => arm.conditions.getD []
  | _ => []

/-- Every variable in the expression may be given a type. -/
def Arena.FreeIn (arena : Arena) (W : Watch) (id : NodeId) : Prop :=
  ∀ c name, arena.Outer id c → arena.expr? c = some (.var name) → W.Free name

/-- No node stands in the expression twice; and unless it stands in another function, no closure
captures by reference what is watched, and what may be given no type is neither written nor tested. -/
structure Arena.PlainFor (arena : Arena) (W : Watch) (id : NodeId) : Prop where
  onePath : arena.OnePath id
  captures : ∀ {c fn}, arena.Outer id c → arena.expr? c = some (.closure fn) →
    ∀ use ∈ fn.uses, use.byRef = true → ¬ W.names use.name
  writes : ∀ {c e target name}, arena.Outer id c → arena.expr? c = some e →
    e.target? = some target → arena.expr? target = some (.var name) → W.Free name
  tests : ∀ {c e}, arena.Outer id c → arena.expr? c = some e →
    ∀ condition ∈ e.conditions, arena.FreeIn W condition

lemma Arena.Plain.plainFor (h : arena.Plain id) : arena.PlainFor .all id where
  onePath := h.onePath
  captures hc hfn use huse href := by cases href.symm.trans (h.byValue hc hfn use huse)
  writes _ _ _ _ ht := ht.elim
  tests _ _ _ _ _ _ _ _ ht := ht.elim

section Parts

variable {child : NodeId} (he : arena.expr? id = some e) (hown : e.isFunction = false)
  (hpart : child ∈ e.children)

include he hown hpart

lemma Arena.FreeIn.part (h : arena.FreeIn W id) : arena.FreeIn W child :=
  fun c name hc => h c name (.expr he hown hpart hc)

lemma Arena.PlainFor.part (h : arena.PlainFor W id) : arena.PlainFor W child where
  onePath := h.onePath.of_part (Arena.partsOf_of_expr? he ▸ hpart)
  captures hc := h.captures (.expr he hown hpart hc)
  writes hc := h.writes (.expr he hown hpart hc)
  tests hc := h.tests (.expr he hown hpart hc)

end Parts

/-- The node is not below the nodes. -/
def Arena.Avoids (arena : Arena) (nodes : List NodeId) (id : NodeId) : Prop :=
  (arena.get? id).isSome = true → ∀ p ∈ nodes, ¬ arena.Reach p id

lemma Arena.Avoids.ne {p other : NodeId} (h : arena.Avoids nodes other) (hp : p ∈ nodes)
    (hreach : arena.Reach p id) (he : arena.expr? id = some e) : id ≠ other := by
  rintro rfl
  exact h (Arena.get?_isSome_of_expr? he) p hp hreach

/-- The event is the evaluation of a variable in `root`, outside of functions. -/
def Event.Reads (arena : Arena) (root : NodeId) (e : Event) (name : String) : Prop :=
  ∃ visit, e = .visited visit ∧ arena.Outer root visit.node ∧
    arena.varName? visit.node = some name

/-! ## Paths -/

/-- What was recorded is about the nodes `own` and those below `nodes`, and a name that is `bound` and
was read below `nodes` is `read`. -/
structure Accounted (arena : Arena) (own nodes : List NodeId) (bound read : String → Prop)
    (st st' : State) : Prop where
  records : ∀ {id}, id ∉ own → arena.Avoids nodes id →
    st'.table.assertions.get? id = st.table.assertions.get? id
  events : ∃ new, st'.events = new ++ st.events ∧ ∀ e ∈ new, ∃ p ∈ nodes,
    arena.Reach p e.node ∧ ∀ name, e.Reads arena p name → bound name → read name

namespace Accounted

variable {bound' read' : String → Prop}

lemma quiet (hrecords : st'.table.assertions = st.table.assertions)
    (hevents : st'.events = st.events) : Accounted arena own nodes bound read st st' :=
  ⟨fun _ _ => by rw [hrecords], [], hevents, fun _ he => nomatch he⟩

lemma mono (h : Accounted arena own nodes bound read st st') (hown : own ⊆ own')
    (hnodes : nodes ⊆ nodes') (hbound : ∀ name, bound' name → bound name)
    (hread : ∀ name, bound' name → read name → read' name) :
    Accounted arena own' nodes' bound' read' st st' := by
  refine ⟨fun hid havoids => h.records (mt (@hown _) hid) fun hsome p hp =>
    havoids hsome p (hnodes hp), ?_⟩
  obtain ⟨new, heq, hnew⟩ := h.events
  refine ⟨new, heq, fun e he => ?_⟩
  obtain ⟨p, hp, hreach, hreads⟩ := hnew e he
  exact ⟨p, hnodes hp, hreach, fun name hname hb => hread name hb (hreads name hname (hbound name hb))⟩

lemma trans (h : Accounted arena own nodes bound read st st1)
    (h' : Accounted arena own' nodes' bound read st1 st') :
    Accounted arena (own ++ own') (nodes ++ nodes') bound read st st' := by
  constructor
  · intro id hid havoids
    rw [mem_append, not_or] at hid
    rw [h'.records hid.2 fun hsome p hp => havoids hsome p (mem_append_right _ hp),
      h.records hid.1 fun hsome p hp => havoids hsome p (mem_append_left _ hp)]
  · obtain ⟨new, heq, hnew⟩ := h.events
    obtain ⟨new', heq', hnew'⟩ := h'.events
    refine ⟨new' ++ new, by rw [heq', heq, append_assoc], fun e he => ?_⟩
    rcases mem_append.1 he with he | he
    · obtain ⟨p, hp, hrest⟩ := hnew' e he
      exact ⟨p, mem_append_right _ hp, hrest⟩
    · obtain ⟨p, hp, hrest⟩ := hnew e he
      exact ⟨p, mem_append_left _ hp, hrest⟩

lemma extend (h : Accounted arena own nodes bound read st st1)
    (hrecords : st'.table.assertions = st1.table.assertions) (hevents : st'.events = st1.events) :
    Accounted arena own nodes bound read st st' := by
  refine ⟨fun hid havoids => by rw [hrecords, h.records hid havoids], ?_⟩
  rw [hevents]
  exact h.events

end Accounted

/-- From the scope `s` to the scope `t`: the nodes were evaluated, `t` has what `s` has, and the
watched names of `s` that were read are marked in `t`. -/
structure Passes (W : Watch) (arena : Arena) (own nodes : List NodeId) (s : Scope) (st : State) (t : Scope)
    (st' : State) : Prop extends
    Accounted arena own nodes (fun name => W.names name ∧ s.contains name = true)
      (fun name => t.reads st'.store name = true) st st' where
  grows : s.Leads W st.store t st'.store

namespace Passes

variable {s' u : Scope}

lemma quiet (hgrows : s.Leads W st.store t st'.store)
    (hrecords : st'.table.assertions = st.table.assertions) (hevents : st'.events = st.events) :
    Passes W arena [] [] s st t st' :=
  ⟨.quiet hrecords hevents, hgrows⟩

lemma join (h : Passes W arena own nodes s st t st1) (h' : Passes W arena own' nodes' s' st1 u st')
    (hs : s.Leads W st.store s' st1.store) (hu : t.Leads W st1.store u st'.store) :
    Passes W arena (own ++ own') (nodes ++ nodes') s st u st' where
  toAccounted :=
    (h.toAccounted.mono (Subset.refl _) (Subset.refl _) (fun _ => id)
      fun _ hb => hu.reads hb.1).trans
      (h'.toAccounted.mono (Subset.refl _) (Subset.refl _)
        (fun _ hb => ⟨hb.1, hs.contains hb.1 hb.2⟩) fun _ _ => id)
  grows := hs.trans h'.grows

lemma trans (h : Passes W arena own nodes s st t st1) (h' : Passes W arena own' nodes' t st1 u st') :
    Passes W arena (own ++ own') (nodes ++ nodes') s st u st' :=
  h.join h' h.grows h'.grows

lemma mono (h : Passes W arena own nodes s st t st') (hown : own ⊆ own') (hnodes : nodes ⊆ nodes') :
    Passes W arena own' nodes' s st t st' :=
  ⟨h.toAccounted.mono hown hnodes (fun _ => id) fun _ _ => id, h.grows⟩

lemma extend (h : Passes W arena own nodes s st t st1) (hgrows : t.Leads W st1.store u st'.store)
    (hrecords : st'.table.assertions = st1.table.assertions) (hevents : st'.events = st1.events) :
    Passes W arena own nodes s st u st' where
  toAccounted := (h.toAccounted.mono (Subset.refl _) (Subset.refl _) (fun _ => id)
    fun _ hb => hgrows.reads hb.1).extend hrecords hevents
  grows := h.grows.trans hgrows

lemma congr {st2 st2' : State} (h : Passes W arena own nodes s st t st')
    (hs : s.Leads W st2.store s st.store) (ht : t.Leads W st'.store t st2'.store)
    (hrecords : st.table.assertions = st2.table.assertions) (hevents : st.events = st2.events)
    (hrecords' : st2'.table.assertions = st'.table.assertions)
    (hevents' : st2'.events = st'.events) : Passes W arena own nodes s st2 t st2' :=
  ((quiet hs hrecords hevents).trans h).extend ht hrecords' hevents'

end Passes

/-! ## Steps -/

/-- The scopes of the state are placed, nothing is recorded below the nodes, and no node is below two
of them. -/
structure Pending (arena : Arena) (nodes : List NodeId) (st : State) : Prop where
  placed : st.Placed
  silent : ∀ p ∈ nodes, ∀ {id}, arena.Reach p id → st.table.assertions.get? id = none
  disjoint : nodes.Pairwise arena.Disjoint

/-- Between the current scopes of two states. -/
abbrev Passed (W : Watch) (arena : Arena) (own nodes : List NodeId) (st st' : State) : Prop :=
  Passes W arena own nodes st.stack.current st st'.stack.current st'

namespace Pending

lemma subperm (h : Pending arena nodes st) (hle : nodes'.Subperm nodes) :
    Pending arena nodes' st where
  placed := h.placed
  silent p hp := h.silent p (hle.subset hp)
  disjoint := by
    obtain ⟨l, hperm, hsublist⟩ := hle
    exact (h.disjoint.sublist hsublist).perm hperm .symm

lemma left (h : Pending arena (nodes ++ nodes') st) : Pending arena nodes st :=
  h.subperm (sublist_append_left ..).subperm

lemma after (h : Pending arena (nodes ++ nodes') st) (hplaced : st'.Placed)
    (haccounted : Accounted arena [] nodes bound read st st') : Pending arena nodes' st' where
  placed := hplaced
  silent p hp id hid := by
    rw [haccounted.records (not_mem_nil) fun hsome q hq hreach => ?_]
    · exact h.silent p (mem_append_right _ hp) hid
    · exact (pairwise_append.1 h.disjoint).2.2 q hq p hp id hsome hreach hid
  disjoint := (pairwise_append.1 h.disjoint).2.1

end Pending

/-- The step passes through the nodes. -/
def Grows (W : Watch) (cx : Context) ⦃α : Type⦄ (nodes : List NodeId) (m : Analysis α) : Prop :=
  ∀ ⦃st a st'⦄, Pending cx.arena nodes st → m cx st = some (a, st') →
    st'.Placed ∧ Passed W cx.arena [] nodes st st'

/-- The outcomes of the condition have what the current scope has. -/
def State.Implied (st : State) (W : Watch) (id : NodeId) : Prop :=
  ∀ {outcome s}, st.assumed id outcome = some s →
    st.stack.current.Leads W st.store s st.store

lemma State.implied_of_get? (h : st.table.assertions.get? id = none) : st.Implied W id := by
  intro outcome s hs
  rw [assumed_eq_none h] at hs
  cases hs

/-- Nothing is recorded of the node, which is not below the nodes. -/
structure PendingAt (arena : Arena) (id : NodeId) (nodes : List NodeId) (st : State) : Prop
    extends Pending arena nodes st where
  fresh : st.table.assertions.get? id = none
  avoids : arena.Avoids nodes id

/-- The step passes through the nodes and may attach a test to the node `id`. -/
def Settles (W : Watch) (cx : Context) (id : NodeId) ⦃α : Type⦄ (nodes : List NodeId)
    (m : Analysis α) : Prop :=
  ∀ ⦃st a st'⦄, PendingAt cx.arena id nodes st → m cx st = some (a, st') →
    st'.Placed ∧ Passed W cx.arena [id] nodes st st' ∧ (cx.arena.FreeIn W id → st'.Implied W id)

namespace PendingAt

lemma subperm (h : PendingAt arena id nodes st) (hle : nodes'.Subperm nodes) :
    PendingAt arena id nodes' st :=
  ⟨h.toPending.subperm hle, h.fresh, fun hsome p hp => h.avoids hsome p (hle.subset hp)⟩

lemma left (h : PendingAt arena id (nodes ++ nodes') st) : PendingAt arena id nodes st :=
  h.subperm (sublist_append_left ..).subperm

lemma fresh_after (h : PendingAt arena id nodes st) (hpasses : Passes W arena [] nodes s st t st') :
    st'.table.assertions.get? id = none := by
  rw [hpasses.records not_mem_nil h.avoids]
  exact h.fresh

lemma after (h : PendingAt arena id (nodes ++ nodes') st) (hplaced : st'.Placed)
    (hpasses : Passes W arena [] nodes s st t st') : PendingAt arena id nodes' st' where
  toPending := h.toPending.after hplaced hpasses.toAccounted
  fresh := h.left.fresh_after hpasses
  avoids hsome p hp := h.avoids hsome p (mem_append_right _ hp)

end PendingAt

namespace Grows

variable {f : α → Analysis β}

lemma mono (hm : Grows W cx nodes m) (hle : nodes.Subperm nodes') : Grows W cx nodes' m := by
  intro st a st' hpending h
  obtain ⟨hplaced, hpassed⟩ := hm (hpending.subperm hle) h
  exact ⟨hplaced, hpassed.mono (Subset.refl _) hle.subset⟩

lemma pure {a : α} : Grows W cx [] (Pure.pure a) := by
  intro st b st' hpending h
  cases h
  exact ⟨hpending.placed, .quiet (.refl ..) rfl rfl⟩

lemma bind (hm : Grows W cx nodes m) (hf : ∀ a, Grows W cx nodes' (f a)) :
    Grows W cx (nodes ++ nodes') (m >>= f) := by
  intro st b st' hpending h
  obtain ⟨a, st1, h1, h2⟩ := of_bind h
  obtain ⟨hplaced1, hpassed1⟩ := hm hpending.left h1
  obtain ⟨hplaced2, hpassed2⟩ := hf a (hpending.after hplaced1 hpassed1.toAccounted) h2
  exact ⟨hplaced2, hpassed1.trans hpassed2⟩

lemma onScope {f : Scope → Store → Scope × Store} (hf : ScopeWrite (fun _ => True) W.Free f) :
    Grows W cx [] (Analysis.onScope f) := by
  have hgrows : ∀ {s : Scope} {σ : Store}, s.Wf (fun _ => True) σ →
      s.Leads W σ (f s σ).1 (f s σ).2 := by
    intro s σ hs
    cases hf with
    | assign name _ hname line => exact leads_assign hs name (fun h _ => hname h) line
    | element name line =>
      dsimp only
      split
      · exact leads_markWritten hs name line
      · next hunbound => exact leads_assign hs name (fun _ h => absurd h hunbound) line
    | chain key _ => exact leads_setChain key _
    | used name => exact leads_markUsed hs name
    | shared name => exact leads_markByReference hs name
    | dynamic => exact leads_markDynamic
  intro st a st' hpending h
  have hkeeps : Keeps _ cx (Analysis.onScope f) _ :=
    keeps_onScope fun _ _ => hf.change closed_true.toStable
  have hstep := (hkeeps.step hpending.placed h).1
  obtain ⟨-, rfl⟩ := h
  refine ⟨hstep.wf, .quiet ?_ rfl rfl⟩
  rw [Stack.current_setCurrent]
  exact hgrows hpending.placed.current

end Grows

/-- An analysis in which what is watched is given no type. -/
abbrev Contexts.watching (W : Watch) (cx : Context) : Contexts where
  __ := Contexts.of cx
  assigned := W.Free
  free := cx.arena.FreeIn W
  assigned_of_free h := h _ _ (.refl _)

lemma Grows.sequential (W : Watch) (cx : Context) :
    Sequential (fun _ => True) (.watching W cx) (typed (Grows W cx)) where
  stable := closed_true.toStable
  declares := Context.declaresIn_true _
  mono := mono
  pure _ _ _ _ hpending h := pure hpending h
  bind hm hf := bind hm fun a => hf a (Result.in_true _ a)
  reads _ _ _ _ _ hm _ hf st _ _ hpending h :=
    hf st st.shows_true hpending ((hm _ _ ⟨rfl, rfl⟩ st).symm.trans h)
  onScope := onScope

/-! ## Tests -/

section Adds

variable {P : Ty → Prop} (h : Adds st st') (hs : s.Wf P st.store)

include h hs

lemma Adds.leads : s.Leads W st.store s st'.store :=
  .of_var?_eq (h.var?_eq hs) rfl

lemma Adds.leads_back : s.Leads W st'.store s st.store :=
  .of_var?_eq (fun name => (h.var?_eq hs name).symm) rfl

end Adds

/-- A test at the node: all scopes stay as they are, and the outcomes have what the current scope
has. -/
structure Settled (W : Watch) (arena : Arena) (id : NodeId) (st st' : State) : Prop where
  placed : st'.Placed
  adds : Adds st st'
  others : ∀ other, other ≠ id → st'.table.assertions.get? other = st.table.assertions.get? other
  implied : arena.FreeIn W id → st'.Implied W id

namespace Settled

lemma refl (hplaced : st.Placed) (hfresh : st.table.assertions.get? id = none) :
    Settled W arena id st st :=
  ⟨hplaced, .refl st, fun _ _ => rfl, fun _ => implied_of_get? hfresh⟩

lemma passed (h : Settled W arena id st st') (hst : st.Placed) : Passed W arena [id] [] st st' where
  records hother _ := h.others _ (mt mem_singleton.2 hother)
  events := ⟨[], h.adds.events, fun _ he => nomatch he⟩
  grows := by
    rw [h.adds.stack]
    exact h.adds.leads hst.current

lemma setAssertions (hadds : Adds st st1) (hplaced : st1.Placed)
    (htable : st1.table.assertions = st.table.assertions)
    (hwf : ∀ s ∈ a.scopes, s.Wf (fun _ => True) st1.store)
    (hgrows : arena.FreeIn W id → ∀ outcome s, a.on outcome = some s →
      st1.stack.current.Leads W st1.store s st1.store) :
    Settled W arena id st { st1 with table := st1.table.setAssertions id a } where
  placed := (Step.of_table (n := 0) hplaced (hplaced.table.setAssertions hwf)).wf
  adds := hadds.trans ⟨rfl, rfl, rfl, rfl, le_rfl, fun _ _ => rfl⟩
  others other hother := by
    rw [NodeTable.get?_setAssertions, if_neg hother.symm, htable]
  implied hfree outcome s hs :=
    hgrows hfree outcome s (assumed_setAssertions st1 id a outcome ▸ hs)

end Settled

section Tests

variable {node source : NodeId} {type : Option Ty}

lemma leads_narrowedScope {define : Bool} {line : Line} (hst : st.Placed)
    (hr : (Contexts.watching W cx).Tests r)
    (h : narrowedScope r type define line cx st = some (some s, st')) :
    st.stack.current.Leads W st.store s st'.store := by
  rcases narrowedScope_cases h with ⟨hs, rfl⟩ | ⟨hs, -⟩
  · obtain rfl := some.inj hs
    exact (leads_fork hst.current).trans
      (leads_narrowIn (wf_fork hst.current) hr type define line)
  · cases hs

lemma settled_attachNarrowing {result : Narrowing} {defines : Defines} (hst : st.Placed)
    (hfresh : st.table.assertions.get? node = none)
    (hr : cx.arena.FreeIn W node → (Contexts.watching W cx).Tests r)
    (h : attachNarrowing node r result defines cx st = some ((), st'))
    : Settled W cx.arena node st st' := by
  have hany : ∀ type : Option Ty, KnownIn (fun _ => True) type := fun _ _ _ => trivial
  rcases attachNarrowing_cases h with rfl | ⟨line, whenTrue, st1, whenFalse, st2, h1, h2, rfl⟩
  · exact .refl hst hfresh
  · have hG : (giving (fun _ => True) cx).Holding (fun _ => True) cx :=
      giving_holding closed_true.toStable
    have hst1 := (hG.narrowedScope r (hany _) _ _ [] hst le_rfl .nil h1).1.wf
    have hst2 := (hG.narrowedScope r (hany _) _ _ [] hst1 le_rfl .nil h2).1.wf
    obtain ⟨hadds1, htable1, htrue⟩ := narrowedScope_spec hst (hany _) h1
    obtain ⟨hadds2, htable2, hfalse⟩ := narrowedScope_spec hst1 (hany _) h2
    refine .setAssertions (hadds1.trans hadds2) hst2 (by rw [htable2, htable1]) (fun s hs => ?_) ?_
    · rcases mem_append.1 hs with hs | hs
      · exact (htrue s (mem_toList.1 hs)).1.mono hadds2.size_le
      · exact (hfalse s (mem_toList.1 hs)).1
    · intro hfree outcome s hs
      rw [hadds2.stack]
      refine (hadds2.leads_back hst1.current).trans ?_
      cases outcome with
      | false =>
        obtain rfl : whenFalse = some s := hs
        exact leads_narrowedScope hst1 (hr hfree) h2
      | true =>
        obtain rfl : whenTrue = some s := hs
        rw [hadds1.stack]
        refine (hadds1.leads_back hst.current).trans ((leads_narrowedScope hst (hr hfree) h1).trans ?_)
        exact hadds2.leads (htrue s rfl).1

/-- The copies of what one condition implies are attached to another one; `g` may exchange the
outcomes. -/
lemma settled_forkAssertions {copy : Assertions} (g : Assertions → Assertions)
    (exchange : Bool → Bool) (hst : st.Placed)
    (himplied : cx.arena.FreeIn W node → st.Implied W source)
    (ha : st.table.assertions.get? source = some a)
    (hg : ∀ a outcome, (g a).on outcome = a.on (exchange outcome))
    (hscopes : ∀ a, ∀ s ∈ (g a).scopes, s ∈ a.scopes)
    (hcopy : onStore a.fork cx st = some (copy, st1)) :
    Settled W cx.arena node st { st1 with table := st1.table.setAssertions node (g copy) } := by
  have hwf := hst.table.of_get? ha
  obtain ⟨hadds, htable, -⟩ := forkAssertions_known hwf hcopy
  obtain ⟨hstep, hheld⟩ := held_forkAssertions hst (Nat.zero_le _) .nil hwf
  obtain ⟨rfl, rfl⟩ := Prod.mk.inj (some.inj hcopy)
  rw [append_nil] at hheld
  refine .setAssertions hadds hstep.wf (by rw [htable])
    (fun s hs => hheld.wf s (hscopes _ s hs)) fun hfree outcome t ht => ?_
  rw [hg] at ht
  obtain ⟨s, hs, hgrows⟩ := leads_forkAssertions hwf ht
  have hassumed : st.assumed source (exchange outcome) = some s := by
    rw [State.assumed, ha]
    exact hs
  exact (hadds.leads_back hst.current).trans ((himplied hfree hassumed).trans hgrows)

lemma settled_forwardAssertions (hst : st.Placed) (hfresh : st.table.assertions.get? node = none)
    (himplied : cx.arena.FreeIn W node → st.Implied W source)
    (h : forwardAssertions source node cx st = some ((), st'))
    : Settled W cx.arena node st st' := by
  replace h := bind_rest h rfl
  cases ha : st.table.assertions.get? source with
  | none =>
    rw [ha] at h
    obtain ⟨-, rfl⟩ := of_pure h
    exact .refl hst hfresh
  | some a =>
    rw [ha] at h
    obtain ⟨copy, st1, hcopy, h⟩ := of_bind h
    cases h
    exact settled_forkAssertions id id hst himplied ha (fun _ _ => rfl)
      (fun _ _ hs => hs) hcopy

lemma settled_negate {operand : NodeId} (hst : st.Placed)
    (hfresh : st.table.assertions.get? node = none)
    (hfree : cx.arena.FreeIn W node → cx.arena.FreeIn W operand)
    (himplied : cx.arena.FreeIn W node → st.Implied W operand)
    (h : Evaluator.negate node operand type cx st = some ((), st'))
    : Settled W cx.arena node st st' := by
  rcases negate_cases h with ⟨a, copy, st1, ha, hcopy, rfl⟩ | rfl | ⟨r, hr, h⟩
  · exact settled_forkAssertions swapped not hst himplied ha on_swapped
      (fun a s hs => mem_append.2 (mem_append.1 hs).symm) hcopy
  · exact .refl hst hfresh
  · exact settled_attachNarrowing hst hfresh (fun hnode =>
      (Contexts.watching W cx).tests_of_free (hfree hnode) hr) h

end Tests

namespace Settles

variable {f : α → Analysis β}

lemma mono (hm : Settles W cx id nodes m) (hle : nodes.Subperm nodes') :
    Settles W cx id nodes' m := by
  intro st a st' hpending h
  obtain ⟨hplaced, hpassed, himplied⟩ := hm (hpending.subperm hle) h
  exact ⟨hplaced, hpassed.mono (Subset.refl _) hle.subset, himplied⟩

lemma of_grows (hm : Grows W cx nodes m) : Settles W cx id nodes m := by
  intro st a st' hpending h
  obtain ⟨hplaced, hpassed⟩ := hm hpending.toPending h
  exact ⟨hplaced, hpassed.mono (nil_subset _) (Subset.refl _),
    fun _ => implied_of_get? (hpending.fresh_after hpassed)⟩

lemma bind (hm : Grows W cx nodes m) (hf : ∀ a, Settles W cx id nodes' (f a)) :
    Settles W cx id (nodes ++ nodes') (m >>= f) := by
  intro st b st' hpending h
  obtain ⟨a, st1, h1, h2⟩ := of_bind h
  obtain ⟨hplaced1, hpassed1⟩ := hm hpending.toPending.left h1
  obtain ⟨hplaced2, hpassed2, himplied⟩ := hf a (hpending.after hplaced1 hpassed1) h2
  exact ⟨hplaced2, hpassed1.trans hpassed2, himplied⟩

lemma result (hm : Settles W cx id nodes m) (g : α → β) :
    Settles W cx id nodes (m >>= fun a => pure (g a)) := by
  intro st b st' hpending h
  obtain ⟨a, h1, -⟩ := of_result h
  exact hm hpending h1

lemma attachNarrowing (hr : cx.arena.FreeIn W id → (Contexts.watching W cx).Tests r)
    (result : Narrowing) (defines : Defines) :
    Settles W cx id [] (attachNarrowing id r result defines) := by
  intro st a st' hpending h
  have hsettled := settled_attachNarrowing hpending.placed hpending.fresh hr h
  exact ⟨hsettled.placed, hsettled.passed hpending.placed, hsettled.implied⟩

lemma concludes (W : Watch) (cx : Context) (id : NodeId) :
    Concludes (fun _ => True) (.watching W cx) id (typed (Grows W cx))
      (typed (Settles W cx id)) where
  seen := trivial
  of := of_grows
  mono := mono
  bind hm hf := bind hm fun a => hf a (Result.in_true _ a)
  reads _ _ _ _ _ hm _ hf st _ _ hpending h :=
    hf st st.shows_true hpending ((hm _ _ ⟨rfl, rfl⟩ st).symm.trans h)
  result hm _ := result hm _
  attachNarrowing _ _ hr _ := attachNarrowing hr _

end Settles

end FlowTyping

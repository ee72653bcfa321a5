import FlowTyping.Proofs.Analysis.Tests
import FlowTyping.Proofs.Compare.Scopes

/-!
# Two analyses step by step

What is known of one analysis can be carried to another one that differs from it in what does not
matter: in options that nothing depends on, in the order of declarations, in the nodes around, in
copies made before.

**Steps.**  `Comparison.Sim`: run from like states, two steps both run out of budget, or lead to like
states under a larger matching, with results that are related there.  It composes by `Sim.bind`;
`Comparison.Same` is the case of steps with the same result.  Every step is like itself.
-/

namespace FlowTyping

open List NodeTable Option Scope

variable {k k' : Stack} {s : Scope} {id : NodeId} {a' : Assertions}

/-- The node that an event is about. -/
def Event.node : Event → NodeId
  | .visited visit => visit.node
  | .left function _ => function

/-- The events say the same; the nodes around need only be related. -/
inductive Event.Like (exact : Exactness) (around : NodeId → NodeId → Prop) : Event → Event → Prop
  | visited {v w : Visit} (node : v.node = w.node) (type : v.type = w.type)
    (ancestors : Forall₂ around v.ancestors w.ancestors) (cls : v.cls = w.cls)
    (scope : v.scope.Like exact w.scope) : Like exact around (.visited v) (.visited w)
  | left (function : NodeId) {v w : ScopeView} (scope : v.Like exact w) :
    Like exact around (.left function v) (.left function w)

lemma Event.Like.eq {e e' : Event} (h : e.Like .full Eq e') : e = e' := by
  cases h with
  | left function hscope => rw [hscope.eq]
  | @visited v w hnode htype hancestors hcls hscope =>
    rw [forall₂_eq_eq_eq] at hancestors
    have hviews := hscope.eq
    cases v
    cases w
    subst hnode htype hancestors hcls hviews
    rfl

/-! ## Comparisons -/

/-- Two analyses of one file, and what is asked of them. -/
structure Comparison where
  arena : Arena
  leftIndex : Index
  rightIndex : Index
  leftOptions : Options
  rightOptions : Options
  /-- What has to be the same besides types and names. -/
  exact : Exactness
  /-- The nodes that are evaluated. -/
  nodes : NodeId → Prop
  /-- The nodes that may be around on the two sides. -/
  around : NodeId → NodeId → Prop
  /-- What is asked of the types of nodes. -/
  types : IdMap Ty → IdMap Ty → Prop
  /-- What is asked of conditions besides that they are alike at the nodes that are evaluated. -/
  kept : IdMap Assertions → IdMap Assertions → Prop
  /-- What is asked of the records. -/
  events : List Event → List Event → Prop
  index_same : leftIndex.Same rightIndex
  maxDepth_eq : leftOptions.maxDepth = rightOptions.maxDepth
  narrowLooseNull_eq : leftOptions.narrowLooseNull = rightOptions.narrowLooseNull
  superglobals_eq : leftOptions.superglobals = rightOptions.superglobals
  propagate : MarksLike exact leftOptions.propagateClosureUsage rightOptions.propagateClosureUsage
  nodes_expr : ∀ {id e}, nodes id → arena.expr? id = some e → ∀ c ∈ e.children, nodes c
  nodes_stmt : ∀ {id stmt}, nodes id → arena.stmt? id = some stmt → ∀ c ∈ stmt.allParts, nodes c
  around_self : ∀ {id}, nodes id → around id id
  around_expects : ∀ {p q id}, around p q → nodes id →
    arena.expectsBool p id = arena.expectsBool q id
  types_get : ∀ {m m' id}, types m m' → nodes id → m.get? id = m'.get? id
  types_insert : ∀ {m m' id} (t : Ty), types m m' → nodes id → types (m.insert id t) (m'.insert id t)
  kept_insert : ∀ {m m' id} {a a' : Assertions}, kept m m' → nodes id →
    (arena.expr? id).isSome = true → a.isEmpty = false → a'.isEmpty = false →
    kept (m.insert id a) (m'.insert id a')
  kept_erase : ∀ {m m' id}, kept m m' → nodes id →
    (arena.expr? id).isSome = true → kept (m.erase id) (m'.erase id)
  events_cons : ∀ {es es' e e'}, events es es' → nodes e.node → e.Like exact around e' →
    events (e :: es) (e' :: es')

namespace Comparison

open Analysis

variable (C : Comparison)

/-- What the left analysis reads. -/
def left : Context :=
  ⟨C.arena, C.leftIndex, C.leftOptions⟩

/-- What the right analysis reads. -/
def right : Context :=
  ⟨C.arena, C.rightIndex, C.rightOptions⟩

lemma left_arena : C.left.arena = C.arena := rfl

lemma right_arena : C.right.arena = C.arena := rfl

/-- An expression that is evaluated; what it implies may be recorded. -/
def Tested (id : NodeId) : Prop :=
  C.nodes id ∧ (C.arena.expr? id).isSome = true

/-- Both analyses stand at the same place, up to the nodes around. -/
structure Stacks (ρ : Matching) (k k' : Stack) : Prop where
  root : k.root.Like C.exact ρ k'.root
  nested : AllLike C.exact ρ k.nested k'.nested
  classes : k.classes = k'.classes
  ancestors : Forall₂ C.around k.ancestors k'.ancestors

/-- The same is known of the nodes that are evaluated. -/
structure Tables (ρ : Matching) (t t' : NodeTable) : Prop where
  types : C.types t.types t'.types
  assertions : ∀ {id}, C.nodes id →
    Rel (Assertions.Like C.exact ρ) (t.assertions.get? id) (t'.assertions.get? id)
  kept : C.kept t.assertions t'.assertions

/-- The states are alike. -/
structure States (ρ : Matching) (st st' : State) : Prop where
  store : st.store.Like C.exact ρ st'.store
  stack : C.Stacks ρ st.stack st'.stack
  table : C.Tables ρ st.table st'.table
  breaks : Forall₂ (AllLike C.exact ρ) st.breaks st'.breaks
  depth : st.depth = st'.depth
  events : C.events st.events st'.events

variable {C} {ρ ρ' : Matching} {α β α' β' : Type}

namespace Stacks

variable {t : Scope} (h : C.Stacks ρ k k')

include h

lemma mono (hle : ρ ≤ ρ') : C.Stacks ρ' k k' :=
  ⟨h.root.mono hle, AllLike.mono h.nested hle, h.classes, h.ancestors⟩

lemma current : k.current.Like C.exact ρ k'.current := by
  cases k
  cases k'
  cases h.nested with
  | nil => exact h.root
  | cons hinner _ => exact hinner

lemma setCurrent (hst : s.Like C.exact ρ t) : C.Stacks ρ (k.setCurrent s) (k'.setCurrent t) := by
  cases k
  cases k'
  cases h.nested with
  | nil => exact ⟨hst, .nil, h.classes, h.ancestors⟩
  | cons _ houter => exact ⟨h.root, .cons hst houter, h.classes, h.ancestors⟩

lemma push (hst : s.Like C.exact ρ t) : C.Stacks ρ (k.push s) (k'.push t) :=
  ⟨h.root, .cons hst h.nested, h.classes, h.ancestors⟩

lemma pop? :
    Rel (fun r r' => r.1.Like C.exact ρ r'.1 ∧ C.Stacks ρ r.2 r'.2) k.pop? k'.pop? := by
  cases k
  cases k'
  cases h.nested with
  | nil => exact .none
  | cons hinner houter => exact .some ⟨hinner, h.root, houter, h.classes, h.ancestors⟩

lemma pushNode {id' : NodeId} (hid : C.around id id') :
    C.Stacks ρ (k.pushNode id) (k'.pushNode id') :=
  ⟨h.root, h.nested, h.classes, .cons hid h.ancestors⟩

lemma popNode : C.Stacks ρ k.popNode k'.popNode := by
  cases k
  cases k'
  refine ⟨h.root, h.nested, h.classes, ?_⟩
  cases h.ancestors with
  | nil => exact .nil
  | cons _ hrest => exact hrest

lemma pushClass (c : ClassContext) : C.Stacks ρ (k.pushClass c) (k'.pushClass c) :=
  ⟨h.root, h.nested, congrArg (c :: ·) h.classes, h.ancestors⟩

lemma popClass : C.Stacks ρ k.popClass k'.popClass :=
  ⟨h.root, h.nested, congrArg tail h.classes, h.ancestors⟩

lemma class? : k.class? = k'.class? :=
  congrArg head? h.classes

lemma resolveClass? : k.resolveClass? = k'.resolveClass? := by
  funext name
  simp only [Stack.resolveClass?, h.class?]

lemma parent? : Rel C.around k.parent? k'.parent? := by
  cases k
  cases k'
  cases h.ancestors with
  | nil => exact .none
  | cons _ hrest =>
    cases hrest with
    | nil => exact .none
    | cons hparent _ => exact .some hparent

end Stacks

namespace Tables

variable {t t' : NodeTable} (h : C.Tables ρ t t')

include h

lemma mono (hle : ρ ≤ ρ') : C.Tables ρ' t t' :=
  ⟨h.types, fun hid => rel_mono (h.assertions hid) fun ha => ha.mono hle, h.kept⟩

lemma isSome (hid : C.nodes id) :
    (t.assertions.get? id).isSome = (t'.assertions.get? id).isSome :=
  isSome_eq_of_rel (h.assertions hid)

lemma whenTrue? (hid : C.nodes id) :
    Rel (Like C.exact ρ) (t.whenTrue? id) (t'.whenTrue? id) :=
  rel_bind (h.assertions hid) fun ha => ha.whenTrue

lemma whenFalse? (hid : C.nodes id) :
    Rel (Like C.exact ρ) (t.whenFalse? id) (t'.whenFalse? id) :=
  rel_bind (h.assertions hid) fun ha => ha.whenFalse

lemma setType (hid : C.nodes id) (type : Ty) :
    C.Tables ρ (t.setType id type) (t'.setType id type) :=
  ⟨C.types_insert type h.types hid, h.assertions, h.kept⟩

lemma setAssertions (hid : C.Tested id) {a : Assertions} (ha : a.Like C.exact ρ a') :
    C.Tables ρ (t.setAssertions id a) (t'.setAssertions id a') where
  types := by
    rw [types_setAssertions, types_setAssertions]
    exact h.types
  assertions {other} hother := by
    rw [get?_setAssertions, get?_setAssertions, ha.isEmpty]
    split
    · split
      · exact .none
      · exact .some ha
    · exact h.assertions hother
  kept := by
    unfold NodeTable.setAssertions
    rw [ha.isEmpty]
    split
    · exact C.kept_erase h.kept hid.1 hid.2
    · next hempty =>
      have hempty' : a'.isEmpty = false := Bool.eq_false_iff.2 hempty
      exact C.kept_insert h.kept hid.1 hid.2 (ha.isEmpty.trans hempty') hempty'

end Tables

namespace States

variable {st st' : State}

lemma withStore (h : C.States ρ st st') (hle : ρ ≤ ρ') {σ τ : Store}
    (hσ : σ.Like C.exact ρ' τ) :
    C.States ρ' { st with store := σ } { st' with store := τ } where
  store := hσ
  stack := h.stack.mono hle
  table := h.table.mono hle
  breaks := h.breaks.imp fun _ _ hframe => AllLike.mono hframe hle
  depth := h.depth
  events := h.events

lemma withStack (h : C.States ρ st st') (hk : C.Stacks ρ k k') :
    C.States ρ { st with stack := k } { st' with stack := k' } :=
  { h with stack := hk }

lemma withCurrent (h : C.States ρ st st') {t : Scope} (hs : s.Like C.exact ρ t) :
    C.States ρ { st with stack := st.stack.setCurrent s }
      { st' with stack := st'.stack.setCurrent t } :=
  h.withStack (h.stack.setCurrent hs)

end States

/-! ## Steps -/

/-- Run from like states, the steps both run out of budget, or lead to like states under a larger
matching with results that `Q` relates there. -/
def Sim (C : Comparison) (ρ : Matching) (m : Analysis α) (m' : Analysis β)
    (Q : Matching → α → β → Prop) : Prop :=
  ∀ ⦃ρ' : Matching⦄, ρ ≤ ρ' → ∀ ⦃st st' : State⦄, C.States ρ' st st' →
    Rel (fun r r' => ∃ ρ'', ρ' ≤ ρ'' ∧ C.States ρ'' r.2 r'.2 ∧ Q ρ'' r.1 r'.1)
      (m C.left st) (m' C.right st')

/-- The steps are alike and have the same results. -/
abbrev Same (C : Comparison) (ρ : Matching) (m m' : Analysis α) : Prop :=
  C.Sim ρ m m' fun _ => Eq

/-- The step is like itself. -/
abbrev Self (C : Comparison) (ρ : Matching) (m : Analysis α) : Prop :=
  C.Same ρ m m

section Steps

variable {m : Analysis α} {m' : Analysis β} {Q : Matching → α → β → Prop} {f : α → Analysis α'}
  {f' : β → Analysis β'} {R : Matching → α' → β' → Prop}

lemma Sim.pure {a : α} {b : β} (h : ∀ ρ', ρ ≤ ρ' → Q ρ' a b) :
    C.Sim ρ (Pure.pure a) (Pure.pure b) Q :=
  fun ρ' hle _ _ hst => .some ⟨ρ', le_refl _, hst, h ρ' hle⟩

lemma Same.pure {a : α} : C.Self ρ (Pure.pure a) :=
  Sim.pure fun _ _ => rfl

lemma Sim.bind (h : C.Sim ρ m m' Q)
    (h' : ∀ ρ', ρ ≤ ρ' → ∀ a b, Q ρ' a b → C.Sim ρ' (f a) (f' b) R) :
    C.Sim ρ (m >>= f) (m' >>= f') R := by
  intro ρ1 hle st st' hst
  refine rel_bind (h hle hst) ?_
  rintro ⟨a, st2⟩ ⟨b, st2'⟩ ⟨ρ2, hle2, hst2, hQ⟩
  refine rel_mono (h' ρ2 (le_trans hle hle2) a b hQ le_rfl hst2) ?_
  rintro r r' ⟨ρ3, hle3, hst3, hR⟩
  exact ⟨ρ3, le_trans hle2 hle3, hst3, hR⟩

lemma Same.bind {m m' : Analysis α} {f' : α → Analysis β'} (h : C.Same ρ m m')
    (h' : ∀ ρ', ρ ≤ ρ' → ∀ a, C.Sim ρ' (f a) (f' a) R) : C.Sim ρ (m >>= f) (m' >>= f') R := by
  refine Sim.bind h fun ρ' hle a b hab => ?_
  subst hab
  exact h' ρ' hle a

lemma Same.result {m m' : Analysis α} {g : α → α'} (h : C.Same ρ m m') :
    C.Same ρ (m >>= fun a => Pure.pure (g a)) (m' >>= fun a => Pure.pure (g a)) :=
  h.bind fun _ _ _ => Same.pure

lemma Sim.exhausted : C.Sim ρ (exhausted : Analysis α) (exhausted : Analysis β) Q :=
  fun _ _ _ _ _ => .none

lemma Sim.ite {m1 : Analysis α} {m1' : Analysis β} {c : Prop} [Decidable c]
    (h : C.Sim ρ m m' Q) (h1 : C.Sim ρ m1 m1' Q) :
    C.Sim ρ (if c then m else m1) (if c then m' else m1') Q := by
  split
  · exact h
  · exact h1

/-! ### Reading -/

lemma Sim.of_run {r : State → α} {r' : State → β} (hl : ∀ st, m C.left st = some (r st, st))
    (hr : ∀ st, m' C.right st = some (r' st, st))
    (h : ∀ ρ', ρ ≤ ρ' → ∀ st st', C.States ρ' st st' → Q ρ' (r st) (r' st')) : C.Sim ρ m m' Q := by
  intro ρ' hle st st' hst
  rw [hl, hr]
  exact .some ⟨ρ', le_refl _, hst, h ρ' hle st st' hst⟩

lemma Sim.read {f : Context → Analysis α} {f' : Context → Analysis β}
    (h : C.Sim ρ (f C.left) (f' C.right) Q) :
    C.Sim ρ (MonadReaderOf.read >>= f) (MonadReaderOf.read >>= f') Q :=
  h

lemma Sim.lineOf {f : Line → Analysis α} {f' : Line → Analysis β}
    (h : C.Sim ρ (f (C.arena.line id)) (f' (C.arena.line id)) Q) :
    C.Sim ρ (lineOf id >>= f) (lineOf id >>= f') Q :=
  h

lemma Sim.exprAt {f : Option Expr → Analysis α} {f' : Option Expr → Analysis β}
    (h : C.Sim ρ (f (C.arena.expr? id)) (f' (C.arena.expr? id)) Q) :
    C.Sim ρ (exprAt id >>= f) (exprAt id >>= f') Q :=
  h

lemma Sim.varNameAt {f : Option String → Analysis α} {f' : Option String → Analysis β}
    (h : C.Sim ρ (f (C.arena.varName? id)) (f' (C.arena.varName? id)) Q) :
    C.Sim ρ (varNameAt id >>= f) (varNameAt id >>= f') Q :=
  h

lemma getState : C.Sim ρ MonadStateOf.get MonadStateOf.get C.States :=
  .of_run (fun _ => rfl) (fun _ => rfl) fun _ _ _ _ hst => hst

lemma getScope : C.Sim ρ getScope getScope (Like C.exact) :=
  .of_run (fun _ => rfl) (fun _ => rfl) fun _ _ _ _ hst => hst.stack.current

lemma getStore : C.Sim ρ getStore getStore (Store.Like C.exact) :=
  .of_run (fun _ => rfl) (fun _ => rfl) fun _ _ _ _ hst => hst.store

lemma getTable : C.Sim ρ getTable getTable C.Tables :=
  .of_run (fun _ => rfl) (fun _ => rfl) fun _ _ _ _ hst => hst.table

lemma getStack : C.Sim ρ getStack getStack C.Stacks :=
  .of_run (fun _ => rfl) (fun _ => rfl) fun _ _ _ _ hst => hst.stack

lemma resolveInClass (t : Ty) :
    C.Self ρ (resolveInClass t) := by
  refine getStack.bind fun _ _ k k' hk => ?_
  rw [hk.class?]
  split <;> exact Same.pure

/-! ### Changing -/

lemma onStore {f : Store → α × Store} {g : Store → β × Store}
    (h : Store.Sim C.exact ρ f g Q) :
    C.Sim ρ (onStore f) (onStore g) Q := by
  intro ρ' hle st st' hst
  obtain ⟨ρ'', hle', hσ, hQ⟩ := h hle hst.store
  exact .some ⟨ρ'', hle', hst.withStore hle' hσ, hQ⟩

lemma onScope {f g : Scope → Store → Scope × Store}
    (h : ∀ ρ', ρ ≤ ρ' → ∀ s t, s.Like C.exact ρ' t →
      Store.Sim C.exact ρ' (f s) (g t) (Like C.exact)) :
    C.Same ρ (onScope f) (onScope g) := by
  intro ρ' hle st st' hst
  obtain ⟨ρ'', hle', hσ, hs⟩ := h ρ' hle _ _ hst.stack.current le_rfl hst.store
  exact .some ⟨ρ'', hle', (hst.withStore hle' hσ).withCurrent hs, rfl⟩

lemma onVars {f g : Scope → Store → Store}
    (h : ∀ ρ', ρ ≤ ρ' → ∀ s t σ τ, s.Like C.exact ρ' t → σ.Like C.exact ρ' τ →
      (f s σ).Like C.exact ρ' (g t τ)) :
    C.Same ρ (onVars f) (onVars g) :=
  onScope fun _ hle s t hs ρ'' hle' σ τ hσ =>
    ⟨ρ'', le_refl _, h ρ'' (le_trans hle hle') s t σ τ (hs.mono hle') hσ, hs.mono hle'⟩

lemma onScopeOnly {f : Scope → Scope}
    (h : ∀ {ρ' : Matching} {s t : Scope}, s.Like C.exact ρ' t → (f s).Like C.exact ρ' (f t)) :
    C.Self ρ (Analysis.onScope fun s σ => (f s, σ)) :=
  onScope fun _ _ _ _ hs => .of_result fun _ hle => h (hs.mono hle)

lemma modifyState {f g : State → State}
    (h : ∀ ρ', ρ ≤ ρ' → ∀ st st', C.States ρ' st st' → C.States ρ' (f st) (g st')) :
    C.Same ρ (MonadStateOf.modifyGet fun st => ((), f st))
      (MonadStateOf.modifyGet fun st => ((), g st)) := by
  intro ρ' hle st st' hst
  exact .some ⟨ρ', le_refl _, h ρ' hle st st' hst, rfl⟩

lemma modifyTable {f g : NodeTable → NodeTable}
    (h : ∀ ρ', ρ ≤ ρ' → ∀ t t', C.Tables ρ' t t' → C.Tables ρ' (f t) (g t')) :
    C.Same ρ (modifyTable f) (modifyTable g) :=
  modifyState fun ρ' hle _ _ hst => { hst with table := h ρ' hle _ _ hst.table }

lemma setAssertions (hid : C.Tested id) {a : Assertions} (ha : a.Like C.exact ρ a') :
    C.Same ρ (Analysis.modifyTable fun t => t.setAssertions id a)
      (Analysis.modifyTable fun t => t.setAssertions id a') :=
  modifyTable fun _ hle _ _ ht => ht.setAssertions hid (ha.mono hle)

lemma modifyStack {f g : Stack → Stack}
    (h : ∀ ρ', ρ ≤ ρ' → ∀ k k', C.Stacks ρ' k k' → C.Stacks ρ' (f k) (g k')) :
    C.Same ρ (modifyStack f) (modifyStack g) :=
  modifyState fun ρ' hle _ _ hst => hst.withStack (h ρ' hle _ _ hst.stack)

/-! ### Scopes -/

section Scopes

variable {t : Scope}

lemma forkScope (h : s.Like C.exact ρ t) :
    C.Sim ρ (forkScope s) (forkScope t) (Like C.exact) :=
  onStore h.fork

lemma forkCurrent :
    C.Sim ρ forkCurrent forkCurrent (Like C.exact) :=
  getScope.bind fun _ _ _ _ h => forkScope h

lemma Sim.inScope (h : C.Sim ρ m m' Q) (hst : s.Like C.exact ρ t) :
    C.Sim ρ (inScope s m) (inScope t m')
      fun ρ r r' => Q ρ r.1 r'.1 ∧ r.2.Like C.exact ρ r'.2 := by
  intro ρ1 hle st st' hstates
  refine rel_bind (h hle (hstates.withCurrent (hst.mono hle))) ?_
  rintro ⟨a, st2⟩ ⟨b, st2'⟩ ⟨ρ2, hle2, hst2, hQ⟩
  exact .some ⟨ρ2, hle2, hst2.withCurrent (hstates.stack.current.mono hle2), hQ,
    hst2.stack.current⟩

lemma like_getD {o o' : Option Scope} (h : Rel (Like C.exact ρ) o o')
    (hst : s.Like C.exact ρ t) : (o.getD s).Like C.exact ρ (o'.getD t) := by
  cases h with
  | none => exact hst
  | some h => exact h

lemma branchScopes {id : NodeId} (hid : C.nodes id) :
    C.Sim ρ (branchScopes id) (branchScopes id)
      fun ρ r r' => r.1.Like C.exact ρ r'.1 ∧ r.2.Like C.exact ρ r'.2 := by
  refine getTable.bind fun ρ1 _ table table' htable => ?_
  refine getScope.bind fun ρ2 hle2 s t hst => ?_
  have htable := htable.mono hle2
  refine (forkScope (like_getD (htable.whenTrue? hid) hst)).bind fun ρ3 hle3 s1 t1 h1 => ?_
  refine (forkScope ((like_getD (htable.whenFalse? hid) hst).mono hle3)).bind
    fun ρ4 hle4 s2 t2 h2 => ?_
  exact Sim.pure fun ρ5 hle5 => ⟨h1.mono (le_trans hle4 hle5), h2.mono hle5⟩

lemma mergeIntoCurrent (h : s.Like C.exact ρ t) :
    C.Same ρ (mergeIntoCurrent s) (mergeIntoCurrent t) :=
  onScope fun _ hle _ _ hcurrent => hcurrent.merge (h.mono hle)

lemma replaceCurrent (h : s.Like C.exact ρ t) :
    C.Same ρ (replaceCurrent s) (replaceCurrent t) :=
  onScope fun _ hle _ _ hcurrent => hcurrent.replaceWith (h.mono hle)

lemma absorbAll {paths paths' : List Scope} (h : AllLike C.exact ρ paths paths') :
    C.Same ρ (absorbAll paths) (absorbAll paths') :=
  onVars fun _ hle _ _ _ _ hst hσ => hst.absorbAll (AllLike.mono h hle) hσ

end Scopes

/-! ### Loops and records -/

lemma enterLoop : C.Self ρ enterLoop :=
  modifyState fun _ _ _ _ hst => { hst with breaks := .cons .nil hst.breaks }

lemma leaveLoop :
    C.Sim ρ leaveLoop leaveLoop (AllLike C.exact) := by
  intro ρ' hle st st' hst
  cases st
  cases st'
  cases hst.breaks with
  | nil => exact .some ⟨ρ', le_refl _, { hst with breaks := .nil }, .nil⟩
  | cons hframe houter => exact .some ⟨ρ', le_refl _, { hst with breaks := houter }, hframe⟩

lemma recordBreak {s t : Scope} (h : s.Like C.exact ρ t) :
    C.Same ρ (recordBreak s) (recordBreak t) := by
  intro ρ' hle st st' hst
  cases st
  cases st'
  cases hst.breaks with
  | nil => exact .some ⟨ρ', le_refl _, hst, rfl⟩
  | cons hframe houter =>
    have hnew := rel_append hframe (Forall₂.cons (h.mono hle) .nil)
    exact .some ⟨ρ', le_refl _, { hst with breaks := .cons hnew houter }, rfl⟩

lemma recordVisit {id : NodeId} (hid : C.nodes id) (type : Option Ty) :
    C.Self ρ (recordVisit id type) := by
  refine Sim.read (Sim.ite (fun ρ' hle st st' hst => ?_) Same.pure)
  refine .some ⟨ρ', le_refl _, { hst with events := C.events_cons hst.events hid ?_ }, rfl⟩
  exact .visited rfl rfl hst.stack.popNode.ancestors hst.stack.class?
    (hst.stack.current.view hst.store)

end Steps

end Comparison

end FlowTyping

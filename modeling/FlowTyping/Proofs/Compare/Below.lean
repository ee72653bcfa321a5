import FlowTyping.Proofs.Compare.Rules

/-!
# Two evaluations of one expression

An expression may stand under different nodes, and be evaluated from states that differ in slots and
in what is recorded elsewhere.  Its evaluations are alike.
-/

namespace FlowTyping

open List Option Scope

variable {root : NodeId} {e : Event} {exact : Exactness} {st : State} {P : Ty → Prop}

/-- Since `start`, what conditions imply was recorded at expressions below `root` only, and every
record there says something. -/
structure Arena.RecordsBelow (arena : Arena) (root : NodeId) (start now : IdMap Assertions) :
    Prop where
  others : ∀ {id}, ¬ (arena.Reach root id ∧ (arena.expr? id).isSome = true) →
    now.get? id = start.get? id
  nonempty : ∀ {id a}, arena.Reach root id → now.get? id = some a → a.isEmpty = false

/-- Since `start`, only nodes below `root` were passed. -/
def Arena.EventsBelow (arena : Arena) (root : NodeId) (start now : List Event) : Prop :=
  ∃ new, now = new ++ start ∧ ∀ e ∈ new, arena.Reach root e.node

namespace Arena

variable {arena : Arena} {id : NodeId} {start now : IdMap Assertions} {a : Assertions}

lemma RecordsBelow.refl (h : ∀ {id}, arena.Reach root id → start.get? id = none) :
    arena.RecordsBelow root start start where
  others _ := rfl
  nonempty hid hget := by
    rw [h hid] at hget
    cases hget

lemma RecordsBelow.insert (h : arena.RecordsBelow root start now) (hid : arena.Reach root id)
    (hexpr : (arena.expr? id).isSome = true) (ha : a.isEmpty = false) :
    arena.RecordsBelow root start (now.insert id a) where
  others {other} hother := by
    have hne : id ≠ other := by
      rintro rfl
      exact hother ⟨hid, hexpr⟩
    rw [IdMap.get?_insert, if_neg hne]
    exact h.others hother
  nonempty {other b} hother hget := by
    rw [IdMap.get?_insert] at hget
    split at hget
    · exact some.inj hget ▸ ha
    · exact h.nonempty hother hget

lemma RecordsBelow.erase (h : arena.RecordsBelow root start now) (hid : arena.Reach root id)
    (hexpr : (arena.expr? id).isSome = true) :
    arena.RecordsBelow root start (now.erase id) where
  others {other} hother := by
    have hne : id ≠ other := by
      rintro rfl
      exact hother ⟨hid, hexpr⟩
    rw [IdMap.get?_erase, if_neg hne]
    exact h.others hother
  nonempty {other b} hother hget := by
    rw [IdMap.get?_erase] at hget
    split at hget
    · cases hget
    · exact h.nonempty hother hget

lemma EventsBelow.refl (events : List Event) : arena.EventsBelow root events events :=
  ⟨[], rfl, fun _ he => nomatch he⟩

lemma EventsBelow.cons {start now : List Event} (h : arena.EventsBelow root start now)
    (he : arena.Reach root e.node) : arena.EventsBelow root start (e :: now) := by
  obtain ⟨new, rfl, hnew⟩ := h
  exact ⟨e :: new, rfl, forall_mem_cons.2 ⟨he, hnew⟩⟩

end Arena

/-! ## Comparison -/

lemma Event.Like.node_eq {around : NodeId → NodeId → Prop} {e' : Event}
    (h : e.Like exact around e') : e.node = e'.node := by
  cases h with
  | visited node _ _ _ _ => exact node
  | left => rfl

namespace Comparison

variable {cx : Context} {aside : NodeId → Prop} {ρ : Matching} {st' : State}

/-- Two evaluations of the same nodes in one context, with nothing asked of their records. -/
def inContext (cx : Context) {nodes : NodeId → Prop}
    (hexpr : ∀ {id e}, nodes id → cx.arena.expr? id = some e → ∀ c ∈ e.children, nodes c)
    (hstmt : ∀ {id stmt}, nodes id → cx.arena.stmt? id = some stmt → ∀ c ∈ stmt.allParts, nodes c) :
    Comparison where
  arena := cx.arena
  leftIndex := cx.index
  rightIndex := cx.index
  leftOptions := cx.options
  rightOptions := cx.options
  exact := .full
  nodes := nodes
  around := Eq
  types := Eq
  kept _ _ := True
  events _ _ := True
  index_same := .refl _
  maxDepth_eq := rfl
  narrowLooseNull_eq := rfl
  superglobals_eq := rfl
  propagate := .refl _
  nodes_expr := hexpr
  nodes_stmt := hstmt
  around_self _ := rfl
  around_expects h _ := by rw [h]
  types_get h _ := by rw [h]
  types_insert _ h _ := by rw [h]
  kept_insert _ _ _ _ _ := trivial
  kept_erase _ _ _ := trivial
  events_cons _ _ _ := trivial

/-- Two evaluations below a node, from the states `start` and `start'`.  Types may differ at the nodes
`aside`, which are none of those that are evaluated. -/
def below (cx : Context) (root : NodeId) {aside : NodeId → Prop}
    (haside : ∀ {id}, cx.arena.Reach root id → ¬ aside id) (start start' : State) : Comparison where
  __ := inContext cx (fun hid he _ hc => hid.trans (.child he hc))
    (fun hid hs _ hc => hid.trans (.part hs hc))
  nodes := cx.arena.Reach root
  around p q := ∀ {id}, cx.arena.Reach root id →
    cx.arena.expectsBool p id = cx.arena.expectsBool q id
  types m m' := ∀ {id}, ¬ aside id → m.get? id = m'.get? id
  kept m m' := cx.arena.RecordsBelow root start.table.assertions m ∧
    cx.arena.RecordsBelow root start'.table.assertions m'
  events es es' := cx.arena.EventsBelow root start.events es ∧
    cx.arena.EventsBelow root start'.events es'
  around_self _ _ _ := rfl
  around_expects hpq hid := hpq hid
  types_get htypes hid := htypes (haside hid)
  types_insert t htypes _ other hother := by
    rw [IdMap.get?_insert, IdMap.get?_insert, htypes hother]
  kept_insert h hid hexpr ha ha' := ⟨h.1.insert hid hexpr ha, h.2.insert hid hexpr ha'⟩
  kept_erase h hid hexpr := ⟨h.1.erase hid hexpr, h.2.erase hid hexpr⟩
  events_cons h hid he := ⟨h.1.cons hid, h.2.cons (he.node_eq ▸ hid)⟩

variable (haside : ∀ {id}, cx.arena.Reach root id → ¬ aside id)

lemma below_start (hstore : st.store.Like .full ρ st'.store)
    (hstack : (below cx root haside st st').Stacks ρ st.stack st'.stack)
    (htypes : ∀ {id}, ¬ aside id → st.table.types.get? id = st'.table.types.get? id)
    (hfresh : ∀ {id}, cx.arena.Reach root id → st.table.assertions.get? id = none)
    (hfresh' : ∀ {id}, cx.arena.Reach root id → st'.table.assertions.get? id = none)
    (hbreaks : Forall₂ (AllLike .full ρ) st.breaks st'.breaks)
    (hdepth : st.depth = st'.depth) : (below cx root haside st st').States ρ st st' where
  store := hstore
  stack := hstack
  table := ⟨htypes, fun {id} hid => by
    rw [hfresh hid, hfresh' hid]
    exact .none, .refl hfresh, .refl hfresh'⟩
  breaks := hbreaks
  depth := hdepth
  events := ⟨.refl _, .refl _⟩

lemma infer_below (budget : Nat) {start start' : State}
    (h : (below cx root haside start start').States ρ st st') :
    Rel (fun r r' => ∃ ρ', ρ ≤ ρ' ∧
        (below cx root haside start start').States ρ' r.2 r'.2 ∧ r.1 = r'.1)
      ((FlowTyping.evaluator budget).infer root cx st)
      ((FlowTyping.evaluator budget).infer root cx st') :=
  ((below cx root haside start start').evaluator budget).infer (.refl root) (le_refl ρ) h

end Comparison

/-! ## One state -/

/-- Every slot up to `n` is matched with itself. -/
def Matching.upTo (n : Nat) : Matching :=
  fun i j => i = j ∧ i < n

lemma Scope.Wf.self {s : Scope} {σ : Store} (h : s.Wf P σ) : s.Like exact (.upTo σ.size) s where
  vars := forall₂_same.2 fun _ he => ⟨rfl, rfl, h.placed.lt_of_mem he⟩
  chains := rfl
  flags := .refl _
  function _ := rfl

lemma Store.like_self (σ : Store) : σ.Like exact (.upTo σ.size) σ where
  lt_left hij := hij.2
  lt_right hij := hij.1 ▸ hij.2
  inj hij hij' := by rw [← hij.1, ← hij'.1]
  read hij := hij.1 ▸ .refl _

namespace State.Wf

variable (h : st.Wf P)

include h

lemma like_root : st.stack.root.Like exact (.upTo st.store.size) st.stack.root :=
  (h.stack _ (by simp [Stack.scopes])).self

lemma like_nested :
    AllLike exact (.upTo st.store.size) st.stack.nested st.stack.nested :=
  forall₂_same.2 fun _ hs => (h.stack _ (mem_append_left _ hs)).self

lemma like_breaks :
    Forall₂ (AllLike exact (.upTo st.store.size)) st.breaks st.breaks :=
  forall₂_same.2 fun _ hframe => forall₂_same.2 fun _ hs =>
    (h.breaks _ (mem_flatten_of_mem hframe hs)).self

lemma like_self (C : Comparison) (haround : ∀ p, C.around p p)
    (htypes : C.types st.table.types st.table.types)
    (hkept : C.kept st.table.assertions st.table.assertions) (hevents : C.events st.events st.events) :
    C.States (.upTo st.store.size) st st where
  store := st.store.like_self
  stack := ⟨h.like_root, h.like_nested, rfl, forall₂_same.2 fun _ _ => haround _⟩
  table := by
    refine ⟨htypes, fun {id} _ => ?_, hkept⟩
    cases ha : st.table.assertions.get? id with
    | none => exact .none
    | some a =>
      have hself (o : Option Scope) (ho : ∀ s ∈ o, s ∈ a.scopes) :
          Rel (Like C.exact (.upTo st.store.size)) o o := by
        cases o with
        | none => exact .none
        | some s => exact .some (h.table.implied _ (IdMap.mem_of_get? ha) s (ho s rfl)).self
      exact .some ⟨hself _ fun _ hs => mem_append_left _ (mem_toList.2 hs),
        hself _ fun _ hs => mem_append_right _ (mem_toList.2 hs)⟩
  breaks := h.like_breaks
  depth := rfl
  events := hevents

end State.Wf

end FlowTyping

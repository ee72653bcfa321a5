import FlowTyping.Analysis.State
import FlowTyping.Proofs.Scope.Paths
import Mathlib.Data.List.Perm.Basic

/-!
# What a step of the analysis may touch

Every rule of the analysis works in the current scope and in copies that it makes itself.  This
module states that once, for a single step, and shows that it composes.

**Scopes in hand.**  Between a fork and the join behind it a rule holds scopes that are nowhere in
the state.  `Held P n st l`: the scopes `l` have slots from `n` on and share none with each other or
with the state.  A step keeps them, with what they say (`Step.held`, `Step.var?_eq`).
-/

namespace FlowTyping

open List Option Scope Stack

variable {P : Ty → Prop} {α β γ : Type} {st' : State} {σ σ' : Store} {table : NodeTable} {n : Nat}
  {l : List Scope} {cx : Context} {s' : Scope}

namespace Stack

/-- The scopes of the stack, innermost first. -/
def scopes (st : Stack) : List Scope :=
  st.nested ++ [st.root]

variable (st : Stack) (s t : Scope)

@[simp]
lemma current_setCurrent : (st.setCurrent s).current = s := by
  cases h : st.nested <;> simp [setCurrent, current, h]

@[simp]
lemma setCurrent_setCurrent : (st.setCurrent s).setCurrent t = st.setCurrent t := by
  cases h : st.nested <;> simp [setCurrent, h]

@[simp]
lemma setCurrent_current : st.setCurrent st.current = st := by
  obtain ⟨_, nested, _⟩ := st
  cases nested <;> rfl

@[simp]
lemma popNode_setCurrent_pushNode (id : NodeId) :
    ((st.pushNode id).setCurrent s).popNode = st.setCurrent s := by
  obtain ⟨_, nested, _⟩ := st
  cases nested <;> rfl

@[simp]
lemma classes_setCurrent : (st.setCurrent s).classes = st.classes := by
  cases h : st.nested <;> simp [setCurrent, h]

@[simp]
lemma ancestors_setCurrent : (st.setCurrent s).ancestors = st.ancestors := by
  cases h : st.nested <;> simp [setCurrent, h]

lemma scopes_eq_cons : st.scopes = st.current :: st.scopes.tail := by
  cases h : st.nested <;> simp [scopes, current, h]

lemma scopes_setCurrent : (st.setCurrent s).scopes = s :: st.scopes.tail := by
  cases h : st.nested <;> simp [scopes, setCurrent, h]

lemma current_mem_scopes : st.current ∈ st.scopes := by
  rw [scopes_eq_cons]
  exact .head _

lemma mem_scopes_setCurrent {st : Stack} {s t : Scope} (h : t ∈ (st.setCurrent s).scopes) :
    t = s ∨ t ∈ st.scopes := by
  rw [scopes_setCurrent, mem_cons] at h
  exact h.imp_right mem_of_mem_tail

end Stack

/-! ## Well-formed states -/

/-- Every type in the view lies in `P`. -/
structure ScopeView.TypesIn (P : Ty → Prop) (view : ScopeView) : Prop where
  vars : ∀ e ∈ view.vars, e.2.TypeIn P
  chains : ∀ e ∈ view.chains.entries, P e.2

/-- Every type that the event records lies in `P`. -/
def Event.TypesIn (P : Ty → Prop) : Event → Prop
  | .visited visit => Ty.KnownIn P visit.type ∧ visit.scope.TypesIn P
  | .left _ view => view.TypesIn P

section Imp

variable {Q : Ty → Prop} (hPQ : ∀ t, P t → Q t)

include hPQ

lemma ScopeView.TypesIn.imp {view : ScopeView} (h : view.TypesIn P) : view.TypesIn Q :=
  ⟨fun e he => (h.vars e he).imp hPQ, fun e he => hPQ _ (h.chains e he)⟩

lemma Event.TypesIn.imp {e : Event} (h : e.TypesIn P) : e.TypesIn Q := by
  cases e with
  | visited visit => exact ⟨h.1.imp hPQ, h.2.imp hPQ⟩
  | left function view => exact ScopeView.TypesIn.imp hPQ h

end Imp

/-- The scopes that a condition implies. -/
def Assertions.scopes (a : Assertions) : List Scope :=
  a.whenTrue.toList ++ a.whenFalse.toList

/-- The types of nodes lie in `P`, and the scopes that conditions imply are well formed. -/
structure NodeTable.Wf (P : Ty → Prop) (table : NodeTable) (σ : Store) : Prop where
  types : ∀ r ∈ table.types.log, P r.2
  implied : ∀ r ∈ table.assertions.log, ∀ s ∈ r.2.scopes, s.Wf P σ

lemma IdMap.mem_of_get? {m : IdMap α} {id : NodeId} {a : α} (h : m.get? id = some a) :
    (id, a) ∈ m.log := by
  obtain ⟨log⟩ := m
  simp only [IdMap.get?] at h
  induction log with
  | nil => cases h
  | cons r rest ih =>
    obtain ⟨key, b⟩ := r
    simp only [IdMap.find, beq_iff_eq] at h
    split at h
    · rename_i hk
      cases h
      exact hk ▸ .head _
    · exact .tail _ (ih h)

/-- The scopes of the state are placed in its store, and its types lie in `P`. -/
structure State.Wf (P : Ty → Prop) (st : State) : Prop where
  types : st.store.TypesIn P
  stack : ∀ s ∈ st.stack.scopes, s.Wf P st.store
  breaks : ∀ s ∈ st.breaks.flatten, s.Wf P st.store
  breaks_apart : ∀ s ∈ st.breaks.flatten, ∀ t ∈ st.stack.scopes, s.Apart t
  breaks_pairwise : st.breaks.flatten.Pairwise Apart
  table : st.table.Wf P st.store
  events : ∀ e ∈ st.events, e.TypesIn P

lemma State.Wf.current {st : State} (h : st.Wf P) : st.stack.current.Wf P st.store :=
  h.stack _ st.stack.current_mem_scopes

/-- The class and the one that it extends lie in `P`. -/
structure ClassContext.TypesIn (P : Ty → Prop) (c : ClassContext) : Prop where
  name : P (.named c.name)
  parent : ∀ name, c.parent = some name → P (.named name)

/-- A well-formed state, and the classes around the code lie in `P`. -/
structure State.Fit (P : Ty → Prop) (st : State) : Prop extends State.Wf P st where
  classes : ∀ c ∈ st.stack.classes, c.TypesIn P

lemma State.Wf.fit {st : State} (h : st.Wf P) (hP : ∀ name, P (.named name)) : st.Fit P :=
  ⟨h, fun c _ => ⟨hP c.name, fun name _ => hP name⟩⟩

lemma State.Fit.of_classes_eq {st : State} (hst : st.Fit P) (h : st'.Wf P)
    (hclasses : st'.stack.classes = st.stack.classes) : st'.Fit P :=
  ⟨h, hclasses ▸ hst.classes⟩

/-- Nothing is asked of classes where nothing is asked of types. -/
instance {st : State} : Coe (st.Wf fun _ => True) (st.Fit fun _ => True) :=
  ⟨fun h => h.fit fun _ => trivial⟩

lemma Scope.Wf.view {s : Scope} (h : s.Wf P σ) (hσ : σ.TypesIn P) : (s.view σ).TypesIn P := by
  refine ⟨fun e he => ?_, h.chains⟩
  obtain ⟨⟨name, slot⟩, -, rfl⟩ := mem_map.1 he
  exact hσ slot

lemma NodeTable.Wf.mono (h : table.Wf P σ) (hle : σ.size ≤ σ'.size) : table.Wf P σ' :=
  ⟨h.types, fun r hr s hs => (h.implied r hr s hs).mono hle⟩

/-! ## Steps -/

/-- The innermost frame has more scopes, with slots from `n` on. -/
def Grown (n : Nat) : List (List Scope) → List (List Scope) → Prop
  | [], frames => frames = []
  | frame :: outer, frames =>
    ∃ new, frames = (frame ++ new) :: outer ∧ ∀ s ∈ new, ∀ k, s.Owns k → n ≤ k

namespace Grown

variable {a b c : List (List Scope)}

lemma refl (n : Nat) (a : List (List Scope)) : Grown n a a := by
  cases a with
  | nil => rfl
  | cons frame outer => exact ⟨[], by simp, by simp⟩

lemma trans (h : Grown n a b) (h' : Grown n b c) : Grown n a c := by
  cases a with
  | nil =>
    cases h
    exact h'
  | cons frame outer =>
    obtain ⟨new, rfl, hnew⟩ := h
    obtain ⟨new', rfl, hnew'⟩ := h'
    refine ⟨new ++ new', by simp, fun s hs => ?_⟩
    rcases mem_append.1 hs with hs | hs
    · exact hnew s hs
    · exact hnew' s hs

lemma anti {m : Nat} (h : Grown n a b) (hle : m ≤ n) : Grown m a b := by
  cases a with
  | nil => exact h
  | cons frame outer =>
    obtain ⟨new, rfl, hnew⟩ := h
    exact ⟨new, rfl, fun s hs k hk => Nat.le_trans hle (hnew s hs k hk)⟩

lemma mem_flatten (h : Grown n a b) {s : Scope} (hs : s ∈ b.flatten) :
    s ∈ a.flatten ∨ ∀ k, s.Owns k → n ≤ k := by
  cases a with
  | nil =>
    cases h
    exact .inl hs
  | cons frame outer =>
    obtain ⟨new, rfl, hnew⟩ := h
    simp only [flatten_cons, mem_append] at hs ⊢
    rcases hs with (hs | hs) | hs
    · exact .inl (.inl hs)
    · exact .inr (hnew s hs)
    · exact .inl (.inr hs)

lemma apart (h : Grown n a b) {s : Scope} (hlt : ∀ k, s.Owns k → k < n)
    (hs : ∀ t ∈ a.flatten, s.Apart t) : ∀ t ∈ b.flatten, s.Apart t := by
  intro t ht
  rcases h.mem_flatten ht with ht | ht
  · exact hs t ht
  · exact fun k hk hk' => Nat.not_le_of_lt (hlt k hk) (ht k hk')

end Grown

/-- What a step may do.  It writes to variables of the current scope and to slots from `n` on; the
other scopes, the classes and the nodes around it stay as they are. -/
structure Step (P : Ty → Prop) (n : Nat) (st st' : State) : Prop where
  wf : st'.Wf P
  size_le : st.store.size ≤ st'.store.size
  read_eq : ∀ k, k < n → ¬ st.stack.current.Owns k → st'.store.read k = st.store.read k
  owns : ∀ k, st'.stack.current.Owns k → st.stack.current.Owns k ∨ n ≤ k
  stack : st'.stack = st.stack.setCurrent st'.stack.current
  breaks : Grown n st.breaks st'.breaks
  depth : st'.depth = st.depth
  events : st.events <:+ st'.events

namespace Step

variable {st st'' : State}

lemma refl (h : st.Wf P) : Step P n st st where
  wf := h
  size_le := le_rfl
  read_eq _ _ _ := rfl
  owns _ hk := .inl hk
  stack := by simp
  breaks := .refl ..
  depth := rfl
  events := suffix_refl _

lemma trans (h : Step P n st st') (h' : Step P n st' st'') : Step P n st st'' where
  wf := h'.wf
  size_le := le_trans h.size_le h'.size_le
  read_eq k hk hs := by
    have hs' : ¬ st'.stack.current.Owns k := by
      intro ho
      rcases h.owns k ho with ho | ho
      · exact hs ho
      · omega
    rw [h'.read_eq k hk hs', h.read_eq k hk hs]
  owns k hk := by
    rcases h'.owns k hk with hk | hk
    · exact h.owns k hk
    · exact .inr hk
  stack := by rw [h'.stack, h.stack]; simp
  breaks := h.breaks.trans h'.breaks
  depth := h'.depth.trans h.depth
  events := h.events.trans h'.events

lemma anti {m : Nat} (h : Step P n st st') (hle : m ≤ n) : Step P m st st' where
  wf := h.wf
  size_le := h.size_le
  read_eq k hk := h.read_eq k (Nat.lt_of_lt_of_le hk hle)
  owns k hk := (h.owns k hk).imp_right (Nat.le_trans hle)
  stack := h.stack
  breaks := h.breaks.anti hle
  depth := h.depth
  events := h.events

lemma fit (h : Step P n st st') (hst : st.Fit P) : st'.Fit P :=
  hst.of_classes_eq h.wf (by rw [h.stack, classes_setCurrent])

lemma scopes_tail (h : Step P n st st') : st'.stack.scopes.tail = st.stack.scopes.tail := by
  rw [h.stack, scopes_setCurrent, tail_cons]

end Step

/-! ## Scopes in hand -/

/-- The scopes `l` are in hand: no scope of the state shares a variable with them. -/
structure Held (P : Ty → Prop) (n : Nat) (st : State) (l : List Scope) : Prop where
  wf : ∀ s ∈ l, s.Wf P st.store
  ge : ∀ s ∈ l, ∀ k, s.Owns k → n ≤ k
  stack : ∀ s ∈ l, ∀ t ∈ st.stack.scopes, s.Apart t
  breaks : ∀ s ∈ l, ∀ t ∈ st.breaks.flatten, s.Apart t
  pairwise : l.Pairwise Apart

namespace Held

variable {st : State} {s : Scope} {l' : List Scope}

lemma nil : Held P n st [] where
  wf := by simp
  ge := by simp
  stack := by simp
  breaks := by simp
  pairwise := .nil

lemma sublist (h : Held P n st l) (hsub : Sublist l' l) : Held P n st l' where
  wf s hs := h.wf s (hsub.subset hs)
  ge s hs := h.ge s (hsub.subset hs)
  stack s hs := h.stack s (hsub.subset hs)
  breaks s hs := h.breaks s (hsub.subset hs)
  pairwise := h.pairwise.sublist hsub

lemma perm (h : Held P n st l) (hp : l.Perm l') : Held P n st l' where
  wf s hs := h.wf s (hp.mem_iff.2 hs)
  ge s hs := h.ge s (hp.mem_iff.2 hs)
  stack s hs := h.stack s (hp.mem_iff.2 hs)
  breaks s hs := h.breaks s (hp.mem_iff.2 hs)
  pairwise := h.pairwise.perm hp Apart.symm

lemma subperm (h : Held P n st l) (hs : Subperm l' l) : Held P n st l' := by
  obtain ⟨l'', hp, hsub⟩ := hs
  exact (h.sublist hsub).perm hp

lemma tail (h : Held P n st (s :: l)) : Held P n st l :=
  h.sublist (sublist_cons_self ..)

lemma cons_of_size_le {m : Nat} (h : Held P n st l) (hst : st.Wf P) (hm : st.store.size ≤ m)
    (hs : s.Wf P st'.store) (hge : ∀ k, s.Owns k → m ≤ k) (hle : st.store.size ≤ st'.store.size)
    (hn : n ≤ m) (hstack : st'.stack = st.stack) (hbreaks : st'.breaks = st.breaks) :
    Held P n st' (s :: l) := by
  have hapart : ∀ t : Scope, t.Wf P st.store → s.Apart t := fun t ht k hk hk' =>
    Nat.not_le_of_lt (ht.lt hk') (Nat.le_trans hm (hge k hk))
  constructor
  · exact forall_mem_cons.2 ⟨hs, fun t ht => (h.wf t ht).mono hle⟩
  · exact forall_mem_cons.2 ⟨fun k hk => Nat.le_trans hn (hge k hk), h.ge⟩
  · rw [hstack]
    exact forall_mem_cons.2 ⟨fun u hu => hapart u (hst.stack u hu), h.stack⟩
  · rw [hbreaks]
    exact forall_mem_cons.2 ⟨fun u hu => hapart u (hst.breaks u hu), h.breaks⟩
  · exact pairwise_cons.2 ⟨fun t ht => hapart t (h.wf t ht), h.pairwise⟩

lemma append (h : Held P n st l) (h' : Held P n st l') (hapart : ∀ t ∈ l, ∀ u ∈ l', t.Apart u) :
    Held P n st (l ++ l') where
  wf := forall_mem_append.2 ⟨h.wf, h'.wf⟩
  ge := forall_mem_append.2 ⟨h.ge, h'.ge⟩
  stack := forall_mem_append.2 ⟨h.stack, h'.stack⟩
  breaks := forall_mem_append.2 ⟨h.breaks, h'.breaks⟩
  pairwise := pairwise_append.2 ⟨h.pairwise, h'.pairwise, hapart⟩

end Held

namespace Step

variable {m : Nat} {st : State}

/-- A scope whose slots are older than `m`, apart from the current scope before a step, is apart from
it after the step. -/
lemma apart_current (h : Step P m st st') {s : Scope} (hlt : ∀ k, s.Owns k → k < m)
    (hs : s.Apart st.stack.current) : s.Apart st'.stack.current := fun k hk hk' =>
  (h.owns k hk').elim (hs k hk) (Nat.not_le_of_lt (hlt k hk))

lemma apart (h : Step P m st st') {s : Scope} (hlt : ∀ k, s.Owns k → k < m)
    (hstack : ∀ t ∈ st.stack.scopes, s.Apart t) : ∀ t ∈ st'.stack.scopes, s.Apart t := by
  rw [scopes_eq_cons, h.scopes_tail, forall_mem_cons]
  exact ⟨h.apart_current hlt (hstack _ st.stack.current_mem_scopes),
    fun t ht => hstack t (mem_of_mem_tail ht)⟩

lemma held (h : Step P st.store.size st st') (hl : Held P n st l) : Held P n st' l where
  wf s hs := (hl.wf s hs).mono h.size_le
  ge := hl.ge
  stack s hs := h.apart (fun _ hk => (hl.wf s hs).lt hk) (hl.stack s hs)
  breaks s hs := h.breaks.apart (fun _ hk => (hl.wf s hs).lt hk) (hl.breaks s hs)
  pairwise := hl.pairwise

lemma var?_eq (h : Step P m st st') {s : Scope} (hlt : ∀ k, s.Owns k → k < m)
    (hs : s.Apart st.stack.current) (name : String) :
    s.var? st'.store name = s.var? st.store name :=
  map_congr fun k hk => h.read_eq k (hlt k ⟨name, hk⟩) (hs k ⟨name, hk⟩)

end Step

open List

namespace Analysis

variable {st : State} {m : Analysis α} {f : α → Analysis β} {a : α}

/-! ## Running -/

lemma bind_eq_some {b : β} :
    (m >>= f) cx st = some (b, st') ↔
      ∃ a st1, m cx st = some (a, st1) ∧ f a cx st1 = some (b, st') := by
  show (m cx st).bind (fun r => f r.1 cx r.2) = some (b, st') ↔ _
  simp only [bind_eq_some_iff, Prod.exists]

alias ⟨of_bind, _⟩ := bind_eq_some

lemma bind_run (h : m cx st = some (a, st')) : (m >>= f) cx st = f a cx st' := by
  show (m cx st).bind (fun r => f r.1 cx r.2) = _
  rw [h]
  rfl

lemma bind_rest {r : Option (β × State)} (h : (m >>= f) cx st = r) (hm : m cx st = some (a, st')) :
    f a cx st' = r :=
  (bind_run hm).symm.trans h

lemma pure_eq_some {b : α} : (pure a : Analysis α) cx st = some (b, st') ↔ b = a ∧ st' = st := by
  show some (a, st) = some (b, st') ↔ _
  simp only [some.injEq, Prod.mk.injEq]
  exact and_congr eq_comm eq_comm

alias ⟨of_pure, _⟩ := pure_eq_some

lemma result_eq_some {g : α → β} {b : β} :
    (m >>= fun a => pure (g a)) cx st = some (b, st') ↔ ∃ a, m cx st = some (a, st') ∧ b = g a := by
  simp only [bind_eq_some, pure_eq_some]
  constructor
  · rintro ⟨a, st1, h, rfl, rfl⟩
    exact ⟨a, h, rfl⟩
  · rintro ⟨a, h, rfl⟩
    exact ⟨a, st', h, rfl, rfl⟩

alias ⟨of_result, _⟩ := result_eq_some

lemma onScope_run (f : Scope → Store → Scope × Store) :
    onScope f cx st = some ((), { st with
      store := (f st.stack.current st.store).2
      stack := st.stack.setCurrent (f st.stack.current st.store).1 }) := rfl

lemma onVars_run (f : Scope → Store → Store) :
    onVars f cx st = some ((), { st with
      store := f st.stack.current st.store
      stack := st.stack.setCurrent st.stack.current }) := rfl

lemma onStore_run (f : Store → α × Store) :
    onStore f cx st = some ((f st.store).1, { st with store := (f st.store).2 }) := rfl

end Analysis

/-- The state with another scope in place of the current one. -/
def State.within (st : State) (s : Scope) : State :=
  { st with stack := st.stack.setCurrent s }

namespace Analysis

variable {st : State}

lemma inScope_eq_some {s after : Scope} {m : Analysis α} {a : α} :
    inScope s m cx st = some ((a, after), st') ↔
      ∃ st1, m cx (st.within s) = some (a, st1) ∧ after = st1.stack.current ∧
        st' = st1.within st.stack.current := by
  show (m cx (st.within s)).bind (fun r =>
    some ((r.1, r.2.stack.current), r.2.within st.stack.current)) = some ((a, after), st') ↔ _
  simp only [bind_eq_some_iff, Prod.exists, some.injEq, Prod.mk.injEq]
  constructor
  · rintro ⟨a', st1, h, ⟨rfl, rfl⟩, rfl⟩
    exact ⟨st1, h, rfl, rfl⟩
  · rintro ⟨st1, h, rfl, rfl⟩
    exact ⟨a, st1, h, ⟨rfl, rfl⟩, rfl⟩

/-! ## Giving scopes -/

/-- With the scopes `l` in hand, `m` gives the scopes `l'`, and its results satisfy `Q`. -/
def Gives (P : Ty → Prop) (cx : Context) (l : List Scope) (m : Analysis α)
    (l' : α → List Scope) (Q : α → Prop) : Prop :=
  ∀ ⦃n : Nat⦄ ⦃st : State⦄ (c : List Scope), st.Fit P → n ≤ st.store.size →
    Held P n st (l ++ c) → ∀ ⦃a : α⦄ ⦃st' : State⦄, m cx st = some (a, st') →
      Step P n st st' ∧ Held P n st' (l' a ++ c) ∧ Q a

/-- The step takes no scopes and gives none, and its results satisfy `Q`. -/
abbrev Keeps (P : Ty → Prop) (cx : Context) (m : Analysis α) (Q : α → Prop) : Prop :=
  Gives P cx [] m (fun _ => []) Q

section Gives

variable {l1 : List Scope} {l' : α → List Scope} {l'' : β → List Scope} {Q : α → Prop}
  {R : β → Prop} {m : Analysis α}

lemma Gives.pure {a : α} (hQ : Q a) (h : Subperm (l' a) l) :
    Gives P cx l (Pure.pure a) l' Q := by
  intro n st c hst hn hl b st' hr
  obtain ⟨rfl, rfl⟩ := of_pure hr
  exact ⟨.refl hst.toWf, hl.subperm ((subperm_append_right c).2 h), hQ⟩

lemma keeps_pure {a : α} (hQ : Q a) : Keeps P cx (Pure.pure a) Q :=
  .pure hQ (.refl _)

lemma Gives.bind {f : α → Analysis β} (hm : Gives P cx l m l' Q)
    (hf : ∀ a, Q a → Gives P cx (l' a) (f a) l'' R) : Gives P cx l (m >>= f) l'' R := by
  intro n st c hst hn hl b st' hr
  obtain ⟨a, st1, h1, h2⟩ := of_bind hr
  obtain ⟨s1, hl1, hQ⟩ := hm c hst hn hl h1
  obtain ⟨s2, hl2, hR⟩ := hf a hQ c (s1.fit hst) (Nat.le_trans hn s1.size_le) hl1 h2
  exact ⟨s1.trans s2, hl2, hR⟩

lemma Gives.frame (hm : Gives P cx l m l' Q) (l1 : List Scope) :
    Gives P cx (l ++ l1) m (fun a => l' a ++ l1) Q := by
  intro n st c hst hn hl a st' hr
  rw [append_assoc] at hl
  have := hm (l1 ++ c) hst hn hl hr
  rwa [← append_assoc] at this

lemma Gives.subperm {l2 : List Scope} {l2' : α → List Scope} (hm : Gives P cx l m l' Q)
    (h : Subperm l l2) (h' : ∀ a, Subperm (l2' a) (l' a)) :
    Gives P cx l2 m l2' Q := by
  intro n st c hst hn hl a st' hr
  obtain ⟨s, hl', hQ⟩ := hm c hst hn (hl.subperm ((subperm_append_right c).2 h)) hr
  exact ⟨s, hl'.subperm ((subperm_append_right c).2 (h' a)), hQ⟩

lemma Keeps.then {f : α → Analysis β} (hm : Keeps P cx m Q)
    (hf : ∀ a, Q a → Gives P cx l (f a) l'' R) : Gives P cx l (m >>= f) l'' R :=
  Gives.bind (hm.frame l) hf

lemma Keeps.step (hm : Keeps P cx m Q) (hst : st.Fit P) {a : α}
    (h : m cx st = some (a, st')) : Step P st.store.size st st' ∧ Q a :=
  let ⟨s, _, hQ⟩ := hm [] hst le_rfl .nil h
  ⟨s, hQ⟩

lemma Keeps.of_step
    (h : ∀ ⦃st⦄, st.Fit P → ∀ ⦃a st'⦄, m cx st = some (a, st') →
      Step P st.store.size st st' ∧ Q a) : Keeps P cx m Q := by
  intro n st c hst hn hl a st' hr
  obtain ⟨s, hQ⟩ := h hst hr
  exact ⟨s.anti hn, s.held hl, hQ⟩

end Gives

/-! ## Reading the state -/

lemma Keeps.of_run {m : Analysis α} {f : State → α} {Q : α → Prop}
    (h : ∀ st, m cx st = some (f st, st)) (hQ : ∀ st, st.Fit P → Q (f st)) : Keeps P cx m Q := by
  refine .of_step fun st hst a st' hr => ?_
  rw [h st, some.injEq, Prod.mk.injEq] at hr
  obtain ⟨rfl, rfl⟩ := hr
  exact ⟨.refl hst.toWf, hQ st hst⟩

lemma keeps_read : Keeps P cx (read : Analysis Context) (· = cx) :=
  .of_run (f := fun _ => cx) (fun _ => rfl) fun _ _ => rfl

lemma keeps_get : Keeps P cx (get : Analysis State) (State.Wf P) :=
  .of_run (f := id) (fun _ => rfl) fun _ h => h.toWf

lemma keeps_exprAt (id : NodeId) : Keeps P cx (exprAt id) (· = cx.arena.expr? id) :=
  .of_run (f := fun _ => cx.arena.expr? id) (fun _ => rfl) fun _ _ => rfl

end Analysis

/-! ## Changing the state -/

section Changes

variable {st : State}

/-- A change of the current scope is a step, if the scopes in break frames stay apart from it. -/
lemma Step.of_change (hst : st.Wf P) (h : Change P n st.stack.current st.store s' σ')
    (hb : ∀ b ∈ st.breaks.flatten, b.Apart s') :
    Step P n st { st with store := σ', stack := st.stack.setCurrent s' } where
  wf := by
    refine ⟨h.types, fun t ht => ?_, fun t ht => (hst.breaks t ht).mono h.size_le,
      fun b hbm t ht => ?_, hst.breaks_pairwise, hst.table.mono h.size_le, hst.events⟩
    · rcases mem_scopes_setCurrent ht with rfl | ht
      · exact h.wf
      · exact (hst.stack t ht).mono h.size_le
    · rcases mem_scopes_setCurrent ht with rfl | ht
      · exact hb b hbm
      · exact hst.breaks_apart b hbm t ht
  size_le := h.size_le
  read_eq := h.read_eq
  owns k hk := h.owns k (by simpa using hk)
  stack := by simp
  breaks := .refl ..
  depth := rfl
  events := suffix_refl _

lemma State.Wf.breaks_apart_of_change (hst : st.Wf P)
    (h : Change P st.store.size st.stack.current st.store s' σ') :
    ∀ b ∈ st.breaks.flatten, b.Apart s' := fun b hb =>
  h.apart (fun _ hk => (hst.breaks b hb).lt hk)
    (hst.breaks_apart b hb _ st.stack.current_mem_scopes)

lemma Step.of_store (hst : st.Wf P) (htypes : σ'.TypesIn P) (hle : st.store.size ≤ σ'.size)
    (hread : ∀ k, k < n → ¬ st.stack.current.Owns k → σ'.read k = st.store.read k) :
    Step P n st { st with store := σ' } where
  wf := ⟨htypes, fun t ht => (hst.stack t ht).mono hle, fun t ht => (hst.breaks t ht).mono hle,
    hst.breaks_apart, hst.breaks_pairwise, hst.table.mono hle, hst.events⟩
  size_le := hle
  read_eq := hread
  owns _ hk := .inl hk
  stack := by simp
  breaks := .refl ..
  depth := rfl
  events := suffix_refl _

lemma Step.of_table (hst : st.Wf P) (h : table.Wf P st.store) : Step P n st { st with table } where
  wf := ⟨hst.types, hst.stack, hst.breaks, hst.breaks_apart, hst.breaks_pairwise, h, hst.events⟩
  size_le := le_rfl
  read_eq _ _ _ := rfl
  owns _ hk := .inl hk
  stack := by simp
  breaks := .refl ..
  depth := rfl
  events := suffix_refl _

end Changes

namespace Analysis

lemma keeps_onScope {f : Scope → Store → Scope × Store}
    (h : ∀ s σ, s.Wf P σ → σ.TypesIn P → Change P σ.size s σ (f s σ).1 (f s σ).2) :
    Keeps P cx (onScope f) fun _ => True := by
  refine .of_step fun st hst a st' hr => ?_
  obtain ⟨-, rfl⟩ := hr
  have hc := h _ _ hst.current hst.types
  exact ⟨.of_change hst.toWf hc (hst.breaks_apart_of_change hc), trivial⟩

lemma gives_modifyTable {f : NodeTable → NodeTable}
    (h : ∀ table σ, table.Wf P σ → (∀ s ∈ l, s.Wf P σ) → (f table).Wf P σ) :
    Gives P cx l (modifyTable f) (fun _ => []) fun _ => True := by
  intro n st c hst hn hl a st' hr
  obtain ⟨-, rfl⟩ := hr
  have htable := h _ _ hst.table fun s hs => hl.wf s (mem_append_left _ hs)
  have hl' := hl.sublist (sublist_append_right l c)
  exact ⟨.of_table hst.toWf htable, ⟨hl'.wf, hl'.ge, hl'.stack, hl'.breaks, hl'.pairwise⟩, trivial⟩

lemma gives_new {f : Store → Scope × Store} {t : Scope}
    (h : ∀ σ, σ.TypesIn P → (∀ s ∈ l, s.Wf P σ) → Change P σ.size t σ (f σ).1 (f σ).2)
    (ht : t.vars = {} := by rfl) : Gives P cx l (onStore f) (fun s => s :: l) fun _ => True := by
  intro n st c hst hn hl a st' hr
  obtain ⟨rfl, rfl⟩ := hr
  have hc := h _ hst.types fun s hs => hl.wf s (mem_append_left _ hs)
  have hnone : ∀ k, ¬ t.Owns k := by
    rintro k ⟨name, hname⟩
    rw [slot?, ht] at hname
    cases hname
  have hfresh : ∀ k, (f st.store).1.Owns k → st.store.size ≤ k := fun k hk =>
    (hc.owns k hk).resolve_left (hnone k)
  refine ⟨?_, ?_, trivial⟩
  · refine .of_store hst.toWf hc.types hc.size_le fun k hk _ => ?_
    exact hc.read_eq k (Nat.lt_of_lt_of_le hk hn) (hnone k)
  · exact hl.cons_of_size_le hst.toWf (Nat.le_refl _) hc.wf hfresh hc.size_le hn rfl rfl

/-- A scope in hand is changed, with a look at the current one, into the scope that `g` makes of the
result. -/
lemma gives_onHeldWith {s : Scope} {f : Scope → Store → α × Store} (g : α → Scope)
    (h : ∀ t σ, t.Wf P σ → s.Wf P σ → (∀ t ∈ l, t.Wf P σ) → σ.TypesIn P →
      Change P σ.size s σ (g (f t σ).1) (f t σ).2) :
    Gives P cx (s :: l) (do onStore (f (← getScope))) (fun a => g a :: l) fun _ => True := by
  intro n st c hst hn hl a st' hr
  obtain ⟨rfl, rfl⟩ := Prod.mk.inj (some.inj hr)
  have hs := mem_cons_self (a := s) (l := l ++ c)
  have hc := h _ _ hst.current (hl.wf s hs) (fun t ht => hl.wf t (by simp [ht])) hst.types
  have hapart : ∀ t : Scope, t.Wf P st.store → t.Apart s →
      (g (f st.stack.current st.store).1).Apart t :=
    fun t ht hts => (hc.apart (fun _ hk => ht.lt hk) hts).symm
  refine ⟨?_, ⟨?_, ?_, ?_, ?_, ?_⟩, trivial⟩
  · refine .of_store hst.toWf hc.types hc.size_le fun k hk _ => ?_
    refine hc.read_eq k (Nat.lt_of_lt_of_le hk hn) fun ho => ?_
    exact Nat.not_le_of_lt hk (hl.ge s hs k ho)
  · intro t ht
    rcases mem_cons.1 ht with rfl | ht
    · exact hc.wf
    · exact (hl.wf t (.tail _ ht)).mono hc.size_le
  · intro t ht k hk
    rcases mem_cons.1 ht with rfl | ht
    · rcases hc.owns k hk with ho | ho
      · exact hl.ge s hs k ho
      · exact Nat.le_trans hn ho
    · exact hl.ge t (.tail _ ht) k hk
  · intro t ht u hu
    rcases mem_cons.1 ht with rfl | ht
    · exact hapart u (hst.stack u hu) (hl.stack s hs u hu).symm
    · exact hl.stack t (.tail _ ht) u hu
  · intro t ht u hu
    rcases mem_cons.1 ht with rfl | ht
    · exact hapart u (hst.breaks u hu) (hl.breaks s hs u hu).symm
    · exact hl.breaks t (.tail _ ht) u hu
  · have hp := pairwise_cons.1 hl.pairwise
    refine pairwise_cons.2 ⟨fun t ht => ?_, hp.2⟩
    exact hapart t (hl.wf t (.tail _ ht)) (hp.1 t ht).symm

lemma gives_onScope {f : Scope → Store → Scope × Store}
    (h : ∀ s σ, s.Wf P σ → (∀ t ∈ l, t.Wf P σ) → σ.TypesIn P →
      Change P σ.size s σ (f s σ).1 (f s σ).2) :
    Gives P cx l (onScope f) (fun _ => l) fun _ => True := by
  intro n st c hst hn hl a st' hr
  obtain ⟨-, rfl⟩ := hr
  have hc := h _ _ hst.current (fun t ht => hl.wf t (mem_append_left _ ht)) hst.types
  have hstep := Step.of_change hst.toWf hc (hst.breaks_apart_of_change hc)
  exact ⟨hstep.anti hn, hstep.held hl, trivial⟩

/-! ## Steps that leave a part of the state as it is -/

/-- The step leaves the part `f` of the state as it is. -/
def Fixes {γ α : Type} (cx : Context) (f : State → γ) (m : Analysis α) : Prop :=
  ∀ ⦃st : State⦄ ⦃a : α⦄ ⦃st' : State⦄, m cx st = some (a, st') → f st' = f st

namespace Fixes

variable {f : State → γ}

lemma pure {a : α} : Fixes cx f (Pure.pure a) := by
  intro st b st' h
  obtain ⟨rfl, rfl⟩ := of_pure h
  rfl

lemma bind {m : Analysis α} {g : α → Analysis β} (hm : Fixes cx f m)
    (hg : ∀ a, Fixes cx f (g a)) : Fixes cx f (m >>= g) := by
  intro st b st' h
  obtain ⟨a, st1, h1, h2⟩ := of_bind h
  rw [hg a h2, hm h1]

lemma of_run {m : Analysis α} {r : State → α} (h : ∀ st, m cx st = some (r st, st)) :
    Fixes cx f m := by
  intro st a st' hr
  rw [h st] at hr
  cases hr
  rfl

lemma onStore {g : Store → α × Store} (hf : ∀ st σ, f { st with store := σ } = f st) :
    Fixes cx f (Analysis.onStore g) := by
  intro st a st' h
  cases h
  exact hf ..

end Fixes

lemma fixes_inScope {s : Scope} {m : Analysis α} :
    Fixes cx (fun st => st.stack.current) (inScope s m) := by
  rintro st ⟨a, after⟩ st' h
  obtain ⟨st1, -, -, rfl⟩ := inScope_eq_some.1 h
  exact current_setCurrent ..

lemma fixes_forkCurrent {f : State → γ} (hf : ∀ st σ, f { st with store := σ } = f st) :
    Fixes cx f forkCurrent :=
  Fixes.bind (.of_run fun _ => rfl) fun _ => .onStore hf

end Analysis

end FlowTyping

import FlowTyping.Proofs.Compare.Scopes
import FlowTyping.Proofs.Compare.Steps
import FlowTyping.Proofs.Control.Balance

/-!
# Runs of the logical operators

What `&&`, `||` and `!` leave behind, written out from what their operands leave behind.

Two analyses that come to the same may copy their scopes at different times, or one of them may copy
a scope that the other uses as it is.  A matching of slots is one to one, so it cannot relate both a
scope and its copy to the same scope on the other side.  `Scope.SaysLike` compares what two scopes say,
each in its own store, whatever slots they use.  Copies made on either side keep it
(`SaysLike.forkLeft`, `SaysLike.forkRight`), and so do joins on both (`SaysLike.merged`) and all changes
to slots of other scopes (`SaysLike.frame`).
-/

namespace FlowTyping

open Arena Assertions Dict List NodeTable Option Scope Stack Store

variable {exact : Exactness} {marks reads : Prop} {ρ : Matching} {s t : Scope} {σ' τ' σ τ : Store}
  {es fs : List (String × Slot)} {n : Nat} {left right : NodeId} {ev : Evaluator}

/-! ## Stores with more slots -/

namespace Store

lemma Extends.refl (σ : Store) : σ.Extends σ :=
  ⟨le_rfl, fun _ => rfl⟩

lemma Extends.trans {σ'' : Store} (h : σ.Extends σ') (h' : σ'.Extends σ'') : σ.Extends σ'' :=
  ⟨le_trans h.size_le h'.size_le,
    fun hk => (h'.read_eq (hk.trans_le h.size_le)).trans (h.read_eq hk)⟩

lemma extends_fork (s : Scope) (σ : Store) : σ.Extends (s.fork σ).2 :=
  ⟨size_le_size_fork, read_fork_of_lt⟩

end Store

/-! ## What scopes say -/

lemma EntriesLike.symm {e f : String × Slot} (h : EntriesLike ⟨True, True, False⟩ σ τ e f) :
    EntriesLike ⟨True, True, False⟩ τ σ f e := by
  obtain ⟨hname, hi, hj, hread⟩ := h
  have hused := (hread.used trivial).2 trivial
  exact ⟨hname.symm, hj, hi, hread.name.symm, hread.type.symm, hread.line.symm,
    by rw [hused]; exact .refl _, fun hm => (hread.written hm).symm, fun hm => (hread.kind hm).symm,
    fun hm => (hread.byReference hm).symm, False.elim⟩

lemma ScopeFlags.Like.symm {a b : ScopeFlags} (h : a.Like True True b) : b.Like True True a :=
  h.eq ▸ .refl _

namespace Scope

/-- The slots of the scope exist and hold in the second store what they hold in the first. -/
def Untouched (s : Scope) (σ σ' : Store) : Prop :=
  ∀ e ∈ s.vars.entries, e.2 < σ.size → e.2 < σ'.size ∧ σ'.read e.2 = σ.read e.2

lemma untouched_of_extends (s : Scope) (h : σ.Extends σ') : s.Untouched σ σ' :=
  fun _ _ he => ⟨he.trans_le h.size_le, h.read_eq he⟩

/-- No variable of the scope is marked as changed. -/
def Settled (s : Scope) (σ : Store) : Prop :=
  ∀ e ∈ s.vars.entries, (σ.read e.2).typeChanged = false

lemma settled_forkVars (es : List (String × Slot)) (σ : Store) :
    ∀ e ∈ (forkVars es σ).1, ((forkVars es σ).2.read e.2).typeChanged = false := by
  induction es generalizing σ with
  | nil => exact fun _ he => nomatch he
  | cons entry es ih =>
    obtain ⟨name, i⟩ := entry
    simp only [forkVars]
    refine forall_mem_cons.2 ⟨?_, ih _⟩
    rw [read_forkVars_of_lt (by simp), read_alloc]

lemma not_mem_values_fork {k : Slot} (h : k < σ.size) : k ∉ (s.fork σ).1.vars.values :=
  fun hk => Nat.not_lt.2 (mem_values_fork hk).1 h

lemma le_of_mem_fork : ∀ e ∈ (s.fork σ).1.vars.entries, σ.size ≤ e.2 :=
  fun _ he => (mem_values_fork (mem_map_of_mem he)).1

lemma settled_fork (s : Scope) (h : (s.fork σ).2.Extends σ') : (s.fork σ).1.Settled σ' := by
  intro e he
  rw [h.read_eq (mem_values_fork (mem_map_of_mem he)).2]
  exact settled_forkVars s.vars.entries σ e he

namespace SaysLike

lemma frame (h : s.SaysLike marks reads σ t τ) (hs : s.Untouched σ σ') (ht : t.Untouched τ τ') :
    s.SaysLike marks reads σ' t τ' := by
  refine ⟨?_, h.chains, h.flags, h.function⟩
  refine forall₂_iff_get.2 ⟨h.vars.length_eq, fun i hi hj => ?_⟩
  have hef := (forall₂_iff_get.1 h.vars).2 i hi hj
  obtain ⟨hlt, hread⟩ := hs _ (get_mem _ _) hef.2.1
  obtain ⟨hlt', hread'⟩ := ht _ (get_mem _ _) hef.2.2.1
  refine ⟨hef.1, hlt, hlt', ?_⟩
  rw [hread, hread']
  exact hef.2.2.2

lemma lt_left (h : s.SaysLike marks reads σ t τ) : ∀ e ∈ s.vars.entries, e.2 < σ.size := by
  intro e he
  obtain ⟨i, rfl⟩ := mem_iff_get.1 he
  exact ((forall₂_iff_get.1 h.vars).2 i i.2 (h.vars.length_eq ▸ i.2)).2.1

lemma extend (h : s.SaysLike marks reads σ t τ) (hσ : σ.Extends σ') (hτ : τ.Extends τ') :
    s.SaysLike marks reads σ' t τ' :=
  h.frame (s.untouched_of_extends hσ) (t.untouched_of_extends hτ)

lemma symm (h : s.SaysLike True True σ t τ) : t.SaysLike True True τ s σ :=
  ⟨h.vars.flip.imp fun _ _ hef => EntriesLike.symm hef, h.chains.symm, h.flags.symm,
    fun hm => (h.function hm).symm⟩

lemma view (h : s.SaysLike marks reads σ t τ) : (s.view σ).Like ⟨marks, reads, False⟩ (t.view τ) := by
  refine ⟨?_, h.chains, h.flags, h.function⟩
  show Forall₂ _ (s.vars.entries.map _) (t.vars.entries.map _)
  rw [forall₂_map_left_iff, forall₂_map_right_iff]
  exact h.vars.imp fun _ _ hef => ⟨hef.1, hef.2.2.2⟩

end SaysLike

/-! ## Copies on one side -/

lemma forkVars_right (h : Forall₂ (EntriesLike ⟨marks, reads, False⟩ σ τ) es fs) :
    Forall₂ (EntriesLike ⟨marks, reads, False⟩ σ (forkVars fs τ).2) es (forkVars fs τ).1 := by
  induction fs generalizing τ es with
  | nil =>
    cases h
    exact .nil
  | cons f fs ih =>
    cases h with
    | @cons e _ es _ hef hrest =>
      obtain ⟨name, j⟩ := f
      obtain ⟨hname, hi, hj, hread⟩ := hef
      have hcopy : (σ.read e.2).Like ⟨marks, reads, False⟩ { τ.read j with typeChanged := false } :=
        { hread with typeChanged := False.elim }
      simp only [forkVars]
      generalize { τ.read j with typeChanged := false } = copy at hcopy
      have hnew : (τ.alloc copy).1 < (τ.alloc copy).2.size := by simp
      refine .cons ⟨hname, hi, ?_, ?_⟩
        (ih (hrest.imp fun _ _ hef => hef.extend (.refl σ) (τ.extends_alloc copy)))
      · rw [size_forkVars]
        exact hnew.trans_le (Nat.le_add_right ..)
      · rw [read_forkVars_of_lt hnew, read_alloc]
        exact hcopy

lemma SaysLike.forkRight (h : s.SaysLike marks reads σ t τ) :
    s.SaysLike marks reads σ (t.fork τ).1 (t.fork τ).2 :=
  ⟨forkVars_right h.vars, h.chains, h.flags, h.function⟩

lemma SaysLike.forkLeft (h : s.SaysLike True True σ t τ) :
    (s.fork σ).1.SaysLike True True (s.fork σ).2 t τ :=
  h.symm.forkRight.symm

/-! ## Joins of copies -/

lemma le_of_mem_mergeVars {vars : Dict Slot} (hvars : ∀ e ∈ vars.entries, n ≤ e.2)
    (hn : n ≤ σ.size) :
    ∀ e ∈ (mergeVars es vars σ).1.entries, n ≤ e.2 := by
  fun_induction mergeVars es vars σ with
  | case1 => exact hvars
  | case2 _ _ _ _ _ _ _ _ ih => exact ih hvars hn
  | case3 _ _ _ _ _ _ _ _ _ ih => exact ih hvars (by simpa using hn)
  | case4 _ _ _ _ σ _ copy σ' heq ih =>
    obtain ⟨hcopy, hsize, -⟩ := eq_of_alloc_eq heq
    refine ih (fun e he => ?_) (by omega)
    rcases mem_put he with rfl | he
    · exact hcopy ▸ hn
    · exact hvars e he

variable {s' t' : Scope}

lemma SaysLike.merged (h : s.SaysLike marks reads σ t τ) (h' : s'.SaysLike marks reads σ t' τ) :
    (Scope.merged s s' σ).1.SaysLike marks reads (Scope.merged s s' σ).2
      (Scope.merged t t' τ).1 (Scope.merged t t' τ).2 := by
  have hnone : Store.Like ⟨marks, reads, False⟩ (fun _ _ => False) σ τ :=
    ⟨False.elim, False.elim, False.elim, False.elim⟩
  obtain ⟨ρ1, -, hσ1, hfork⟩ := h.fork hnone
  -- The slots of the copies are new, so neither side finds a slot of the other path among them.
  obtain ⟨ρ2, -, hσ2, hvars⟩ := mergeVars_like hσ1 hfork.vars (h'.vars.imp fun _ _ hef =>
    ⟨EntriesLike.extend hef (extends_fork s σ) (extends_fork t τ), fun name _ _ hi hj =>
      iff_of_false (Nat.ne_of_gt (lt_of_lt_of_le hef.2.1 (owns_fork ⟨name, hi⟩).1))
        (Nat.ne_of_gt (lt_of_lt_of_le hef.2.2.1 (owns_fork ⟨name, hj⟩).1))⟩)
  have hchains : mergeChains s.chains s'.chains = mergeChains t.chains t'.chains := by
    rw [h.chains, h'.chains]
  have hmerged : (Scope.merged s s' σ).1.Like ⟨marks, reads, False⟩ ρ2 (Scope.merged t t' τ).1 :=
    ⟨hvars, hchains, h.flags.union h'.flags, h.function⟩
  exact hmerged.saysLike hσ2

lemma le_of_mem_merged : ∀ e ∈ (merged s s' σ).1.vars.entries, σ.size ≤ e.2 :=
  le_of_mem_mergeVars le_of_mem_fork size_le_size_fork

lemma extends_merged (s s' : Scope) (σ : Store) : σ.Extends (merged s s' σ).2 := by
  have hfork := extends_fork s σ
  obtain ⟨hsize, hread⟩ := read_mergeVars s'.vars.entries (s.fork σ).1.vars (s.fork σ).2
  refine ⟨le_trans hfork.size_le hsize, fun {k} hk => ?_⟩
  refine (hread k (hk.trans_le hfork.size_le) fun name hname => ?_).trans (hfork.read_eq hk)
  have := (mem_values_fork (mem_map_of_mem (mem_of_find hname))).1
  omega

lemma untouched_merge (hs : ∀ e ∈ s.vars.entries, e.2 < n)
    (ht : ∀ e ∈ t.vars.entries, n ≤ e.2) : t.Untouched σ (s.merge s' σ).2 := by
  intro e he hlt
  obtain ⟨hsize, hread⟩ := read_mergeVars s'.vars.entries s.vars σ
  refine ⟨hlt.trans_le hsize, hread _ hlt fun name hname => ?_⟩
  have hold : e.2 < n := hs (name, e.2) (mem_of_find hname)
  exact Nat.not_lt.2 (ht e he) hold

end Scope

/-! ## Matching copies -/

lemma Store.Like.matchEntries (hσ : Store.Like exact ρ σ τ)
    (h : Forall₂ (EntriesLike exact σ τ) es fs) (hes : (es.map Prod.snd).Nodup)
    (hfs : (fs.map Prod.snd).Nodup)
    (hfree : ∀ {i j}, ρ i j → i ∉ es.map Prod.snd ∧ j ∉ fs.map Prod.snd) :
    ∃ ρ', ρ ≤ ρ' ∧ Store.Like exact ρ' σ τ ∧ VarsLike ρ' es fs ∧
      ∀ {i j}, ρ' i j → ρ i j ∨ i ∈ es.map Prod.snd ∧ j ∈ fs.map Prod.snd := by
  induction h generalizing ρ with
  | nil => exact ⟨ρ, le_refl _, hσ, .nil, .inl⟩
  | @cons e f es fs hef _ ih =>
    rw [map_cons, nodup_cons] at hes hfs
    have hσ' := hσ.addPair hef.2.1 hef.2.2.1 hef.2.2.2 fun hab =>
      ⟨fun ha => (hfree hab).1 (ha ▸ .head _), fun hb => (hfree hab).2 (hb ▸ .head _)⟩
    obtain ⟨ρ', hle, hlike, hvars, hnew⟩ := ih hσ' hes.2 hfs.2 fun {i j} hij => by
      rcases hij with hij | ⟨rfl, rfl⟩
      · exact ⟨fun hi => (hfree hij).1 (.tail _ hi), fun hj => (hfree hij).2 (.tail _ hj)⟩
      · exact ⟨hes.1, hfs.1⟩
    refine ⟨ρ', le_trans (ρ.le_add _ _) hle, hlike, .cons ⟨hef.1, hle _ _ (ρ.add_self _ _)⟩ hvars,
      fun {i j} hij => ?_⟩
    rcases hnew hij with (hij | ⟨rfl, rfl⟩) | ⟨hi, hj⟩
    · exact .inl hij
    · exact .inr ⟨.head _, .head _⟩
    · exact .inr ⟨.tail _ hi, .tail _ hj⟩

/-- Scopes that say the same, of which nothing changed, may be matched where their slots are not
matched yet. -/
lemma Store.Like.matchScopes (hσ : Store.Like exact ρ σ τ) (h : s.SaysLike exact.marks exact.reads σ t τ)
    (hs : s.Settled σ) (ht : t.Settled τ) (hnodup : s.vars.values.Nodup)
    (hnodup' : t.vars.values.Nodup)
    (hfree : ∀ {i j}, ρ i j → i ∉ s.vars.values ∧ j ∉ t.vars.values) :
    ∃ ρ', ρ ≤ ρ' ∧ Store.Like exact ρ' σ τ ∧ Scope.Like exact ρ' s t ∧
      ∀ {i j}, ρ' i j → ρ i j ∨ i ∈ s.vars.values ∧ j ∈ t.vars.values := by
  have hentries : Forall₂ (EntriesLike exact σ τ) s.vars.entries t.vars.entries := by
    refine forall₂_iff_get.2 ⟨h.vars.length_eq, fun i hi hj => ?_⟩
    obtain ⟨hname, hlt, hlt', hread⟩ := (forall₂_iff_get.1 h.vars).2 i hi hj
    have hchanged := (hs _ (get_mem _ ⟨i, hi⟩)).trans (ht _ (get_mem _ ⟨i, hj⟩)).symm
    exact ⟨hname, hlt, hlt', { hread with typeChanged := fun _ => hchanged }⟩
  obtain ⟨ρ', hle, hlike, hvars, hnew⟩ := hσ.matchEntries hentries hnodup hnodup' hfree
  exact ⟨ρ', hle, hlike, ⟨hvars, h.chains, h.flags, h.function⟩, hnew⟩

/-! ## Exchanged outcomes -/

variable {p p' q q' : Scope}

lemma forks_crosswise (hσ : Store.Like .full ρ σ τ) (hp : p.SaysLike True True σ p' τ)
    (hq : q.SaysLike True True σ q' τ) :
    ∃ ρ', ρ ≤ ρ' ∧
      Store.Like .full ρ' (q.fork (p.fork σ).2).2 (p'.fork (q'.fork τ).2).2 ∧
      Scope.Like .full ρ' (p.fork σ).1 (p'.fork (q'.fork τ).2).1 ∧
      Scope.Like .full ρ' (q.fork (p.fork σ).2).1 (q'.fork τ).1 := by
  have hpσ := extends_fork p σ
  have hqσ := extends_fork q (p.fork σ).2
  have hqτ := extends_fork q' τ
  have hpτ := extends_fork p' (q'.fork τ).2
  have hfirst : (p.fork σ).1.SaysLike True True (q.fork (p.fork σ).2).2
      (p'.fork (q'.fork τ).2).1 (p'.fork (q'.fork τ).2).2 :=
    (hp.forkLeft.extend hqσ hqτ).forkRight
  have hsecond : (q.fork (p.fork σ).2).1.SaysLike True True (q.fork (p.fork σ).2).2
      (q'.fork τ).1 (p'.fork (q'.fork τ).2).2 :=
    (hq.forkRight.extend hpσ hpτ).forkLeft
  obtain ⟨ρ1, hle1, hσ1, hlike1, hnew1⟩ := (hσ.extend (hpσ.trans hqσ) (hqτ.trans hpτ)).matchScopes
    hfirst (p.settled_fork hqσ) (p'.settled_fork (.refl _)) (p.nodup_values_fork σ)
    (p'.nodup_values_fork _) fun hij => ⟨not_mem_values_fork (hσ.lt_left hij),
      not_mem_values_fork ((hσ.lt_right hij).trans_le hqτ.size_le)⟩
  -- The second copies have none of the slots of the first ones.
  obtain ⟨ρ2, hle2, hσ2, hlike2, -⟩ := hσ1.matchScopes hsecond (q.settled_fork (.refl _))
    (q'.settled_fork hpτ) (q.nodup_values_fork _) (q'.nodup_values_fork τ) fun {i j} hij => by
      rcases hnew1 hij with hij | ⟨hi, hj⟩
      · exact ⟨not_mem_values_fork ((hσ.lt_left hij).trans_le hpσ.size_le),
          not_mem_values_fork (hσ.lt_right hij)⟩
      · exact ⟨not_mem_values_fork (mem_values_fork hi).2,
          fun hj' => not_mem_values_fork (mem_values_fork hj').2 hj⟩
  exact ⟨ρ2, le_trans hle1 hle2, hσ2, hlike1.mono hle2, hlike2⟩

variable {k k' c c' a a' : Scope}

/-- What `&&` and `||` leave behind: a copy of the scope on one outcome, the join of two scopes on the
other one, and the current scope with another path joined into it.  The first two are made in opposite
order. -/
lemma shortCircuit_crosswise (hσ : Store.Like .full ρ σ τ) (hp : p.SaysLike True True σ p' τ)
    (hk : k.SaysLike True True σ k' τ) (hq : q.SaysLike True True σ q' τ) (hc : c.Like .full ρ c')
    (ha : a.Like .full ρ a') :
    let σ2 := (merged k q (p.fork σ).2).2
    let τ2 := (p'.fork (merged k' q' τ).2).2
    ∃ ρ', ρ ≤ ρ' ∧ Store.Like .full ρ' (c.merge a σ2).2 (c'.merge a' τ2).2 ∧
      Scope.Like .full ρ' (c.merge a σ2).1 (c'.merge a' τ2).1 ∧
      (p.fork σ).1.SaysLike True True (c.merge a σ2).2
        (p'.fork (merged k' q' τ).2).1 (c'.merge a' τ2).2 ∧
      (merged k q (p.fork σ).2).1.SaysLike True True (c.merge a σ2).2
        (merged k' q' τ).1 (c'.merge a' τ2).2 := by
  intro σ2 τ2
  have hpσ := extends_fork p σ
  have hmσ := extends_merged k q (p.fork σ).2
  have hmτ := extends_merged k' q' τ
  have hpτ := extends_fork p' (merged k' q' τ).2
  obtain ⟨ρ', hle, hσ', hcurrent⟩ :=
    hc.merge ha le_rfl (hσ.extend (hpσ.trans hmσ) (hmτ.trans hpτ))
  have hcopy := (hp.forkLeft.extend hmσ hmτ).forkRight
  have hjoin := ((hk.extend hpσ (.refl τ)).merged (hq.extend hpσ (.refl τ))).extend (.refl σ2) hpτ
  -- The current scope has old slots only.
  have hold := (hc.saysLike hσ).lt_left
  have hold' := (hc.saysLike hσ).symm.lt_left
  refine ⟨ρ', hle, hσ', hcurrent, hcopy.frame ?_ ?_, hjoin.frame ?_ ?_⟩
  · exact untouched_merge hold le_of_mem_fork
  · exact untouched_merge hold' fun e he =>
      le_trans hmτ.size_le (le_of_mem_fork e he)
  · exact untouched_merge hold fun e he =>
      le_trans hpσ.size_le (le_of_mem_merged e he)
  · exact untouched_merge hold' le_of_mem_merged

open Analysis Evaluator State

variable {cx : Context} {st st' : State} {id operand : NodeId} {type : Option Ty} {a : Assertions}

/-! ## Outcomes -/

/-- The scope on an outcome of a condition; the current one where the condition says nothing. -/
def State.implied (st : State) (id : NodeId) (outcome : Bool) : Scope :=
  (st.assumed id outcome).getD st.stack.current

lemma State.implied_of_none (h : st.table.assertions.get? id = none) (outcome : Bool) :
    st.implied id outcome = st.stack.current := by
  rw [implied, assumed_eq_none h]
  rfl

/-- Copies of the scopes on both outcomes of a condition. -/
def State.copies (st : State) (id : NodeId) : (Scope × Scope) × Store :=
  let whenTrue := (st.implied id true).fork st.store
  let whenFalse := (st.implied id false).fork whenTrue.2
  ((whenTrue.1, whenFalse.1), whenFalse.2)

lemma Analysis.branchScopes_copies (id : NodeId) (st : State) :
    branchScopes id cx st = some ((st.copies id).1, { st with store := (st.copies id).2 }) := rfl

lemma Analysis.bind_none {α β : Type} {m : Analysis α} {f : α → Analysis β}
    (h : m cx st = none) : (m >>= f) cx st = none := by
  show (m cx st).bind (fun r => f r.1 cx r.2) = _
  rw [h]
  rfl

/-! ## Short-circuit operators -/

/-- The copy of the scope on an outcome. -/
def State.copyOn (st : State) (id : NodeId) (outcome : Bool) : Scope :=
  if outcome then (st.copies id).1.1 else (st.copies id).1.2

/-- The state in which the right side is evaluated, where the left one came out as `b`. -/
def State.enterRight (st : State) (left : NodeId) (b : Bool) : State :=
  { st with store := (st.copies left).2, stack := st.stack.setCurrent (st.copyOn left b) }

/-- The state behind `&&` or `||`. -/
def State.leaveShort (st : State) (id left right : NodeId) (whenTrue whenFalse : Scope)
    (current : Scope × Store) : State :=
  { st with
    store := current.2
    stack := st.stack.setCurrent current.1
    table :=
      if (st.table.assertions.get? left).isSome || (st.table.assertions.get? right).isSome then
        st.table.setAssertions id ⟨some whenTrue, some whenFalse⟩
      else st.table }

/-- The state behind `&&`, where `b` holds, or `||`, of which the right side ended in `st`. -/
def State.leaveRight (st : State) (b : Bool) (id left right : NodeId) (entry other : Scope) : State :=
  if b then
    let whenTrue := (st.implied right true).fork st.store
    let whenFalse := merged other (st.implied right false) whenTrue.2
    st.leaveShort id left right whenTrue.1 whenFalse.1 (entry.merge st.stack.current whenFalse.2)
  else
    let whenTrue := merged other (st.implied right true) st.store
    let whenFalse := (st.implied right false).fork whenTrue.2
    st.leaveShort id left right whenTrue.1 whenFalse.1 (entry.merge st.stack.current whenFalse.2)

lemma State.implied_leaveShort (hid : st.table.assertions.get? id = none)
    (left right : NodeId) (whenTrue whenFalse : Scope) (current : Scope × Store) (outcome : Bool) :
    (st.leaveShort id left right whenTrue whenFalse current).implied id outcome =
      if (st.table.assertions.get? left).isSome || (st.table.assertions.get? right).isSome then
        if outcome then whenTrue else whenFalse
      else current.1 := by
  unfold leaveShort
  split
  · have hassumed := assumed_setAssertions
      { st with store := current.2, stack := st.stack.setCurrent current.1 } id
      ⟨some whenTrue, some whenFalse⟩ outcome
    rw [implied, hassumed]
    cases outcome <;> rfl
  · rw [implied_of_none]
    exacts [current_setCurrent .., hid]

lemma State.isEmpty_leaveShort (hid : st.table.assertions.get? id = none)
    {whenTrue whenFalse : Scope} {current : Scope × Store}
    (h : (st.leaveShort id left right whenTrue whenFalse current).table.assertions.get? id =
      some a) : a.isEmpty = false := by
  unfold leaveShort at h
  split at h
  · rw [get?_setAssertions, if_pos rfl] at h
    cases h
    rfl
  · rw [hid] at h
    cases h

lemma State.get?_leaveShort {c : NodeId} (hc : c ≠ id) (st : State) (left right : NodeId)
    (whenTrue whenFalse : Scope) (current : Scope × Store) :
    (st.leaveShort id left right whenTrue whenFalse current).table.assertions.get? c =
      st.table.assertions.get? c := by
  unfold leaveShort
  split
  · rw [get?_setAssertions, if_neg hc.symm]
  · rfl

namespace Evaluator

variable (ev : Evaluator)

/-- What `&&` and `||` do last: the path through the right side is joined into the current scope, and
the outcomes are recorded where an operand says something. -/
lemma finishShort_run (id left right : NodeId) (entry whenTrue whenFalse : Scope) (σ : Store)
    (st : State) :
    (do
      mergeIntoCurrent st.stack.current
      if (st.table.assertions.get? left).isSome || (st.table.assertions.get? right).isSome then
        modifyTable fun t => t.setAssertions id ⟨some whenTrue, some whenFalse⟩
      return some .bool : Analysis (Option Ty)) cx { st.within entry with store := σ } =
    some (some .bool, st.leaveShort id left right whenTrue whenFalse
      (entry.merge st.stack.current σ)) := by
  have hcurrent : (st.within entry).stack.current = entry := current_setCurrent ..
  have hstack : ∀ s, (st.within entry).stack.setCurrent s = st.stack.setCurrent s :=
    fun s => setCurrent_setCurrent ..
  unfold mergeIntoCurrent
  rw [bind_run (onScope_run _)]
  rw [hcurrent, hstack]
  unfold leaveShort
  cases (st.table.assertions.get? left).isSome || (st.table.assertions.get? right).isSome <;> rfl

lemma inferShort_run (b : Bool) (id left right : NodeId) (st : State) :
    ev.inferShort b id left right cx st = (ev.infer left cx st).bind fun (_, u) =>
      (ev.infer right cx (u.enterRight left b)).bind fun (_, w) =>
        some (some .bool, w.leaveRight b id left right u.stack.current (u.copyOn left !b)) := by
  rw [inferShort_eq]
  cases hleft : ev.infer left cx st with
  | none => exact bind_none (bind_none hleft)
  | some r =>
    obtain ⟨type, u⟩ := r
    rw [bind_run (bind_run hleft), bind_run (branchScopes_copies left u)]
    simp only [bind_some]
    cases hright : ev.infer right cx (u.enterRight left b) with
    | none =>
      refine bind_none ?_
      show (ev.infer right cx (u.enterRight left b)).bind _ = none
      rw [hright]
      rfl
    | some r =>
      obtain ⟨type', w⟩ := r
      have htable : getTable cx (w.within u.stack.current) = some (w.table, w.within u.stack.current) :=
        rfl
      rw [bind_run (inScope_eq_some.2 ⟨w, hright, rfl, rfl⟩), bind_run htable]
      cases b
      · exact finishShort_run id left right u.stack.current
          (merged (u.copyOn left true) (w.implied right true) w.store).1 _ _ w
      · exact finishShort_run id left right u.stack.current
          ((w.implied right true).fork w.store).1 _ _ w

variable {ev}

lemma inferNode_short {b : Bool}
    (he : cx.arena.expr? id = some (.binary (if b then .boolAnd else .boolOr) left right))
    (hdepth : st.depth < cx.options.maxDepth.toNat) :
    ev.inferNode id cx st = (ev.infer left cx (st.enterNode id)).bind fun (_, u) =>
      (ev.infer right cx (u.enterRight left b)).bind fun (_, w) =>
        some (some .bool, (w.leaveRight b id left right u.stack.current
          (u.copyOn left !b)).leaveNode id (some .bool)) := by
  have hshort : ev.inferExpr id (.binary (if b then .boolAnd else .boolOr) left right) =
      ev.inferShort b id left right := by
    cases b <;> rfl
  rw [inferNode_run he hdepth, hshort, inferShort_run, map_bind]
  congr 1
  funext ⟨_, u⟩
  exact map_bind ..

end Evaluator

/-! ## Negation -/

namespace Assertions

variable {c : Scope}

lemma extends_forkScope (o : Option Scope) (σ : Store) : σ.Extends (forkScope o σ).2 := by
  cases o with
  | none => exact .refl σ
  | some s => exact Store.extends_fork s σ

lemma says_forkScope {o : Option Scope} (h : (o.getD c).SaysLike True True σ t τ) :
    ((forkScope o σ).1.getD c).SaysLike True True (forkScope o σ).2 t τ := by
  cases o with
  | none => exact h
  | some s => exact h.forkLeft

lemma extends_fork (a : Assertions) (σ : Store) : σ.Extends (a.fork σ).2 :=
  (extends_forkScope a.whenTrue σ).trans (extends_forkScope a.whenFalse _)

lemma isEmpty_fork (a : Assertions) (σ : Store) : (a.fork σ).1.isEmpty = a.isEmpty := by
  obtain ⟨whenTrue, whenFalse⟩ := a
  cases whenTrue <;> cases whenFalse <;> rfl

lemma says_fork {outcome : Bool} (h : ((a.on outcome).getD c).SaysLike True True σ t τ) :
    (((a.fork σ).1.on outcome).getD c).SaysLike True True (a.fork σ).2 t τ := by
  cases outcome with
  | true => exact (says_forkScope h).extend (extends_forkScope a.whenFalse _) (.refl τ)
  | false => exact says_forkScope (h.extend (extends_forkScope a.whenTrue σ) (.refl τ))

lemma isEmpty_swapped (a : Assertions) : a.swapped.isEmpty = a.isEmpty :=
  Bool.and_comm ..

end Assertions

/-- Behind the negation of an operand: its outcomes say what those of the operand say, exchanged. -/
structure Negates (id operand : NodeId) (st st' : State) : Prop where
  store : st.store.Extends st'.store
  stack : st'.stack = st.stack
  breaks : st'.breaks = st.breaks
  depth : st'.depth = st.depth
  types : st'.table.types = st.table.types
  others : ∀ {c}, c ≠ id → st'.table.assertions.get? c = st.table.assertions.get? c
  isSome : (st'.table.assertions.get? id).isSome = (st.table.assertions.get? operand).isSome
  outcomes : ∀ {outcome t τ}, (st.implied operand (!outcome)).SaysLike True True st.store t τ →
    (st'.implied id outcome).SaysLike True True st'.store t τ

lemma Negates.refl (hid : st.table.assertions.get? id = none)
    (hoperand : st.table.assertions.get? operand = none) : Negates id operand st st where
  store := .refl _
  stack := rfl
  breaks := rfl
  depth := rfl
  types := rfl
  others _ := rfl
  isSome := by rw [hid, hoperand]
  outcomes h := by
    rw [implied_of_none hoperand] at h
    rw [implied_of_none hid]
    exact h

lemma Negates.copy (hoperand : st.table.assertions.get? operand = some a)
    (ha : a.isEmpty = false) :
    Negates id operand st { st with
      store := (a.fork st.store).2
      table := st.table.setAssertions id (a.fork st.store).1.swapped } where
  store := a.extends_fork st.store
  stack := rfl
  breaks := rfl
  depth := rfl
  types := types_setAssertions ..
  others hc := by rw [get?_setAssertions, if_neg hc.symm]
  isSome := by
    have hempty : (a.fork st.store).1.swapped.isEmpty = false := by
      rw [isEmpty_swapped, isEmpty_fork, ha]
    rw [get?_setAssertions, if_pos rfl, hempty, hoperand]
    rfl
  outcomes {outcome t τ} h := by
    have hstart : ((a.on (!outcome)).getD st.stack.current).SaysLike True True st.store t τ := by
      rwa [implied, assumed, hoperand] at h
    have hassumed := assumed_setAssertions { st with store := (a.fork st.store).2 } id
      (a.fork st.store).1.swapped outcome
    rw [implied, hassumed, on_swapped]
    exact says_fork hstart

/-- `!` exchanges the outcomes of its operand, where a reference of which nothing is known has no known
type. -/
lemma negates_negate (hid : st.table.assertions.get? id = none)
    (hempty : ∀ {a}, st.table.assertions.get? operand = some a → a.isEmpty = false)
    (hquiet : st.table.assertions.get? operand = none →
      (cx.arena.reference? operand).isSome = true → type = none) :
    ∃ st', negate id operand type cx st = some ((), st') ∧ Negates id operand st st' := by
  have htable : getTable cx st = some (st.table, st) := rfl
  unfold negate
  rw [bind_run htable]
  cases hoperand : st.table.assertions.get? operand with
  | some a => exact ⟨_, rfl, .copy hoperand (hempty hoperand)⟩
  | none =>
    refine ⟨st, ?_, .refl hid hoperand⟩
    have hread : (read : Analysis Context) cx st = some (cx, st) := rfl
    dsimp only
    rw [bind_run hread]
    cases href : cx.arena.reference? operand with
    | none => rfl
    | some r =>
      rw [hquiet hoperand (by rw [href]; rfl)]
      rfl

lemma infer_not (he : cx.arena.expr? id = some (.unary .not operand))
    (hdepth : st.depth < cx.options.maxDepth.toNat)
    (hrun : ev.infer operand cx (st.enterNode id) = some (type, st'))
    (hid : st'.table.assertions.get? id = none)
    (hempty : ∀ {a}, st'.table.assertions.get? operand = some a → a.isEmpty = false)
    (hquiet : st'.table.assertions.get? operand = none →
      (cx.arena.reference? operand).isSome = true → type = none) :
    ∃ st1, ev.inferNode id cx st = some (some .bool, st1.leaveNode id (some .bool)) ∧
      Negates id operand st' st1 := by
  obtain ⟨st1, hnegate, hnegates⟩ := negates_negate hid hempty hquiet
  refine ⟨st1, ?_, hnegates⟩
  have hunary : ev.inferExpr id (.unary .not operand) cx (st.enterNode id) =
      some (some .bool, st1) := by
    show ev.inferUnary id .not operand cx (st.enterNode id) = _
    unfold inferUnary
    rw [bind_run hrun]
    exact bind_run hnegate
  rw [inferNode_run he hdepth, hunary]
  rfl

lemma infer_not_none (he : cx.arena.expr? id = some (.unary .not operand))
    (hdepth : st.depth < cx.options.maxDepth.toNat)
    (hrun : ev.infer operand cx (st.enterNode id) = none) : ev.inferNode id cx st = none := by
  rw [inferNode_run he hdepth]
  show (ev.inferUnary id .not operand cx (st.enterNode id)).map _ = none
  unfold inferUnary
  rw [bind_none hrun]
  rfl

/-! ## References in the place of a condition -/

lemma type_eq_none_of_narrowTruthiness
    (hparent : (st.stack.parent?.any fun parent => cx.arena.expectsBool parent id) = true)
    (href : (cx.arena.reference? id).isSome = true)
    (h : narrowTruthiness id type cx st = some ((), st'))
    (hnone : st'.table.assertions.get? id = none) : type = none := by
  have htable : getTable cx st = some (st.table, st) := rfl
  have hread : (read : Analysis Context) cx st = some (cx, st) := rfl
  obtain ⟨r, href⟩ := isSome_iff_exists.1 href
  unfold narrowTruthiness at h
  rw [bind_run (parentExpectsBool_run cx st id), hparent, bind_run htable] at h
  cases hget : st.table.assertions.get? id with
  | some a =>
    rw [hget] at h
    obtain ⟨-, rfl⟩ := of_pure h
    rw [hget] at hnone
    cases hnone
  | none =>
    rw [hget] at h
    cases type with
    | none => rfl
    | some t =>
      simp only [isNone_none, Bool.and_self, if_true] at h
      rw [bind_run hread, href] at h
      dsimp only [attachNarrowing] at h
      replace h := bind_rest h rfl
      replace h := bind_rest h rfl
      obtain ⟨whenFalse, st2, -, h⟩ := of_bind h
      cases h
      rw [get?_setAssertions, if_pos rfl] at hnone
      cases hnone

/-- A reference in the place of a condition has no known type where nothing is known of it. -/
lemma type_eq_none_of_reference {parent : NodeId} {around : List NodeId}
    (hparent : st.stack.ancestors = parent :: around)
    (hexpects : cx.arena.expectsBool parent id = true)
    (h : (evaluator n).infer id cx st = some (type, st'))
    (hnone : st'.table.assertions.get? id = none) (href : (cx.arena.reference? id).isSome = true) :
    type = none := by
  have hplace : ∀ {st1 : State} {s : Scope}, st1.stack = (st.enterNode id).stack.setCurrent s →
      (st1.stack.parent?.any fun parent => cx.arena.expectsBool parent id) = true := by
    intro st1 s hstack
    have hancestors : st1.stack.ancestors = id :: parent :: around := by
      rw [hstack, ancestors_setCurrent, ← hparent]
      rfl
    rw [parent?, hancestors]
    exact hexpects
  cases he : cx.arena.expr? id with
  | none => simp [reference?, he] at href
  | some e =>
    rcases infer_cases he h with ⟨rfl, -⟩ | ⟨m, st1, rfl, hinside, rfl⟩
    · rfl
    rw [assertions_leaveNode] at hnone
    cases e with
    | var name =>
      obtain ⟨⟨⟩, st2, hmark, hrest⟩ := of_bind hinside
      replace hrest := bind_rest hrest rfl
      replace hrest := bind_rest hrest rfl
      obtain ⟨⟨⟩, hnarrow, rfl⟩ := of_result hrest
      cases hmark
      exact type_eq_none_of_narrowTruthiness (hplace rfl) href hnarrow hnone
    | prop object name nullsafe =>
      obtain ⟨objectType, st2, hobject, hrest⟩ := of_bind hinside
      obtain ⟨⟨s, hstack⟩, -⟩ := (stackKept.evaluator cx m).infer trivial hobject
      cases name with
      | dynamic name => simp [reference?, he] at href
      | identifier property =>
        replace hrest := bind_rest hrest rfl
        replace hrest := bind_rest hrest rfl
        replace hrest := bind_rest hrest rfl
        obtain ⟨⟨⟩, hnarrow, rfl⟩ := of_result hrest
        exact type_eq_none_of_narrowTruthiness (hplace hstack) href hnarrow hnone
    | _ => simp [reference?, he] at href

end FlowTyping

import FlowTyping.Proofs.Analysis.Steps

/-!
# Branches, loops and nested scopes

The steps that start a path, run it, and join it with others: they take scopes into hand and give
them back.
-/

namespace FlowTyping

open List Scope Stack State Option

variable {s : Scope} {a : Assertions} {P : Ty → Prop} {cx : Context} {n : Nat} {st st1 : State}
  {l : List Scope} {id : NodeId} {α β : Type} {m : Analysis α} {Q : α → Prop} {l' : α → List Scope}
  {l'' : β → List Scope} {R : β → Prop}

namespace Analysis

/-! ## Starting a path -/

lemma held_fork (hst : st.Wf P) (hn : n ≤ st.store.size) (hl : Held P n st l)
    (hs : s.Wf P st.store) :
    Step P n st { st with store := (s.fork st.store).2 } ∧
      Held P n { st with store := (s.fork st.store).2 } ((s.fork st.store).1 :: l) := by
  refine ⟨.of_store hst (typesIn_fork hst.types) size_le_size_fork fun k hk _ => ?_, ?_⟩
  · exact read_fork_of_lt (Nat.lt_of_lt_of_le hk hn)
  · exact hl.cons_of_size_le hst (Nat.le_refl _) (wf_fork hs)
      (fun k hk => (owns_fork hk).1) size_le_size_fork hn rfl rfl

lemma gives_forkCurrent : Gives P cx [] forkCurrent (fun s => [s]) fun _ => True := by
  intro n st c hst hn hl a st' hr
  obtain ⟨rfl, rfl⟩ := Prod.mk.inj (some.inj hr)
  obtain ⟨hstep, hheld⟩ := held_fork hst.toWf hn hl hst.current
  exact ⟨hstep, hheld, trivial⟩

end Analysis

namespace NodeTable.Wf

variable {table : NodeTable} {σ : Store} (h : table.Wf P σ)

include h

lemma of_get? (ha : table.assertions.get? id = some a) :
    ∀ s ∈ a.scopes, s.Wf P σ :=
  h.implied _ (IdMap.mem_of_get? ha)

lemma getD_whenTrue? (hs : s.Wf P σ) (id : NodeId) :
    ((table.whenTrue? id).getD s).Wf P σ := by
  cases ht : table.whenTrue? id with
  | none => exact hs
  | some t =>
    obtain ⟨a, ha, ht⟩ := bind_eq_some_iff.1 ht
    exact h.of_get? ha t (by simp [Assertions.scopes, ht])

lemma getD_whenFalse? (hs : s.Wf P σ) (id : NodeId) :
    ((table.whenFalse? id).getD s).Wf P σ := by
  cases ht : table.whenFalse? id with
  | none => exact hs
  | some t =>
    obtain ⟨a, ha, ht⟩ := bind_eq_some_iff.1 ht
    exact h.of_get? ha t (by simp [Assertions.scopes, ht])

lemma setType {t : Ty} (ht : P t) : (table.setType id t).Wf P σ := by
  refine ⟨fun r hr => ?_, h.implied⟩
  rcases mem_cons.1 hr with rfl | hr
  · exact ht
  · exact h.types r hr

lemma setAssertions (ha : ∀ s ∈ a.scopes, s.Wf P σ) :
    (table.setAssertions id a).Wf P σ := by
  unfold NodeTable.setAssertions
  split
  · exact ⟨h.types, fun r hr => h.implied r (mem_of_mem_filter hr)⟩
  · refine ⟨h.types, fun r hr => ?_⟩
    rcases mem_cons.1 hr with rfl | hr
    · exact ha
    · exact h.implied r hr

lemma setSummary (summary : UsageSummary) : (table.setSummary id summary).Wf P σ :=
  ⟨h.types, h.implied⟩

end NodeTable.Wf

namespace Analysis

variable {st' : State}

/-- The scopes that a branch starts from are copies, the one where the condition held first. -/
lemma branchScopes_run (id : NodeId) :
    branchScopes id cx st =
      let t := ((st.table.whenTrue? id).getD st.stack.current).fork st.store
      let f := ((st.table.whenFalse? id).getD st.stack.current).fork t.2
      some ((t.1, f.1), { st with store := f.2 }) := rfl

lemma gives_branchScopes (id : NodeId) :
    Gives P cx [] (branchScopes id) (fun r => [r.1, r.2]) fun _ => True := by
  intro n st c hst hn hl a st' hr
  obtain ⟨rfl, rfl⟩ := hr
  have htrue := hst.table.getD_whenTrue? hst.current id
  have hfalse := hst.table.getD_whenFalse? hst.current id
  obtain ⟨hstep1, hheld1⟩ := held_fork hst.toWf hn hl htrue
  obtain ⟨hstep2, hheld2⟩ := held_fork hstep1.wf (Nat.le_trans hn hstep1.size_le) hheld1
    (hfalse.mono hstep1.size_le)
  exact ⟨hstep1.trans hstep2, hheld2.perm (.swap ..), trivial⟩

lemma held_forkScope {o : Option Scope} (hst : st.Wf P) (hn : n ≤ st.store.size)
    (hl : Held P n st l) (ho : ∀ s ∈ o.toList, s.Wf P st.store) :
    Step P n st { st with store := (Assertions.forkScope o st.store).2 } ∧
      Held P n { st with store := (Assertions.forkScope o st.store).2 }
        ((Assertions.forkScope o st.store).1.toList ++ l) := by
  cases o with
  | none => exact ⟨.refl hst, hl⟩
  | some s => exact held_fork hst hn hl (ho s (by simp))

lemma held_forkAssertions (hst : st.Wf P) (hn : n ≤ st.store.size) (hl : Held P n st l)
    (ha : ∀ s ∈ a.scopes, s.Wf P st.store) :
    Step P n st { st with store := (a.fork st.store).2 } ∧
      Held P n { st with store := (a.fork st.store).2 } ((a.fork st.store).1.scopes ++ l) := by
  obtain ⟨hstep1, hheld1⟩ := held_forkScope hst hn hl fun s hs =>
    ha s (mem_append_left _ hs)
  obtain ⟨hstep2, hheld2⟩ := held_forkScope hstep1.wf (Nat.le_trans hn hstep1.size_le) hheld1
    fun s hs => (ha s (mem_append_right _ hs)).mono hstep1.size_le
  refine ⟨hstep1.trans hstep2, hheld2.perm ?_⟩
  rw [← append_assoc]
  exact perm_append_comm.append_right l

lemma Keeps.forkAssertions {k : Assertions → Analysis α}
    (hk : ∀ copy : Assertions, Gives P cx copy.scopes (k copy) (fun _ => []) Q)
    (hm : Keeps P cx m Q) :
    Keeps P cx (getTable >>= fun table =>
      match table.assertions.get? id with
      | some a => onStore a.fork >>= k
      | none => m) Q := by
  intro n st c hst hn hl b st' hr
  replace hr := bind_rest hr rfl
  cases ha : st.table.assertions.get? id with
  | none =>
    simp only [ha] at hr
    exact hm c hst hn hl hr
  | some a =>
    simp only [ha] at hr
    obtain ⟨copy, st1, h1, hr⟩ := of_bind hr
    obtain ⟨rfl, rfl⟩ := h1
    obtain ⟨hstep, hheld⟩ := held_forkAssertions hst.toWf hn hl (hst.table.of_get? ha)
    obtain ⟨hstep', hheld', hQ⟩ := hk _ c (hstep.fit hst) (Nat.le_trans hn hstep.size_le) hheld hr
    exact ⟨hstep.trans hstep', hheld', hQ⟩

end Analysis

/-! ## Running a path -/

lemma State.Wf.within (hst : st.Wf P) (hl : Held P n st (s :: l)) : (st.within s).Wf P := by
  have hs := mem_cons_self (a := s) (l := l)
  refine ⟨hst.types, fun t ht => ?_, hst.breaks, fun b hb t ht => ?_, hst.breaks_pairwise,
    hst.table, hst.events⟩
  · rcases mem_scopes_setCurrent ht with rfl | ht
    · exact hl.wf _ hs
    · exact hst.stack t ht
  · rcases mem_scopes_setCurrent ht with rfl | ht
    · exact (hl.breaks _ hs b hb).symm
    · exact hst.breaks_apart b hb t ht

lemma State.Fit.within (hst : st.Fit P) (hl : Held P n st (s :: l)) : (st.within s).Fit P :=
  hst.of_classes_eq (hst.toWf.within hl) (classes_setCurrent ..)

/-- A step in a scope in hand, seen from outside: that scope is exchanged for the one it leaves
behind, and only variables of that scope and new ones are written. -/
lemma Step.of_within (hst : st.Wf P) (hn : n ≤ st.store.size) (hl : Held P n st (s :: l))
    (h : Step P st.store.size (st.within s) st1) :
    Step P n st (st1.within st.stack.current) ∧
      Held P n (st1.within st.stack.current) (st1.stack.current :: l) ∧
      (st1.within st.stack.current).stack = st.stack := by
  have hs := mem_cons_self (a := s) (l := l)
  have hstack : (st1.within st.stack.current).stack = st.stack := by
    show st1.stack.setCurrent _ = _
    rw [h.stack]
    simp [within]
  have hcur : ∀ k, st1.stack.current.Owns k → s.Owns k ∨ st.store.size ≤ k := fun k hk => by
    simpa [within] using h.owns k hk
  -- A scope of before is apart from the scope the step leaves behind and from new break scopes.
  have hold : ∀ t : Scope, t.Wf P st.store → t.Apart s → t.Apart st1.stack.current :=
    fun t ht hts => h.apart_current (fun _ hk => ht.lt hk) (by simpa [within] using hts)
  have hnew : ∀ t : Scope, t.Wf P st.store → (∀ b ∈ st.breaks.flatten, t.Apart b) →
      ∀ b ∈ st1.breaks.flatten, t.Apart b := fun t ht => h.breaks.apart fun _ hk => ht.lt hk
  refine ⟨⟨⟨h.wf.types, ?_, h.wf.breaks, ?_, h.wf.breaks_pairwise, h.wf.table, h.wf.events⟩,
    h.size_le, ?_, ?_, ?_, h.breaks.anti hn, h.depth, h.events⟩, ⟨?_, ?_, ?_, ?_, ?_⟩, hstack⟩
  · intro t ht
    rw [hstack] at ht
    exact (hst.stack t ht).mono h.size_le
  · intro b hb t ht
    rw [hstack] at ht
    exact (hnew t (hst.stack t ht) (fun b hb => (hst.breaks_apart b hb t ht).symm) b hb).symm
  · intro k hk _
    refine h.read_eq k (Nat.lt_of_lt_of_le hk hn) fun ho => ?_
    have ho : s.Owns k := by simpa [within] using ho
    exact Nat.not_le_of_lt hk (hl.ge s hs k ho)
  · intro k hk
    rw [hstack] at hk
    exact .inl hk
  · rw [hstack]
    simp
  · exact forall_mem_cons.2 ⟨h.wf.current, fun t ht => (hl.tail.wf t ht).mono h.size_le⟩
  · exact forall_mem_cons.2
      ⟨fun k hk => (hcur k hk).elim (hl.ge s hs k) (Nat.le_trans hn), hl.tail.ge⟩
  · rw [hstack]
    exact forall_mem_cons.2
      ⟨fun u hu => (hold u (hst.stack u hu) (hl.stack s hs u hu).symm).symm, hl.tail.stack⟩
  · exact forall_mem_cons.2
      ⟨fun b hb => (h.wf.breaks_apart b hb _ st1.stack.current_mem_scopes).symm,
        fun t ht => hnew t (hl.tail.wf t ht) (hl.tail.breaks t ht)⟩
  · have hp := pairwise_cons.1 hl.pairwise
    exact pairwise_cons.2
      ⟨fun t ht => (hold t (hl.tail.wf t ht) (hp.1 t ht).symm).symm, hp.2⟩

namespace Analysis

lemma gives_inScope (hm : Gives P cx [] m l' Q) :
    Gives P cx [s] (inScope s m) (fun r => r.2 :: l' r.1) fun r => Q r.1 := by
  intro n st c hst hn hl r st' hr
  obtain ⟨a, after⟩ := r
  obtain ⟨st1, h1, rfl, rfl⟩ := inScope_eq_some.1 hr
  obtain ⟨hstep1, hheld1, hQ⟩ := hm [] (hst.within hl) (Nat.le_refl _) .nil h1
  rw [append_nil] at hheld1
  obtain ⟨hstep, hheld, hstack⟩ := Step.of_within hst.toWf hn hl hstep1
  -- What `m` gives is newer than anything that was in hand or on the stack before.
  have hnew : ∀ t ∈ l' a, ∀ u : Scope, u.Wf P st.store → t.Apart u := fun t ht u hu k hk hk' =>
    Nat.not_le_of_lt (hu.lt hk') (hheld1.ge t ht k hk)
  have hgiven : Held P n (st1.within st.stack.current) (l' a) :=
    ⟨hheld1.wf, fun t ht k hk => Nat.le_trans hn (hheld1.ge t ht k hk),
      fun t ht u hu => hnew t ht u (hst.stack u (hstack ▸ hu)), hheld1.breaks, hheld1.pairwise⟩
  have hall := hgiven.append hheld fun t ht => forall_mem_cons.2
    ⟨hheld1.stack t ht _ st1.stack.current_mem_scopes, fun u hu => hnew t ht u (hl.tail.wf u hu)⟩
  exact ⟨hstep, hall.perm perm_middle, hQ⟩

/-! ## Joining paths -/

lemma gives_replaceCurrent (r : Scope) :
    Gives P cx [r] (replaceCurrent r) (fun _ => []) fun _ => True := by
  intro n st c hst hn hl a st' hr
  have hr' : replaceCurrent r cx st = some ((), _) := onScope_run ..
  obtain ⟨-, rfl⟩ := hr
  have hrm := mem_cons_self (a := r) (l := c)
  have hapart := hl.stack r hrm _ st.stack.current_mem_scopes
  have hchange := change_replaceWith hst.current (hl.wf r hrm) hst.types (hl.ge r hrm) hapart
  -- A scope apart from both is apart from the scope that takes over.
  have howns : ∀ t : Scope, t.Apart st.stack.current → t.Apart r →
      t.Apart (st.stack.current.replaceWith r st.store).1 := by
    rintro t ht htr k hk ⟨name, hname⟩
    rcases owner_of_slot?_replaceWith hname with h | h
    · exact ht k hk ⟨name, h⟩
    · exact htr k hk ⟨name, h⟩
  have hstep := Step.of_change hst.toWf hchange fun b hb =>
    howns b (hst.breaks_apart b hb _ st.stack.current_mem_scopes) (hl.breaks r hrm b hb).symm
  refine ⟨hstep, ⟨fun t ht => ?_, hl.tail.ge, fun t ht u hu => ?_, hl.tail.breaks,
    hl.tail.pairwise⟩, trivial⟩
  · exact (hl.tail.wf t ht).mono hstep.size_le
  · rcases mem_scopes_setCurrent hu with rfl | hu
    · exact howns t (hl.tail.stack t ht _ st.stack.current_mem_scopes)
        ((pairwise_cons.1 hl.pairwise).1 t ht).symm
    · exact hl.tail.stack t ht u hu

/-! ## Loops -/

lemma recordBreak_run (s : Scope) :
    recordBreak s cx st = some ((), match st.breaks with
      | [] => st
      | frame :: outer => { st with breaks := (frame ++ [s]) :: outer }) := rfl

lemma gives_recordBreak (s : Scope) :
    Gives P cx [s] (recordBreak s) (fun _ => []) fun _ => True := by
  intro n st c hst hn hl a st' hr
  have hs := mem_cons_self (a := s) (l := c)
  cases hb : st.breaks with
  | nil =>
    simp only [recordBreak_run, hb, some.injEq, Prod.mk.injEq] at hr
    obtain ⟨-, rfl⟩ := hr
    exact ⟨.refl hst.toWf, hl.tail, trivial⟩
  | cons frame outer =>
    simp only [recordBreak_run, hb, some.injEq, Prod.mk.injEq] at hr
    obtain ⟨-, rfl⟩ := hr
    have hperm : Perm ((frame ++ [s]) :: outer).flatten (s :: st.breaks.flatten) := by
      simp only [hb, flatten_cons, append_assoc, cons_append, nil_append]
      exact perm_middle
    have hall {p : Scope → Prop} (hp : p s) (hold : ∀ t ∈ st.breaks.flatten, p t) :
        ∀ t ∈ ((frame ++ [s]) :: outer).flatten, p t := fun t ht =>
      forall_mem_cons.2 ⟨hp, hold⟩ t (hperm.mem_iff.1 ht)
    refine ⟨⟨⟨hst.types, hst.stack, hall (hl.wf _ hs) hst.breaks,
      hall (hl.stack _ hs) hst.breaks_apart, ?_, hst.table, hst.events⟩,
      le_rfl, fun _ _ _ => rfl, fun _ hk => .inl hk, by simp, ?_, rfl,
      suffix_refl _⟩, ⟨hl.tail.wf, hl.tail.ge, hl.tail.stack, fun t ht => ?_,
      hl.tail.pairwise⟩, trivial⟩
    · refine Pairwise.perm ?_ hperm.symm Scope.Apart.symm
      exact pairwise_cons.2 ⟨hl.breaks s hs, hst.breaks_pairwise⟩
    · rw [hb]
      exact ⟨[s], rfl, fun t ht => mem_singleton.1 ht ▸ hl.ge s hs⟩
    · exact hall ((pairwise_cons.1 hl.pairwise).1 t ht).symm (hl.tail.breaks t ht)

end Analysis

/-- The state at the start of the body of a loop. -/
def State.enterLoop (st : State) : State :=
  { st with breaks := [] :: st.breaks }

/-- The state behind the body of a loop. -/
def State.leaveLoop (st : State) : State :=
  { st with breaks := st.breaks.tail }

lemma State.Wf.enterLoop (h : st.Wf P) : st.enterLoop.Wf P :=
  ⟨h.types, h.stack, h.breaks, h.breaks_apart, h.breaks_pairwise, h.table, h.events⟩

lemma State.Fit.enterLoop (h : st.Fit P) : st.enterLoop.Fit P :=
  ⟨h.toWf.enterLoop, h.classes⟩

lemma Held.enterLoop (h : Held P n st l) : Held P n st.enterLoop l :=
  ⟨h.wf, h.ge, h.stack, h.breaks, h.pairwise⟩

/-- The scopes that were recorded in the frame of a loop come into hand when the loop is left. -/
lemma Step.leaveLoop (h : Step P n st.enterLoop st1) (hl : Held P n st1 l) :
    Step P n st st1.leaveLoop ∧ Held P n st1.leaveLoop (st1.breaks.headD [] ++ l) := by
  obtain ⟨frame, hbreaks, hframe⟩ := h.breaks
  rw [nil_append] at hbreaks
  have hflat : st1.breaks.flatten = frame ++ st.breaks.flatten := by
    rw [hbreaks, flatten_cons]
  have htail : st1.leaveLoop.breaks = st.breaks := by
    simp [State.leaveLoop, hbreaks]
  have hhead : st1.breaks.headD [] = frame := by simp [hbreaks]
  have hleft : ∀ t ∈ frame, t ∈ st1.breaks.flatten := fun t ht =>
    hflat ▸ mem_append_left _ ht
  have hright : ∀ t ∈ st.breaks.flatten, t ∈ st1.breaks.flatten := fun t ht =>
    hflat ▸ mem_append_right _ ht
  obtain ⟨hpair, hpair', hcross⟩ := pairwise_append.1 (hflat ▸ h.wf.breaks_pairwise)
  have hrecorded : Held P n st1.leaveLoop frame :=
    ⟨fun t ht => h.wf.breaks t (hleft t ht), hframe,
      fun t ht => h.wf.breaks_apart t (hleft t ht), htail ▸ hcross, hpair⟩
  have hl' : Held P n st1.leaveLoop l :=
    ⟨hl.wf, hl.ge, hl.stack, htail ▸ fun t ht u hu => hl.breaks t ht u (hright u hu), hl.pairwise⟩
  rw [hhead]
  refine ⟨⟨⟨h.wf.types, h.wf.stack, ?_, ?_, ?_, h.wf.table, h.wf.events⟩, h.size_le, h.read_eq,
    h.owns, h.stack, ?_, h.depth, h.events⟩,
    hrecorded.append hl' fun t ht u hu => (hl.breaks u hu t (hleft t ht)).symm⟩ <;> rw [htail]
  · exact fun t ht => h.wf.breaks t (hright t ht)
  · exact fun t ht => h.wf.breaks_apart t (hright t ht)
  · exact hpair'
  · exact .refl ..

namespace Analysis

/-- The body of a loop, and what follows it with the scopes at the places that leave it early. -/
lemma Gives.loop {f : α → List Scope → Analysis β} (hm : Gives P cx l m l' Q)
    (hf : ∀ a breaks, Q a → Gives P cx (breaks ++ l' a) (f a breaks) l'' R) :
    Gives P cx l (enterLoop >>= fun _ => m >>= fun a => leaveLoop >>= f a) l'' R := by
  intro n st c hst hn hl b st' hr
  replace hr := bind_rest hr rfl
  obtain ⟨a, st1, h1, hr⟩ := of_bind hr
  obtain ⟨hstep1, hheld1, hQ⟩ := hm c hst.enterLoop hn hl.enterLoop h1
  replace hr := bind_rest hr rfl
  obtain ⟨hstep2, hheld2⟩ := Step.leaveLoop hstep1 hheld1
  rw [← append_assoc] at hheld2
  obtain ⟨hstep3, hheld3, hR⟩ := hf a _ hQ c (hstep2.fit hst) (Nat.le_trans hn hstep2.size_le) hheld2
    hr
  exact ⟨hstep2.trans hstep3, hheld3, hR⟩

end Analysis

/-! ## The nodes and classes around -/

/-- The state with other classes and nodes around the current code. -/
def State.around (st : State) (classes : List ClassContext) (ancestors : List NodeId)
    (depth : Nat) : State :=
  { st with stack := { st.stack with classes, ancestors }, depth }

section Around

variable {classes : List ClassContext} {ancestors : List NodeId} {depth : Nat}

lemma State.Wf.around (h : st.Wf P) : (st.around classes ancestors depth).Wf P :=
  ⟨h.types, h.stack, h.breaks, h.breaks_apart, h.breaks_pairwise, h.table, h.events⟩

lemma Held.around (h : Held P n st l) : Held P n (st.around classes ancestors depth) l :=
  ⟨h.wf, h.ge, h.stack, h.breaks, h.pairwise⟩

lemma Step.around (h : Step P n (st.around classes ancestors depth) st1) :
    Step P n st (st1.around st.stack.classes st.stack.ancestors st.depth) where
  wf := h.wf.around
  size_le := h.size_le
  read_eq := h.read_eq
  owns := h.owns
  stack := by
    have hstack : (st1.around st.stack.classes st.stack.ancestors st.depth).stack
        = { ((st.around classes ancestors depth).stack.setCurrent st1.stack.current) with
            classes := st.stack.classes, ancestors := st.stack.ancestors } := by
      rw [← h.stack]
      rfl
    rw [hstack]
    cases hnested : st.stack.nested <;> simp [setCurrent, current, State.around, hnested]
  breaks := h.breaks
  depth := rfl
  events := h.events

end Around

namespace Analysis

lemma Gives.around {enter leave : State → State} {f : α → Analysis β}
    (henter : ∀ st, ∃ classes ancestors depth, enter st = st.around classes ancestors depth ∧
      ((∀ c ∈ st.stack.classes, c.TypesIn P) → ∀ c ∈ classes, c.TypesIn P))
    (hleave : ∀ st st1, st1.stack.classes = (enter st).stack.classes →
      st1.stack.ancestors = (enter st).stack.ancestors → st1.depth = (enter st).depth →
      leave st1 = st1.around st.stack.classes st.stack.ancestors st.depth)
    (hm : Gives P cx l m l' Q) (hf : ∀ a, Q a → Gives P cx (l' a) (f a) l'' R) :
    Gives P cx l (modify enter >>= fun _ => m >>= fun a => modify leave >>= fun _ => f a)
      l'' R := by
  intro n st c hst hn hl b st' hr
  replace hr := bind_rest hr rfl
  obtain ⟨a, st1, h1, hr⟩ := of_bind hr
  replace hr := bind_rest hr rfl
  obtain ⟨classes, ancestors, depth, heq, hclasses⟩ := henter st
  rw [heq] at h1
  have hst0 : (st.around classes ancestors depth).Fit P :=
    ⟨hst.toWf.around, hclasses hst.classes⟩
  obtain ⟨hstep1, hheld1, hQ⟩ := hm c hst0 hn hl.around h1
  have hstack := hstep1.stack
  have hback : leave st1 = st1.around st.stack.classes st.stack.ancestors st.depth := by
    refine hleave st st1 ?_ ?_ ?_ <;> rw [heq]
    · rw [hstack, classes_setCurrent]
    · rw [hstack, ancestors_setCurrent]
    · exact hstep1.depth
  rw [hback] at hr
  obtain ⟨hstep2, hheld2, hR⟩ := hf a hQ c (hstep1.around.fit hst)
    (Nat.le_trans hn hstep1.size_le) hheld1.around hr
  exact ⟨hstep1.around.trans hstep2, hheld2, hR⟩

end Analysis

end FlowTyping

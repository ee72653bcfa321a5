import FlowTyping.Proofs.Growth.Steps

/-!
# Rules that branch

The operands of `&&` and `||`, the branches of a ternary and the arms of a match are evaluated in
copies of the current scope, which then takes over the join of the copies.  Each copy starts from the
current scope or from an outcome of a condition, so it has what the current scope has; and what was
read in it is marked in the join.

**Paths.**  `Grower`: the evaluator loses nothing at plain nodes.  `Grower.inScope`: what runs in a
copy passes from the copy to the scope at its end, and leaves the other scopes alone (`Branch`).
-/

namespace FlowTyping

open Analysis Evaluator List Option Scope Stack Ty

variable {W : Watch} {cx : Context} {ev : Evaluator} {arena : Arena} {id : NodeId}
  {s t after : Scope} {nodes : List NodeId}

/-- The evaluator loses nothing at plain nodes. -/
structure Grower (W : Watch) (cx : Context) (ev : Evaluator) : Prop where
  keeps : ev.Keeps (fun _ => True) cx
  infer : ∀ {id}, cx.arena.PlainFor W id → ∀ ⦃st type st'⦄, Pending cx.arena [id] st →
    ev.infer id cx st = some (type, st') →
      st'.Placed ∧ Passed W cx.arena [] [id] st st' ∧ (cx.arena.FreeIn W id → st'.Implied W id)
  assign : ∀ {id}, cx.arena.PlainFor W id → ∀ {type : Option Ty},
    (type.isSome = true → (Contexts.watching W cx).Writes id) → ∀ line,
    Grows W cx [id] (ev.assign id type line)
  writeInto : ∀ {id}, cx.arena.PlainFor W id → ∀ line, Grows W cx [id] (ev.writeInto id line)
  compact : ∀ {id}, cx.arena.PlainFor W id → Grows W cx [] (ev.compact id)

lemma Grower.stepwise (hev : Grower W cx ev) :
    Stepwise (fun _ => True) (.watching W cx) (cx.arena.PlainFor W) (cx.arena.PlainFor W)
      (cx.arena.PlainFor W) ev (Judgement.typed (Grows W cx)) where
  toSequential := Grows.sequential W cx
  seen _ := trivial
  infer hid _ _ _ hpending h := (hev.infer hid hpending h).imp id And.left
  read_of_passed := id
  bindByRef hid line := (Grows.sequential W cx).bindByRef line
    (fun _ => hev.assign hid (by exact nofun) line)
    fun _ _ _ hpending h => (hev.infer hid hpending h).imp id And.left
  assign hid _ htarget _ := hev.assign hid htarget
  writeInto := hev.writeInto
  compact := hev.compact
  recordWriteAt _ htarget _ ht line := (Grows.sequential W cx).recordWrite htarget ht line
    fun _ _ _ _ _ _ _ _ h => nomatch h

variable {st st' : State} {l : List Scope} {b : Bool} {f start : Scope} {rest : List NodeId}

/-! ## Paths -/

/-- The evaluation of a node in the scope `s`, which is `after` at its end, with the scopes `l` in
hand. -/
structure Branch (W : Watch) (arena : Arena) (id : NodeId) (s : Scope) (l : List Scope) (st : State)
    (after : Scope) (st' : State) : Prop where
  placed : st'.Placed
  held : st'.Holds (after :: l)
  stack : st'.stack = st.stack
  passes : Passes W arena [] [id] s st after st'
  others : ∀ t ∈ st.stack.current :: l, ∀ name, t.var? st'.store name = t.var? st.store name
  implied : arena.FreeIn W id → ∀ {outcome t}, st'.assumed id outcome = some t →
    after.Leads W st'.store t st'.store

namespace Branch

variable (h : Branch W arena id s l st after st')

include h

lemma leads (ht : t ∈ st.stack.current :: l) : t.Leads W st.store t st'.store :=
  .of_var?_eq (h.others t ht) rfl

lemma leads_back :
    st'.stack.current.Leads W st'.store st.stack.current st.store := by
  rw [h.stack]
  exact .of_var?_eq (fun name => (h.others _ (.head _) name).symm) rfl

end Branch

lemma leads_getD
    (himplied : ∀ {outcome t}, st.assumed id outcome = some t → s.Leads W st.store t st.store)
    (outcome : Bool) : s.Leads W st.store ((st.assumed id outcome).getD s) st.store := by
  cases h : st.assumed id outcome with
  | none => exact .refl s st.store
  | some t => exact himplied h

lemma leads_branchScopes (hst : st.Placed) (himplied : st.Implied W id)
    (h : branchScopes id cx st = some (if b then (t, f) else (f, t), st')) :
    st.stack.current.Leads W st.store t st'.store ∧
      st.stack.current.Leads W st.store f st'.store := by
  have htrue := hst.getD_assumed hst.current id true
  have hfalse := hst.getD_assumed hst.current id false
  have hleadsTrue := (leads_getD himplied true).trans ((leads_fork htrue).trans
    (leads_forkScope (wf_fork htrue) (some ((st.assumed id false).getD st.stack.current))))
  have hleadsFalse := (leads_getD himplied false).trans
    ((leads_forkScope hfalse (some ((st.assumed id true).getD st.stack.current))).trans
      (leads_fork (hfalse.mono size_le_size_fork)))
  cases b with
  | true =>
    cases h
    exact ⟨hleadsTrue, hleadsFalse⟩
  | false =>
    cases h
    exact ⟨hleadsFalse, hleadsTrue⟩

lemma leads_mergeIntoCurrent (hst : st.Placed) (hl : st.Holds (s :: l))
    (h : mergeIntoCurrent s cx st = some ((), st')) :
    s.Leads W st.store st'.stack.current st'.store ∧
      (∀ {t τ}, st.stack.current.Leads W st.store t τ → s.Leads W st.store t τ →
        st'.stack.current.Leads W st'.store t τ) ∧
      ∀ t ∈ l, t.Leads W st.store t st'.store := by
  have hs := mem_cons_self (a := s) (l := l)
  have hapart := hl.stack s hs _ st.stack.current_mem_scopes
  have hc := change_merge closed_true.join hst.current (hl.wf s hs) hst.types
    le_rfl
  obtain ⟨-, rfl⟩ := Prod.mk.inj (some.inj h)
  simp only [current_setCurrent]
  refine ⟨leads_merge_right hst.current (hl.wf s hs) hapart,
    leads_of_merge hst.current (hl.wf s hs) hapart, fun t ht => ?_⟩
  have ht := mem_cons_of_mem s ht
  exact .of_var?_eq (hc.var?_eq (fun _ hk => (hl.wf t ht).lt hk)
    (hl.stack t ht _ st.stack.current_mem_scopes)) rfl

lemma leads_replaceCurrent (hst : st.Placed) (hl : st.Holds (s :: l))
    (h : replaceCurrent s cx st = some ((), st')) :
    s.Leads W st.store st'.stack.current st'.store ∧ ∀ t ∈ l, t.Leads W st.store t st'.store := by
  have hs := mem_cons_self (a := s) (l := l)
  have hcurrent := st.stack.current_mem_scopes
  obtain ⟨-, rfl⟩ := Prod.mk.inj (some.inj h)
  simp only [current_setCurrent]
  refine ⟨leads_replaceWith hst.current (hl.wf s hs) (hl.stack s hs _ hcurrent),
    fun t ht => .of_var?_eq (fun name => map_congr fun k hk => ?_) rfl⟩
  exact read_replaceWith_of_not_mem (hl.wf s hs).placed.nodup fun a ha =>
    absurd ⟨a, ha⟩ (hl.stack t (.tail _ ht) _ hcurrent k ⟨name, hk⟩)

lemma leads_joinAll {ends : List Scope} {o : Option Scope} (hst : st.Placed)
    (hl : st.Holds (ends ++ l))
    (h : onStore (joinAll ends) cx st = some (o, st')) :
    (∀ t ∈ ends, ∃ s ∈ o, t.Leads W st.store s st'.store) ∧
      (∀ s ∈ o, ∃ t ∈ ends, t.Leads W st.store s st'.store) ∧
      ∀ t ∈ st.stack.current :: l, t.Leads W st.store t st'.store := by
  cases ends with
  | nil =>
    obtain ⟨rfl, rfl⟩ := Prod.mk.inj (some.inj h)
    exact ⟨fun _ ht => (nomatch ht), fun _ hs => (nomatch hs), fun t _ => .refl t st.store⟩
  | cons first rest =>
    obtain ⟨rfl, rfl⟩ := Prod.mk.inj (some.inj h)
    obtain ⟨hpair, -, hcross⟩ := pairwise_append.1 hl.pairwise
    rw [pairwise_cons] at hpair
    have hwf : ∀ t ∈ first :: rest, t.Wf (fun _ => True) st.store := fun t ht =>
      hl.wf t (mem_append_left _ ht)
    rw [forall_mem_cons] at hwf
    have hgrows := leads_mergeAll (W := W) closed_true.join hwf.1 hwf.2 hst.types
      (fun t ht => (hpair.1 t ht).symm) hpair.2
    have hchange := change_mergeAll closed_true.join hwf.1 hwf.2 hst.types
      le_rfl
    have hother : ∀ t : Scope, t.Wf (fun _ => True) st.store → t.Apart first →
        t.Leads W st.store t (first.mergeAll rest st.store).2 := fun t ht hapart =>
      .of_var?_eq (hchange.var?_eq (fun _ hk => ht.lt hk) hapart) rfl
    refine ⟨fun t ht => ⟨_, rfl, hgrows t ht⟩, fun s hs => ⟨first, .head _, ?_⟩,
      forall_mem_cons.2 ⟨hother _ hst.current ?_, fun t ht => hother t ?_ ?_⟩⟩
    · obtain rfl := some.inj hs
      exact hgrows first (.head _)
    · exact (hl.stack first (.head _) _ st.stack.current_mem_scopes).symm
    · exact hl.wf t (mem_append_right _ ht)
    · exact (hcross first (.head _) t ht).symm

lemma leads_of_forkScope (hs : s.Wf (fun _ => True) st.store)
    (h : forkScope s cx st = some (t, st')) : s.Leads W st.store t st'.store := by
  obtain ⟨rfl, rfl⟩ := Prod.mk.inj (some.inj h)
  exact leads_fork hs

lemma leads_of_merged {a b : Scope} (ha : a.Wf (fun _ => True) st.store)
    (hb : b.Wf (fun _ => True) st.store) (h : onStore (merged a b) cx st = some (t, st')) :
    a.Leads W st.store t st'.store ∧ b.Leads W st.store t st'.store := by
  obtain ⟨rfl, rfl⟩ := Prod.mk.inj (some.inj h)
  exact ⟨leads_merged_left ha hb, leads_merged_right ha hb⟩

lemma leads_shortScopes {other whenTrue whenFalse : Scope} (hst : st.Placed)
    (hother : other.Wf (fun _ => True) st.store) (ht : t.Wf (fun _ => True) st.store)
    (hf : f.Wf (fun _ => True) st.store) (htrue : s.Leads W st.store t st.store)
    (hfalse : s.Leads W st.store f st.store)
    (h : shortScopes b other t f cx st = some ((whenTrue, whenFalse), st')) :
    s.Leads W st.store whenTrue st'.store ∧ s.Leads W st.store whenFalse st'.store := by
  cases b with
  | true =>
    obtain ⟨first, st1, hfork, hrest⟩ := of_bind h
    obtain ⟨second, hmerged, heq⟩ := of_result hrest
    cases heq
    obtain ⟨hadds1, -, hst1, hl1, -⟩ := forkScope_known hst .nil ht hfork
    have hf1 := hf.mono hadds1.size_le
    have hother1 := hother.mono hadds1.size_le
    have hadds2 := (merged_known closed_true hst1 .nil hother1 hf1 hmerged).1
    constructor
    · exact htrue.trans ((leads_of_forkScope ht hfork).trans (hadds2.leads (hl1.wf _ (.head _))))
    · exact hfalse.trans ((hadds1.leads hf).trans (leads_of_merged hother1 hf1 hmerged).2)
  | false =>
    obtain ⟨first, st1, hmerged, hrest⟩ := of_bind h
    obtain ⟨second, hfork, heq⟩ := of_result hrest
    cases heq
    obtain ⟨hadds1, -, hst1, hl1, -⟩ := merged_known closed_true hst .nil hother ht hmerged
    have hf1 := hf.mono hadds1.size_le
    have hadds2 := (forkScope_known hst1 .nil hf1 hfork).1
    constructor
    · exact htrue.trans ((leads_of_merged hother ht hmerged).2.trans
        (hadds2.leads (hl1.wf _ (.head _))))
    · exact hfalse.trans ((hadds1.leads hf).trans (leads_of_forkScope hf1 hfork))

/-- The paths that end with `ends` come back to the current scope, with the scopes `l` in hand. -/
structure Rejoined (W : Watch) (ends l : List Scope) (st st' : State) : Prop where
  placed : st'.Placed
  held : st'.Holds l
  records : st'.table.assertions = st.table.assertions
  events : st'.events = st.events
  current : ∀ {s : Scope} {σ}, s.Leads W σ st.stack.current st.store →
    (∀ t ∈ ends, s.Leads W σ t st.store) → s.Leads W σ st'.stack.current st'.store
  ends : ∀ t ∈ ends, t.Leads W st.store st'.stack.current st'.store
  others : ∀ t ∈ l, t.Leads W st.store t st'.store

lemma rejoined_of_joinAll {α : Type} {ends : List Scope} {o : Option Scope} {st1 : State}
    {rest : Analysis α} {a : α} (hst : st.Placed) (hl : st.Holds (ends ++ l))
    (hjoin : onStore (joinAll ends) cx st = some (o, st1))
    (h : (match o with
      | some joined => do
        replaceCurrent joined
        rest
      | none => rest) cx st1 = some (a, st')) :
    ∃ st2, Rejoined W ends l st st2 ∧ rest cx st2 = some (a, st') := by
  obtain ⟨hends, hsome, hothers⟩ := leads_joinAll hst hl hjoin
  obtain ⟨hstep1, hheld1, -⟩ :=
    (giving_holding closed_true.toStable).joinAll ends l hst (Nat.zero_le _) hl hjoin
  rw [forall_mem_cons] at hothers
  have hquiet1 : st1.stack = st.stack ∧ st1.table.assertions = st.table.assertions ∧
      st1.events = st.events := by
    cases hjoin
    exact ⟨rfl, rfl, rfl⟩
  cases o with
  | none =>
    refine ⟨st1, ⟨hstep1.wf, hheld1, hquiet1.2.1, hquiet1.2.2, fun hs _ => ?_, fun t ht => ?_,
      hothers.2⟩, h⟩
    · rw [hquiet1.1]
      exact hs.trans hothers.1
    · obtain ⟨_, hs, -⟩ := hends t ht
      cases hs
  | some joined =>
    obtain ⟨⟨⟩, st2, hreplace, h⟩ := of_bind h
    obtain ⟨hstep2, hheld2, -⟩ :=
      gives_replaceCurrent joined l hstep1.wf (Nat.zero_le _) hheld1 hreplace
    obtain ⟨hcurrent, hother⟩ := leads_replaceCurrent hstep1.wf hheld1 hreplace
    obtain ⟨first, hfirst, hgrows⟩ := hsome joined rfl
    have hquiet2 : st2.table.assertions = st1.table.assertions ∧ st2.events = st1.events := by
      cases hreplace
      exact ⟨rfl, rfl⟩
    refine ⟨st2, ⟨hstep2.wf, hheld2, hquiet2.1.trans hquiet1.2.1, hquiet2.2.trans hquiet1.2.2,
      fun _ hs => (hs first hfirst).trans (hgrows.trans hcurrent), fun t ht => ?_, fun t ht => ?_⟩, h⟩
    · obtain ⟨_, hs, ht⟩ := hends t ht
      cases hs
      exact ht.trans hcurrent
    · exact (hothers.2 t ht).trans (hother t ht)

/-- Nodes were evaluated and copies taken, which have what the current scope has, with the scopes `l`
in hand. -/
structure Started (W : Watch) (arena : Arena) (nodes rest : List NodeId) (copies l : List Scope)
    (st st' : State) : Prop where
  pending : Pending arena rest st'
  held : st'.Holds (copies ++ l)
  passed : Passed W arena [] nodes st st'
  copies : ∀ t ∈ copies, st'.stack.current.Leads W st'.store t st'.store
  others : ∀ t ∈ l, t.Leads W st.store t st'.store

lemma Started.of_adds {copies : List Scope} {st1 : State}
    (hpending : Pending arena (nodes ++ rest) st) (hl : st.Holds l)
    (hstep : Step (fun _ => True) st.store.size st st1) (hpassed : Passed W arena [] nodes st st1)
    (hadds : Adds st1 st') (htable : st'.table = st1.table) (hst' : st'.Placed)
    (hheld : st'.Holds (copies ++ l))
    (hcopies : ∀ t ∈ copies, st1.stack.current.Leads W st1.store t st'.store) :
    Started W arena nodes rest copies l st st' := by
  have hpassed' : Passed W arena [] nodes st st' := by
    refine hpassed.extend ?_ (by rw [htable]) hadds.events
    rw [hadds.stack]
    exact hadds.leads hstep.wf.current
  refine ⟨hpending.after hst' hpassed'.toAccounted, hheld, hpassed', fun t ht => ?_, fun t ht => ?_⟩
  · rw [hadds.stack]
    exact (hadds.leads_back hstep.wf.current).trans (hcopies t ht)
  · have hapart := hl.stack t ht _ st.stack.current_mem_scopes
    refine .trans (.of_var?_eq (hstep.var?_eq (fun _ hk => (hl.wf t ht).lt hk) hapart) rfl) ?_
    exact hadds.leads ((hstep.held hl).wf t ht)

/-- Arms of a match were evaluated: each left a scope at its end, which has what the current scope
had, and the names that were read are marked in one of them. -/
structure Arms (W : Watch) (arena : Arena) (nodes : List NodeId) (ends ends' : List Scope) (st st' : State) :
    Prop extends
    Accounted arena [] nodes (fun name => W.names name ∧ st.stack.current.contains name = true)
      (fun name => ∃ t ∈ ends', t.reads st'.store name = true) st st' where
  placed : st'.Placed
  held : st'.Holds ends'
  grows : st.stack.current.Leads W st.store st'.stack.current st'.store
  starts : ∀ t ∈ ends', t ∈ ends ∨ st.stack.current.Leads W st.store t st'.store
  stay : ∀ t ∈ ends, t ∈ ends' ∧ t.Leads W st.store t st'.store

namespace Arms

variable {nodes' : List NodeId} {ends mid ends' : List Scope} {st1 : State}

lemma refl (hst : st.Placed) (hl : st.Holds ends) :
    Arms W arena [] ends ends st st where
  toAccounted := .quiet rfl rfl
  placed := hst
  held := hl
  grows := .refl ..
  starts _ ht := .inl ht
  stay _ ht := ⟨ht, .refl ..⟩

lemma trans (h : Arms W arena nodes ends mid st st1) (h' : Arms W arena nodes' mid ends' st1 st') :
    Arms W arena (nodes ++ nodes') ends ends' st st' where
  toAccounted := by
    refine (h.toAccounted.mono (Subset.refl _) (Subset.refl _) (fun _ => id) ?_).trans
      (h'.toAccounted.mono (Subset.refl _) (Subset.refl _)
        (fun _ hb => ⟨hb.1, h.grows.contains hb.1 hb.2⟩) fun _ _ => id)
    rintro name ⟨hname, -⟩ ⟨t, ht, hread⟩
    exact ⟨t, (h'.stay t ht).1, (h'.stay t ht).2.reads hname hread⟩
  placed := h'.placed
  held := h'.held
  grows := h.grows.trans h'.grows
  starts t ht := by
    rcases h'.starts t ht with ht | hgrows
    · exact (h.starts t ht).imp id fun hgrows => hgrows.trans (h'.stay t ht).2
    · exact .inr (h.grows.trans hgrows)
  stay t ht := by
    obtain ⟨ht, hgrows⟩ := h.stay t ht
    exact ⟨(h'.stay t ht).1, hgrows.trans (h'.stay t ht).2⟩

lemma perm (h : Arms W arena nodes ends mid st st') (hperm : mid.Perm ends') :
    Arms W arena nodes ends ends' st st' where
  toAccounted := h.toAccounted.mono (Subset.refl _) (Subset.refl _) (fun _ => id)
    fun _ _ ⟨t, ht, hread⟩ => ⟨t, hperm.mem_iff.1 ht, hread⟩
  placed := h.placed
  held := h.held.perm hperm
  grows := h.grows
  starts t ht := h.starts t (hperm.mem_iff.2 ht)
  stay t ht := (h.stay t ht).imp hperm.mem_iff.1 id

lemma of_branch {body : NodeId} (hstarted : Started W arena nodes [body] [start] ends st st1)
    (hbranch : Branch W arena body start ends st1 after st') :
    Arms W arena (nodes ++ [body]) ends (after :: ends) st st' := by
  have hcopy := hstarted.copies start (.head _)
  have hpasses := (hstarted.passed.extend hcopy rfl rfl).trans hbranch.passes
  refine ⟨?_, hbranch.placed, hbranch.held, ?_, ?_, fun t ht => ⟨.tail _ ht, ?_⟩⟩
  · exact hpasses.toAccounted.mono (Subset.refl _) (Subset.refl _) (fun _ => id)
      fun _ _ hread => ⟨after, .head _, hread⟩
  · rw [hbranch.stack]
    exact hstarted.passed.grows.trans (hbranch.leads (.head _))
  · exact forall_mem_cons.2 ⟨.inr hpasses.grows, fun t ht => .inl ht⟩
  · exact (hstarted.others t ht).trans (hbranch.leads (.tail _ ht))

end Arms

namespace Grower

variable (hev : Grower W cx ev) {type : Option Ty} {condition : NodeId} {arms : List MatchArm}

include hev

lemma inScope (hid : cx.arena.PlainFor W id) (hpending : Pending cx.arena [id] st)
    (hl : st.Holds (s :: l)) (h : inScope s (ev.infer id) cx st = some ((type, after), st')) :
    Branch W cx.arena id s l st after st' := by
  obtain ⟨-, hheld, -⟩ := gives_inScope (hev.keeps.infer id) l hpending.placed (Nat.zero_le _) hl h
  obtain ⟨inner, hrun, rfl, rfl⟩ := inScope_eq_some.1 h
  have hwithin := hpending.placed.within hl
  have hcurrent : (st.within s).stack.current = s := current_setCurrent ..
  have hinner := ((hev.keeps.infer id).step hwithin hrun).1
  obtain ⟨hstep, -, hstack⟩ := Step.of_within hpending.placed (Nat.zero_le _) hl hinner
  obtain ⟨-, hpassed, himplied⟩ := hev.infer hid ⟨hwithin, hpending.silent, hpending.disjoint⟩ hrun
  rw [Passed, hcurrent] at hpassed
  have hothers : ∀ t : Scope, t.Wf (fun _ => True) st.store → t.Apart s → ∀ name,
      t.var? inner.store name = t.var? st.store name := fun t ht hapart =>
    hinner.var?_eq (fun _ hk => ht.lt hk) (hcurrent.symm ▸ hapart)
  refine ⟨hstep.wf, hheld, hstack, hpassed.congr (.refl ..) (.refl ..) rfl rfl rfl rfl, ?_, himplied⟩
  refine forall_mem_cons.2 ⟨hothers _ hpending.placed.current ?_, fun t ht => ?_⟩
  · exact (hl.stack s (.head _) _ st.stack.current_mem_scopes).symm
  · exact hothers t (hl.wf t (.tail _ ht))
      ((pairwise_cons.1 hl.pairwise).1 t ht).symm

lemma branchScopes {st1 : State} (hcondition : cx.arena.PlainFor W condition)
    (hfree : cx.arena.FreeIn W condition) (hpending : Pending cx.arena ([condition] ++ rest) st)
    (hl : st.Holds l) (hinfer : ev.infer condition cx st = some (type, st1))
    (hbranch : branchScopes condition cx st1 = some (if b then (t, f) else (f, t), st')) :
    Started W cx.arena [condition] rest [t, f] l st st' := by
  obtain ⟨hst1, hpassed, himplied⟩ := hev.infer hcondition hpending.left hinfer
  have hstep := ((hev.keeps.infer condition).step hpending.placed hinfer).1
  obtain ⟨hadds, htable, hst', hheld, -⟩ := branchScopes_known hst1 (hstep.held hl) hbranch
  obtain ⟨htrue, hfalse⟩ := leads_branchScopes hst1 (himplied hfree) hbranch
  exact .of_adds hpending hl hstep hpassed hadds htable hst' hheld (by simp [htrue, hfalse])

/-! ## Operators -/

lemma inferShort {left right : NodeId} (hleft : cx.arena.PlainFor W left)
    (hfree : cx.arena.FreeIn W left) (hright : cx.arena.PlainFor W right)
    (hpart : cx.arena.FreeIn W id → cx.arena.FreeIn W right) :
    Settles W cx id [left, right] (ev.inferShort b id left right) := by
  intro st type st' hpending h
  obtain ⟨st1, entry, other, st2, rightType, after, st3, whenTrue, whenFalse, st4, st5, hvisit,
    hbranch, hrun, hscopes, hmerge, hset⟩ := inferShort_cases h
  obtain ⟨leftType, hinfer, -⟩ := of_result hvisit
  have hstarted := hev.branchScopes hleft hfree hpending.toPending .nil hinfer hbranch
  have hpassed2 := hstarted.passed
  have hentry := hstarted.copies entry (by simp)
  have hpath := hev.inScope hright hstarted.pending hstarted.held hrun
  have hst3 := hpath.placed
  have hafter := hpath.held.wf after (.head _)
  -- The outcomes have what the right side has.
  have hassumed := hst3.getD_assumed hafter right
  obtain ⟨hadds, htable4, hst4, hheld4, -⟩ :=
    shortScopes_known hst3 hpath.held (hassumed true) (hassumed false) hscopes
  have hright (hid : cx.arena.FreeIn W id) : after.Leads W st3.store whenTrue st4.store ∧
      after.Leads W st3.store whenFalse st4.store :=
    leads_shortScopes hst3 (hpath.held.wf other (by simp)) (hassumed true) (hassumed false)
      (leads_getD (hpath.implied (hpart hid)) true) (leads_getD (hpath.implied (hpart hid)) false) hscopes
  have hheld4 : st4.Holds [after, whenFalse, whenTrue] :=
    (hheld4.sublist (by simp : Sublist [whenFalse, whenTrue, after] _)).perm
      (show ([whenFalse, whenTrue] ++ [after]).Perm _ from perm_append_comm)
  obtain ⟨hst5, htable5, hheld5, -⟩ := mergeIntoCurrent_known closed_true hst4 hheld4 hmerge
  obtain ⟨hjoined, hleast, hothers⟩ := leads_mergeIntoCurrent hst4 hheld4 hmerge
  have hevents5 : st5.events = st4.events := by
    cases hmerge
    rfl
  have hpassed5 : Passed W cx.arena [] [left, right] st st5 :=
    ((hpassed2.extend hentry rfl rfl).trans hpath.passes).extend
      ((hadds.leads hafter).trans hjoined) (by rw [htable5, htable4])
      (hevents5.trans hadds.events)
  -- The current scope has not changed meanwhile, so they have what the join has.
  have hcurrent : st4.stack.current.Leads W st4.store after st3.store := by
    rw [hadds.stack]
    exact (hadds.leads_back hst3.current).trans
      (hpath.leads_back.trans (hentry.trans hpath.passes.grows))
  have houtcome : ∀ s ∈ [whenFalse, whenTrue], after.Leads W st3.store s st4.store →
      st5.stack.current.Leads W st5.store s st5.store := fun s hs hgrows =>
    hleast (hcurrent.trans (hgrows.trans (hothers s hs)))
      ((hadds.leads_back hafter).trans (hgrows.trans (hothers s hs)))
  rcases hset with rfl | rfl
  · exact ⟨hst5, hpassed5.mono (nil_subset _) (Subset.refl _),
      fun _ => State.implied_of_get? (hpending.fresh_after hpassed5)⟩
  · have hsettled : Settled W cx.arena id st5 { st5 with
        table := st5.table.setAssertions id ⟨some whenTrue, some whenFalse⟩ } := by
      refine .setAssertions (.refl _) hst5 rfl (fun s hs => hheld5.wf s ?_) fun hid outcome s hs => ?_
      · rcases mem_append.1 hs with hs | hs <;> simp_all
      · cases outcome with
        | true =>
          obtain rfl := some.inj hs
          exact houtcome _ (by simp) (hright hid).1
        | false =>
          obtain rfl := some.inj hs
          exact houtcome _ (by simp) (hright hid).2
    exact ⟨hsettled.placed, hpassed5.trans (hsettled.passed hst5), hsettled.implied⟩

/-! ## Choices -/

lemma inferTernary {ifFalse : NodeId} {ifTrue : Option NodeId}
    (hcondition : cx.arena.PlainFor W condition) (hfree : cx.arena.FreeIn W condition)
    (htrue : ∀ c ∈ ifTrue.toList, cx.arena.PlainFor W c) (hfalse : cx.arena.PlainFor W ifFalse) :
    Grows W cx (condition :: ifTrue.toList ++ [ifFalse])
      (ev.inferTernary condition ifTrue ifFalse) := by
  intro st type st' hpending h
  obtain ⟨conditionType, st1, hinfer, h⟩ := of_bind h
  obtain ⟨⟨t, f⟩, st2, hbranch, h⟩ := of_bind h
  have hstarted := hev.branchScopes (b := true) hcondition hfree hpending .nil hinfer hbranch
  have hpassed2 := hstarted.passed
  have ht := hstarted.copies t (by simp)
  have hf := hstarted.copies f (by simp)
  cases ifTrue with
  | some ifTrue =>
    obtain ⟨⟨trueType, trueAfter⟩, st3, hrunTrue, h⟩ := of_bind h
    obtain ⟨⟨falseType, falseAfter⟩, st4, hrunFalse, h⟩ := of_bind h
    obtain ⟨joined, st5, hmerged, h⟩ := of_bind h
    obtain ⟨⟨⟩, hreplace, -⟩ := of_result h
    have hpathTrue := hev.inScope (htrue ifTrue (by simp)) hstarted.pending.left hstarted.held hrunTrue
    have hpending3 := hstarted.pending.after hpathTrue.placed hpathTrue.passes.toAccounted
    have hpathFalse := hev.inScope hfalse hpending3 (hpathTrue.held.perm (.swap ..)) hrunFalse
    have hwf := hpathFalse.held.wf
    obtain ⟨hadds, htable5, hst5, hheld5, -⟩ := merged_known closed_true hpathFalse.placed
      hpathFalse.held (hwf trueAfter (by simp)) (hwf falseAfter (by simp)) hmerged
    obtain ⟨hjoinedTrue, hjoinedFalse⟩ :=
      leads_of_merged (hwf trueAfter (by simp)) (hwf falseAfter (by simp)) hmerged
    have hst' := (gives_replaceCurrent joined _ hst5 (Nat.zero_le _) hheld5 hreplace).1.wf
    have hreplaced := (leads_replaceCurrent (W := W) hst5 hheld5 hreplace).1
    have hrest : st'.table.assertions = st5.table.assertions ∧ st'.events = st5.events := by
      cases hreplace
      exact ⟨rfl, rfl⟩
    refine ⟨hst', ?_⟩
    refine Passes.join ((hpassed2.extend ht rfl rfl).trans hpathTrue.passes)
      (hpathFalse.passes.extend (hjoinedFalse.trans hreplaced) (by rw [hrest.1, htable5])
        (hrest.2.trans hadds.events)) ?_ ?_
    · exact hpassed2.grows.trans (hf.trans (hpathTrue.leads (by simp)))
    · exact (hpathFalse.leads (by simp)).trans (hjoinedTrue.trans hreplaced)
  | none =>
    obtain ⟨⟨falseType, falseAfter⟩, st3, hrunFalse, h⟩ := of_bind h
    obtain ⟨⟨⟩, hmerge, -⟩ := of_result h
    have hpath := hev.inScope hfalse hstarted.pending (hstarted.held.perm (.swap ..)) hrunFalse
    obtain ⟨hst', htable, -⟩ :=
      mergeIntoCurrent_known closed_true hpath.placed hpath.held hmerge
    have hjoined := (leads_mergeIntoCurrent (W := W) hpath.placed hpath.held hmerge).1
    have hevents : st'.events = st3.events := by
      cases hmerge
      rfl
    refine ⟨hst', ?_⟩
    exact ((hpassed2.extend hf rfl rfl).trans hpath.passes).extend hjoined (by rw [htable]) hevents

lemma armStart {conditions : List NodeId} {st1 : State}
    (hconditions : ∀ c ∈ conditions, cx.arena.PlainFor W c)
    (hfree : ∀ c ∈ conditions, cx.arena.FreeIn W c)
    (hpending : Pending cx.arena (conditions ++ rest) st) (hl : st.Holds l)
    (hvisit : ev.visitAll conditions cx st = some ((), st1))
    (hstart : Evaluator.armStart conditions cx st1 = some (start, st')) :
    Started W cx.arena conditions rest [start] l st st' := by
  unfold Evaluator.armStart at hstart
  split at hstart
  · next condition =>
    obtain ⟨⟨⟩, h1, -⟩ := of_result hvisit
    obtain ⟨type, hinfer, -⟩ := of_result h1
    obtain ⟨⟨t, f⟩, hbranch, rfl⟩ := of_result hstart
    have hstarted := hev.branchScopes (b := true) (hconditions condition (by simp))
      (hfree condition (by simp)) hpending hl hinfer hbranch
    exact { hstarted with
      held := hstarted.held.sublist (.cons_cons _ (.cons _ (Sublist.refl _)))
      copies := fun s hs => hstarted.copies s (by simp_all) }
  · obtain ⟨hst1, hpassed⟩ := hev.stepwise.visitAll hconditions hpending.left hvisit
    have hstep := ((keeps_visitAll hev.keeps conditions).step hpending.placed hvisit).1
    obtain ⟨hadds, htable, hst', hheld, -⟩ :=
      forkScope_known hst1 (hstep.held hl) hst1.current hstart
    refine .of_adds hpending hl hstep hpassed hadds htable hst' hheld fun t ht => ?_
    obtain rfl := mem_singleton.1 ht
    exact leads_of_forkScope hst1.current hstart

lemma matchArms {outcome outcome' : MatchOutcome}
    (harms : ∀ c ∈ arms.flatMap MatchArm.children, cx.arena.PlainFor W c)
    (hfree : ∀ c ∈ arms.flatMap fun arm => arm.conditions.getD [], cx.arena.FreeIn W c)
    (hpending : Pending cx.arena (arms.flatMap MatchArm.children) st)
    (hl : st.Holds (outcome.rejoining ++ outcome.terminated))
    (h : ev.matchArms arms outcome cx st = some (outcome', st')) :
    Arms W cx.arena (arms.flatMap MatchArm.children) (outcome.rejoining ++ outcome.terminated)
      (outcome'.rejoining ++ outcome'.terminated) st st' := by
  induction arms generalizing outcome st with
  | nil =>
    obtain ⟨rfl, rfl⟩ := of_pure h
    exact .refl hpending.placed hl
  | cons arm arms ih =>
    rw [matchArms_cons] at h
    obtain ⟨⟨⟩, st1, hvisit, h⟩ := of_bind h
    obtain ⟨start, st2, hstart, h⟩ := of_bind h
    obtain ⟨⟨type, after⟩, st3, hrun, h⟩ := of_bind h
    replace h := bind_rest h rfl
    rw [flatMap_cons, MatchArm.children] at hpending harms ⊢
    simp only [forall_mem_append, forall_mem_singleton] at harms
    obtain ⟨⟨hconditions, hplain⟩, hrest⟩ := harms
    rw [flatMap_cons, forall_mem_append] at hfree
    have hstarted := hev.armStart hconditions hfree.1 hpending.left hl hvisit hstart
    have hbranch := hev.inScope hplain hstarted.pending hstarted.held hrun
    have harm := (Arms.of_branch hstarted hbranch).perm
      (outcome.perm_add (cx.arena.expr? arm.body) type after).symm
    exact harm.trans (ih hrest hfree.2 (hpending.after harm.placed harm.toAccounted) harm.held h)

/-- The join of the arms that come back takes the place of the current scope, if there is one, and
takes over the reads of the others. -/
lemma inferMatch {subject : NodeId} (hsubject : cx.arena.PlainFor W subject)
    (harms : ∀ c ∈ arms.flatMap MatchArm.children, cx.arena.PlainFor W c)
    (hfree : ∀ c ∈ arms.flatMap fun arm => arm.conditions.getD [], cx.arena.FreeIn W c) :
    Grows W cx (subject :: arms.flatMap MatchArm.children) (ev.inferMatch subject arms) := by
  refine Grows.bind (hev.stepwise.visit hsubject) fun _ => ?_
  intro st type st' hpending h
  obtain ⟨outcome, st1, hrun, h⟩ := of_bind h
  obtain ⟨joined, st2, hjoin, h⟩ := of_bind h
  have harms := hev.matchArms harms hfree hpending .nil hrun
  have hstarts : ∀ t ∈ outcome.rejoining, st.stack.current.Leads W st.store t st1.store :=
    fun t ht => (harms.starts t (mem_append_left _ ht)).resolve_left not_mem_nil
  obtain ⟨st3, hrejoined, h⟩ :=
    rejoined_of_joinAll (W := W) harms.placed harms.held hjoin h
  have hst3 := hrejoined.placed
  have hheld3 := hrejoined.held
  have hcurrent := hrejoined.current harms.grows hstarts
  obtain ⟨⟨⟩, habsorb, -⟩ := of_result h
  have hplaced := ((giving_holding closed_true.toStable).absorbAll (l := []) outcome.terminated [] hst3
    (Nat.zero_le _) .nil habsorb).1.wf
  have hapart : ∀ t ∈ outcome.terminated, t.Apart st3.stack.current := fun t ht =>
    hheld3.stack t ht _ st3.stack.current_mem_scopes
  have hgrows := leads_absorbAll (W := W) hst3.current hst3.types hheld3.wf hapart
  rw [absorbAll, onVars_run, setCurrent_current, some.injEq, Prod.mk.injEq] at habsorb
  obtain ⟨-, rfl⟩ := habsorb
  refine ⟨hplaced, (harms.toAccounted.mono (Subset.refl _) (Subset.refl _) (fun _ => id)
    ?_).extend hrejoined.records hrejoined.events, hcurrent.trans hgrows⟩
  rintro name hname ⟨t, ht, hread⟩
  rcases mem_append.1 ht with ht | ht
  · exact ((hrejoined.ends t ht).trans hgrows).reads hname.1 hread
  · exact reads_absorbAll hst3.current hst3.types hheld3.wf hapart ht
      ((hrejoined.others t ht).reads hname.1 hread) (hcurrent.contains hname.1 hname.2)

end Grower

end FlowTyping

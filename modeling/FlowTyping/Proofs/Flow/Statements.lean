import FlowTyping.Proofs.Flow.Conditions

/-!
# Checking statements

What the check of statements leaves behind: the scope fits the variables of the runs that come out,
such runs are not said to leave, and for every variable that a run reads the type recorded at its
node is one that its value is of.
-/

namespace FlowTyping

open Analysis List Evaluator State Outcome

variable {w : World} {cx : Context} {calls : NodeId → Bool} {reach : Option Env}
  {st st' st'' : State} {s t f : Scope} {e : Source} {body : Cmds} {p : Env → Bool}
  {nodes nodes' : List NodeId} {run run' : Env → Option Env} {reads reads' : Env → Reads}
  {flow : Flow} {l : List Scope} {id : NodeId} {n : Nat} {line : Line} {outcomes : List Outcome}

/-- The state is one in which statements can be checked: its scopes are placed, expressions are
looked at, and nothing is known of the given nodes. -/
structure Ready (cx : Context) (nodes : List NodeId) (st : State) : Prop where
  placed : st.Placed
  shallow : st.depth < cx.options.maxDepth.toNat
  fresh : Fresh nodes st

/-- What the check of statements leaves behind. -/
structure Checked (w : World) (reach : Option Env) (nodes : List NodeId) (run : Env → Option Env)
    (reads : Env → Reads) (flow : Flow) (st st' : State) : Prop where
  touches : Touches nodes st st'
  fits : Fits w (reach.bind run) st'.known
  falls : ∀ ρ, reach.bind run = some ρ → flow.fallsThrough = true
  within : ∀ ρ, ∀ r ∈ reads ρ, r.1 ∈ nodes
  recorded : ∀ ρ, reach = some ρ → Recorded w (reads ρ) st'

lemma State.known_within (st : State) (s : Scope) : (st.within s).known = s.known st.store := by
  rw [known, within, Stack.current_setCurrent]

section Sequence

variable {flow' : Flow}

lemma Checked.seq (h : Checked w reach nodes run reads flow st st')
    (h' : Checked w (reach.bind run) nodes' run' reads' flow' st' st'')
    (hdisjoint : nodes.Disjoint nodes') :
    Checked w reach (nodes ++ nodes') (fun ρ => (run ρ).bind run')
      (fun ρ => reads ρ ++ ((run ρ).map reads').getD [])
      (if flow.fallsThrough then flow' else flow) st st'' := by
  have hbind : (reach.bind fun ρ => (run ρ).bind run') = (reach.bind run).bind run' :=
    (Option.bind_assoc ..).symm
  refine ⟨h.touches.trans h'.touches, hbind ▸ h'.fits, fun ρ hρ => ?_, fun ρ =>
    forall_mem_append.2 ⟨fun r hr => mem_append_left _ (h.within ρ r hr), fun r hr => ?_⟩,
    fun ρ hρ => ?_⟩
  · rw [hbind] at hρ
    obtain ⟨ρ1, hρ1, -⟩ := Option.bind_eq_some_iff.1 hρ
    rw [if_pos (h.falls ρ1 hρ1)]
    exact h'.falls ρ hρ
  · cases hrun : run ρ with
    | none => simp [hrun] at hr
    | some ρ1 => exact mem_append_right _ (h'.within ρ1 r (by simpa [hrun] using hr))
  · refine ((h.recorded ρ hρ).touches h'.touches fun r hr => hdisjoint (h.within ρ r hr)).append ?_
    cases hrun : run ρ with
    | none => exact .nil
    | some ρ1 => exact h'.recorded ρ1 (by rw [hρ]; exact hrun)

lemma Checked.congr (h : Checked w reach nodes run reads flow st st') (hrun : ∀ ρ, run' ρ = run ρ)
    (hreads : ∀ ρ, reads' ρ = reads ρ) : Checked w reach nodes run' reads' flow st st' := by
  rw [funext hrun, funext hreads]
  exact h

lemma Ready.next (h : Ready cx (nodes ++ nodes') st) (hst : st'.Placed)
    (hdepth : st'.depth = st.depth) (ht : Touches nodes st st') (hdisjoint : nodes.Disjoint nodes') :
    Ready cx nodes' st' where
  placed := hst
  shallow := hdepth ▸ h.shallow
  fresh := h.fresh.after ht hdisjoint

lemma Ready.mono (h : Ready cx nodes st) (hsub : ∀ id ∈ nodes', id ∈ nodes) :
    Ready cx nodes' st :=
  ⟨h.placed, h.shallow, h.fresh.mono hsub⟩

lemma Ready.within (h : Ready cx nodes st) (hl : st.Holds (s :: l)) :
    Ready cx nodes (st.within s) :=
  ⟨h.placed.within hl, h.shallow, h.fresh.congr rfl⟩

lemma Ready.enterStmt (h : Ready cx nodes st) (id : NodeId) : Ready cx nodes (st.enterStmt id) :=
  ⟨h.placed.around, h.shallow, h.fresh.congr rfl⟩

lemma Checked.around {stmt : Stmt} (hstmt : cx.arena.stmt? id = some stmt)
    (h : (evaluator n).check id cx st = some (flow, st'))
    (hchecked : ∀ m st1, (evaluator m).checkStmt id stmt cx (st.enterStmt id) = some (flow, st1) →
      Checked w reach nodes run reads flow (st.enterStmt id) st1) :
    Checked w reach nodes run reads flow st st' := by
  cases n with
  | zero => cases h
  | succ m =>
    rw [show (evaluator (m + 1)).check id cx st = _ from checkNode_run hstmt] at h
    obtain ⟨⟨f, st1⟩, hrun, h⟩ := Option.map_eq_some_iff.1 h
    cases h
    obtain ⟨htouches, hfits, hfalls, hwithin, hrecorded⟩ := hchecked m st1 hrun
    exact ⟨htouches.congr rfl rfl, hfits, hfalls, hwithin, fun ρ hρ => (hrecorded ρ hρ).congr rfl⟩

end Sequence

/-! ## Simple statements -/

section Simple

variable {assignment target : NodeId} {x : String} {type : Option Ty}

lemma onScope_of_assign (htarget : cx.IsVar target x) (hx : x ≠ "this")
    (h : (evaluator n).assign target type line cx st = some ((), st')) :
    onScope (fun s σ => s.assign σ x type line) cx st = some ((), st') := by
  cases n with
  | zero => cases h
  | succ m =>
    obtain ⟨e, _, he, hassign⟩ := of_bind
      (show (evaluator m).assignTo target type line cx st = some ((), st') from h)
    cases he
    rw [htarget] at hassign
    dsimp only at hassign
    rwa [assignVar, if_pos (bne_iff_ne.2 hx)] at hassign

lemma assign_known (htarget : cx.IsVar target x) (hx : x ≠ "this") (hst : st.Placed)
    (h : (evaluator n).assign target type line cx st = some ((), st')) :
    st'.Placed ∧ st'.table = st.table ∧ st'.known = st.known.set x type := by
  have hplaced : st'.Placed :=
    (((evaluator_keeps_any n).assign target line fun _ _ => trivial).step hst h).1.wf
  replace h := onScope_of_assign htarget hx h
  rw [onScope_run] at h
  cases h
  refine ⟨hplaced, rfl, ?_⟩
  rw [known, Stack.current_setCurrent]
  exact Scope.known_assign hst.current x type line

lemma inferAssign_cases {value : NodeId} (htarget : cx.IsVar target x)
    (h : (evaluator n).inferAssign assignment target value cx st = some (type, st')) :
    ∃ st1 line st2, (evaluator n).infer value cx st = some (type, st1) ∧
      (evaluator n).assign target type line cx st1 = some ((), st2) ∧
      (st' = st2 ∨ attachNarrowing assignment (.var x) (Ty.narrow type .truthy) .neither cx st2 =
        some ((), st')) := by
  have href : cx.arena.reference? target = some (.var x) := by
    rw [Arena.reference?, htarget]
  obtain ⟨t, st1, hinfer, hrest⟩ := of_bind h
  have hassign := bind_rest hrest rfl
  obtain ⟨⟨⟩, st2, hassign, htest⟩ := of_bind hassign
  replace htest := bind_rest htest (parentExpectsBool_run cx st2 assignment)
  split at htest
  · replace htest := bind_rest htest rfl
    rw [href] at htest
    obtain ⟨⟨⟩, hattach, rfl⟩ := of_result htest
    exact ⟨st1, _, _, hinfer, hassign, .inr hattach⟩
  · obtain ⟨rfl, rfl⟩ := of_pure htest
    exact ⟨st1, _, _, hinfer, hassign, .inl rfl⟩

lemma checked_assign (hin : (Cmd.assign id assignment target x e).In cx)
    (hnodup : (assignment :: e.nodes).Nodup) (hready : Ready cx (assignment :: e.nodes) st)
    (hfits : Fits w reach st.known)
    (h : (evaluator n).checkStmt id (.exprStmt assignment none) cx st = some (flow, st')) :
    Checked w reach (assignment :: e.nodes) (fun ρ => some (ρ.set x (e.value ρ)))
      (fun ρ => e.reads ρ) flow st st' := by
  obtain ⟨-, hexpr, htarget, hx, he⟩ := hin
  obtain ⟨hid, hnodup⟩ := nodup_cons.1 hnodup
  obtain ⟨⟨⟩, st1, hvisit, h⟩ := of_bind h
  replace h := bind_rest h rfl
  rw [hexpr] at h
  cases h
  obtain ⟨type, hinfer⟩ := visit_eq_some.1 hvisit
  obtain ⟨m, st2, -, hrun, rfl⟩ := infer_inside hexpr hready.shallow hinfer
  obtain ⟨st3, line, st4, hinfer, hassign, hlast⟩ := inferAssign_cases htarget hrun
  have hvalue := e.evaluated he hnodup (hready.placed.enter assignment) (hready.fresh.tail.congr rfl)
    hfits hinfer
  obtain ⟨hst4, htable, hknown⟩ := assign_known htarget hx hvalue.placed hassign
  have htouches : Touches e.nodes (st.enterNode assignment) st4 := hvalue.touches.congr rfl htable
  -- The assignment may count as a test.
  obtain ⟨htouches, hsame, htypes⟩ : Touches (assignment :: e.nodes) (st.enterNode assignment) st2 ∧
      st2.known = st4.known ∧ st2.table.types = st4.table.types := by
    rcases hlast with rfl | hattach
    · exact ⟨htouches.mono fun _ => mem_cons_of_mem _, rfl, rfl⟩
    · have hnone : st4.table.assertions.get? assignment = none :=
        (htouches.assertions assignment hid).trans hready.fresh.untested
      have htested := (attachNarrowing_spec Ty.closed_true.toStable hst4 (fun _ _ _ => trivial)
        hattach).2 hnone
      exact ⟨htouches.tested htested, htested.adds.known hst4, htested.types⟩
  refine ⟨htouches.around.mono fun _ hmem => ?_, ?_, fun _ _ => rfl, fun ρ r hr =>
    .tail _ (e.mem_nodes_of_mem_reads ρ r hr), fun ρ hρ => ?_⟩
  · exact mem_cons.2 ((mem_cons.1 hmem).elim .inl mem_cons.1)
  · rw [known_leaveNode, hsame, hknown, hvalue.known]
    exact Option.map_eq_bind (x := reach) ▸ hfits.set hvalue.regular hvalue.holds
  · refine ((hvalue.recorded ρ hρ).congr (by rw [htypes, htable])).touches touches_leaveNode
      fun r hr hmem => hid ?_
    exact mem_singleton.1 hmem ▸ e.mem_nodes_of_mem_reads ρ r hr

end Simple

/-! ## Branches -/

section Branches

variable {o : Outcome}

/-- What branches leave behind that were run apart from the current scope, with other scopes in hand:
the scope at the end of a branch that a run took fits what came out of it. -/
structure Forked (w : World) (reach : Option Env) (nodes : List NodeId) (run : Env → Option Env)
    (reads : Env → Reads) (outcomes : List Outcome) (l : List Scope) (st st' : State) : Prop where
  placed : st'.Placed
  depth : st'.depth = st.depth
  known : st'.known = st.known
  held : st'.Holds (outcomes.map scope ++ l)
  kept : ∀ s ∈ l, s.known st'.store = s.known st.store
  touches : Touches nodes st st'
  regular : ∀ o ∈ outcomes, Fits w none (o.scope.known st'.store)
  taken : ∀ ρ, reach.bind run = some ρ →
    ∃ o ∈ outcomes, o.isLive = true ∧ Fits w (some ρ) (o.scope.known st'.store)
  within : ∀ ρ, ∀ r ∈ reads ρ, r.1 ∈ nodes
  recorded : ∀ ρ, reach = some ρ → Recorded w (reads ρ) st'

lemma Forked.checked (h : Forked w reach nodes run reads outcomes [] st st')
    (hfits : Fits w none st.known) (hrejoin : rejoinAll outcomes cx st' = some (flow, st'')) :
    Checked w reach nodes run reads flow st st'' := by
  have hpaths : (outcomes.filter isLive ++ outcomes.filter fun o => !o.isLive).Perm outcomes :=
    filter_append_perm ..
  have hheld : st'.Holds ((outcomes.filter isLive).map scope ++
      (outcomes.filter fun o => !o.isLive).map scope) := by
    rw [← map_append]
    exact h.held.perm ((append_nil _).symm ▸ (hpaths.map scope).symm)
  have hlive : ∀ ρ, reach.bind run = some ρ → ∃ o ∈ outcomes.filter isLive,
      Fits w (some ρ) (o.scope.known st'.store) := fun ρ hρ => by
    obtain ⟨o, ho, hlive, hfits⟩ := h.taken ρ hρ
    exact ⟨o, mem_filter.2 ⟨ho, hlive⟩, hfits⟩
  obtain ⟨htable, ⟨hnil, hknown⟩ | ⟨-, rfl, hknown⟩⟩ :=
    known_rejoin Ty.closed_true h.placed hheld hrejoin
  · -- No branch falls through, so no run comes out.
    have hnone : reach.bind run = none := Option.eq_none_iff_forall_ne_some.2 fun ρ hρ => by
      obtain ⟨o, ho, -⟩ := hlive ρ hρ
      rw [map_eq_nil_iff.1 hnil] at ho
      cases ho
    refine ⟨h.touches.congr rfl htable, ?_, fun ρ hρ => ?_, h.within, fun ρ hρ =>
      (h.recorded ρ hρ).congr (by rw [htable])⟩
    · rw [hnone, hknown, h.known]
      exact hfits
    · rw [hnone] at hρ
      cases hρ
  · refine ⟨h.touches.congr rfl htable, ?_, fun _ _ => rfl, h.within, fun ρ hρ =>
      (h.recorded ρ hρ).congr (by rw [htable])⟩
    rw [hknown, map_map]
    have hregular : ∀ Δ ∈ (outcomes.filter isLive).map
        ((fun p : Scope => p.known st'.store) ∘ scope), Fits w none Δ := by
      intro Δ hΔ
      obtain ⟨o, ho, rfl⟩ := mem_map.1 hΔ
      exact h.regular o (mem_of_mem_filter ho)
    have hempty : Fits w none fun _ => none := ⟨fun _ => .none, fun _ hρ => nomatch hρ⟩
    refine hempty.foldl_join hregular ?_
    cases hrun : reach.bind run with
    | none => exact .inl rfl
    | some ρ =>
      obtain ⟨o, ho, hfits⟩ := hlive ρ hrun
      exact .inr (.inr ⟨_, mem_map_of_mem ho, hfits⟩)

lemma forked_checkIn (hst : st.Placed) (hl : st.Holds (s :: l))
    (hbody : ∀ {inner}, (evaluator n).checkAll body.ids cx (st.within s) = some (o.flow, inner) →
      Checked w reach nodes run reads o.flow (st.within s) inner)
    (h : (evaluator n).checkIn s body.ids cx st = some (o, st')) :
    Forked w reach nodes run reads [o] l st st' := by
  obtain ⟨⟨flow, after⟩, hin, rfl⟩ := of_result h
  obtain ⟨inner, hrun, hran, hheld, hkept⟩ := inScope_known hst hl
    (keeps_checkAll (evaluator_keeps_any n) body.ids) hin
  have hchecked := hbody hrun
  have hknown : after.known st'.store = inner.known := by
    rw [hran.after_eq, hran.store]
    rfl
  refine ⟨hran.wf, hran.depth, hran.known, hheld, hkept, hchecked.touches.congr rfl hran.table,
    fun o ho => ?_, fun ρ hρ => ?_, hchecked.within, fun ρ hρ =>
    (hchecked.recorded ρ hρ).congr (by rw [hran.table])⟩
  · rw [mem_singleton.1 ho, hknown]
    exact hchecked.fits.mono fun _ hρ => nomatch hρ
  · refine ⟨_, .head _, hchecked.falls ρ hρ, ?_⟩
    rw [hknown, ← hρ]
    exact hchecked.fits

lemma Forked.either {skipped : Scope}
    (h : Forked w (reach.filter fun ρ => p ρ == true) nodes run reads [o] (skipped :: l) st st')
    (h' : Forked w (reach.filter fun ρ => p ρ == false) nodes' run' reads' outcomes (o.scope :: l)
      st' st'') (hdisjoint : nodes.Disjoint nodes') :
    Forked w reach (nodes ++ nodes') (fun ρ => if p ρ then run ρ else run' ρ)
      (fun ρ => if p ρ then reads ρ else reads' ρ) (o :: outcomes) l st st'' := by
  have hkept : o.scope.known st''.store = o.scope.known st'.store :=
    h'.kept _ (.head _)
  have hrun : ∀ {ρ}, reach = some ρ → ∀ b, p ρ = b →
      (reach.filter fun ρ => p ρ == b) = some ρ := fun hρ b hp => by
    rw [hρ]
    exact Option.filter_eq_some_iff.2 ⟨rfl, beq_iff_eq.2 hp⟩
  refine ⟨h'.placed, h'.depth.trans h.depth, h'.known.trans h.known,
    h'.held.perm perm_middle, fun s hs => ?_, h.touches.trans h'.touches, fun b hb => ?_,
    fun ρ' hρ' => ?_, fun ρ r hr => ?_, fun ρ hρ => ?_⟩
  · rw [h'.kept s (.tail _ hs), h.kept s (.tail _ hs)]
  · rcases mem_cons.1 hb with rfl | hb
    · rw [hkept]
      exact h.regular _ (.head _)
    · exact h'.regular b hb
  · obtain ⟨ρ, hρ, hbranch⟩ := Option.bind_eq_some_iff.1 hρ'
    cases hp : p ρ with
    | true =>
      rw [if_pos hp] at hbranch
      obtain ⟨b, hb, hlive, hfits⟩ := h.taken ρ' (by rw [hrun hρ true hp]; exact hbranch)
      rw [mem_singleton.1 hb] at hlive hfits
      exact ⟨o, .head _, hlive, hkept ▸ hfits⟩
    | false =>
      rw [if_neg (by simp [hp])] at hbranch
      obtain ⟨b, hb, hlive, hfits⟩ := h'.taken ρ' (by rw [hrun hρ false hp]; exact hbranch)
      exact ⟨b, .tail _ hb, hlive, hfits⟩
  · split at hr
    · exact mem_append_left _ (h.within ρ r hr)
    · exact mem_append_right _ (h'.within ρ r hr)
  · cases hp : p ρ with
    | true =>
      exact (h.recorded ρ (hrun hρ true hp)).touches h'.touches fun r hr =>
        hdisjoint (h.within ρ r hr)
    | false =>
      exact h'.recorded ρ (hrun hρ false hp)

lemma Forked.behind (h : Forked w reach nodes' run reads' outcomes l st' st'')
    (hdepth : st'.depth = st.depth) (hknown : st'.known = st.known)
    (hkept : ∀ s ∈ l, s.known st'.store = s.known st.store) (htouches : Touches nodes st st')
    (hrecorded : ∀ ρ, reach = some ρ → Recorded w (reads ρ) st')
    (hreads : ∀ ρ, ∀ r ∈ reads ρ, r.1 ∈ nodes) (hdisjoint : nodes.Disjoint nodes') :
    Forked w reach (nodes ++ nodes') run (fun ρ => reads ρ ++ reads' ρ) outcomes l st st'' where
  placed := h.placed
  depth := h.depth.trans hdepth
  known := h.known.trans hknown
  held := h.held
  kept s hs := (h.kept s hs).trans (hkept s hs)
  touches := htouches.trans h.touches
  regular := h.regular
  taken := h.taken
  within ρ := forall_mem_append.2 ⟨fun r hr => mem_append_left _ (hreads ρ r hr),
    fun r hr => mem_append_right _ (h.within ρ r hr)⟩
  recorded ρ hρ := ((hrecorded ρ hρ).touches h.touches fun r hr => hdisjoint (hreads ρ r hr)).append
    (h.recorded ρ hρ)

end Branches

/-! ## Conditions of branches -/

section Condition

variable {c : Cond}

/-- What the condition of a branch leaves behind, with the scopes in which the branches start. -/
structure Split (w : World) (reach : Option Env) (calls : NodeId → Bool) (c : Cond) (t f : Scope)
    (st st' : State) : Prop where
  touches : Touches c.nodes st st'
  fits : Fits w reach st'.known
  whenTrue : Fits w (reach.filter fun ρ => c.holds w calls ρ == true) (t.known st'.store)
  whenFalse : Fits w (reach.filter fun ρ => c.holds w calls ρ == false) (f.known st'.store)
  recorded : ∀ ρ, reach = some ρ → Recorded w (c.reads w calls ρ) st'

lemma Split.checked (h : Split w reach calls c t f st st') :
    Checked w reach c.nodes some (fun ρ => c.reads w calls ρ) .normal st st' :=
  ⟨h.touches, (Option.bind_fun_some reach).symm ▸ h.fits, fun _ _ => rfl,
    c.mem_nodes_of_mem_reads w calls, h.recorded⟩

variable (w calls) in
lemma Cond.split (hin : c.In cx) (hnodup : c.nodes.Nodup) (hst : st.Placed)
    (hfresh : Fresh c.nodes st) (hfits : Fits w reach st.known)
    (h : ((evaluator n).visit c.id >>= fun _ => branchScopes c.id) cx st = some ((t, f), st')) :
    Split w reach calls c t f st st' ∧ st'.Placed ∧ st'.depth = st.depth ∧
      st'.Holds [t, f] := by
  obtain ⟨⟨⟩, st1, hvisit, hscopes⟩ := of_bind h
  obtain ⟨type, hinfer⟩ := visit_eq_some.1 hvisit
  have hstep := (((evaluator_keeps_any n).infer c.id).step hst hinfer).1
  have hdecides : c.Decides w cx calls := c.decided hin hnodup
  have hdecided := hdecides hst hfresh hfits hinfer
  obtain ⟨hadds, htable, hst', hheld, htrue, hfalse⟩ := branchScopes_known (b := true) hstep.wf .nil hscopes
  have hknown : st'.known = st1.known := hadds.known hstep.wf
  refine ⟨⟨hdecided.touches.congr rfl htable, hknown ▸ hdecided.fits, ?_, ?_, fun ρ hρ =>
    (hdecided.recorded ρ hρ).congr (by rw [htable])⟩, hst', hadds.depth.trans hstep.depth, hheld⟩
  · rw [htrue]
    exact hdecided.outcomes true
  · rw [hfalse]
    exact hdecided.outcomes false

variable (w calls) in
lemma Cond.split_inScope {after : Scope} (hin : c.In cx) (hnodup : c.nodes.Nodup)
    (hst : st.Placed) (hl : st.Holds (s :: l)) (hfresh : Fresh c.nodes st)
    (hfits : Fits w reach (s.known st.store))
    (h : inScope s ((evaluator n).visit c.id >>= fun _ => branchScopes c.id) cx st =
      some (((t, f), after), st')) :
    (∃ inner, Split w reach calls c t f (st.within s) inner ∧ st'.store = inner.store ∧
      st'.table = inner.table) ∧ st'.Placed ∧ st'.depth = st.depth ∧ st'.known = st.known ∧
      st'.Holds (t :: f :: l) ∧ ∀ u ∈ l, u.known st'.store = u.known st.store := by
  have hgives : Gives (fun _ => True) cx [] ((evaluator n).visit c.id >>= fun _ => branchScopes c.id)
      (fun r => [r.1, r.2]) fun _ => True :=
    (keeps_visit (evaluator_keeps_any n) _).then fun _ _ => gives_branchScopes _
  obtain ⟨inner, hrun, hran, hheld, hkept⟩ := inScope_known hst hl hgives h
  obtain ⟨hsplit, -⟩ := Cond.split w calls hin hnodup hran.entered (hfresh.congr rfl)
    (known_within .. ▸ hfits) hrun
  exact ⟨⟨inner, hsplit, hran.store, hran.table⟩, hran.wf, hran.depth, hran.known, hheld.tail, hkept⟩

end Condition

/-! ## All statements -/

/-- The outcomes of the branches after the first, from the scope where the first condition failed. -/
def Evaluator.chainOutcomes (ev : Evaluator) (elseIfs : List ElseIf)
    (elseBranch : Option (List NodeId)) (remaining : Scope) : Analysis (List Outcome) := do
  let (middle, remaining) ← ev.checkElseIfs elseIfs remaining
  let last ← match elseBranch with
    | some body => ev.checkIn remaining body
    | none => pure ⟨remaining, .normal⟩
  return middle ++ [last]

lemma Evaluator.ifOutcomes_eq (ev : Evaluator) (condition : NodeId) (thenBranch : List NodeId)
    (elseIfs : List ElseIf) (elseBranch : Option (List NodeId)) :
    ev.ifOutcomes condition thenBranch elseIfs elseBranch = (do
      let (t, f) ← (do ev.visit condition; branchScopes condition)
      let first ← ev.checkIn t thenBranch
      let others ← ev.chainOutcomes elseIfs elseBranch f
      return first :: others) := by
  cases elseBranch <;>
    simp only [ifOutcomes, chainOutcomes, bind_assoc, pure_bind, cons_append]

lemma Evaluator.chainOutcomes_cons (ev : Evaluator) (branch : ElseIf) (elseIfs : List ElseIf)
    (elseBranch : Option (List NodeId)) (remaining : Scope) :
    ev.chainOutcomes (branch :: elseIfs) elseBranch remaining = (do
      let ((t, f), _) ← inScope remaining (do ev.visit branch.condition; branchScopes branch.condition)
      let first ← ev.checkIn t branch.body
      let others ← ev.chainOutcomes elseIfs elseBranch f
      return first :: others) := by
  cases elseBranch <;>
    simp only [checkElseIfs, chainOutcomes, bind_assoc, pure_bind, cons_append]

lemma forked_first {rest : Chain} (hready : Ready cx (body.nodes ++ rest.nodes) st)
    (hdisjoint : body.nodes.Disjoint rest.nodes) (hl : st.Holds (t :: f :: l))
    (hbody : ∀ {flow inner}, Ready cx body.nodes (st.within t) →
      (evaluator n).checkAll body.ids cx (st.within t) = some (flow, inner) →
      Checked w (reach.filter fun ρ => p ρ == true) body.nodes (fun ρ => body.run w calls ρ)
        (fun ρ => body.reads w calls ρ) flow (st.within t) inner)
    (hrest : ∀ {others l' st1}, Ready cx rest.nodes st1 → f.known st1.store = f.known st.store →
      st1.Holds (f :: l') →
      (evaluator n).chainOutcomes rest.elseIfs rest.elseBranch f cx st1 = some (others, st') →
      Forked w (reach.filter fun ρ => p ρ == false) rest.nodes (fun ρ => rest.run w calls ρ)
        (fun ρ => rest.reads w calls ρ) others l' st1 st')
    (h : (do
      let first ← (evaluator n).checkIn t body.ids
      let others ← (evaluator n).chainOutcomes rest.elseIfs rest.elseBranch f
      return first :: others) cx st = some (outcomes, st')) :
    Forked w reach (body.nodes ++ rest.nodes)
      (fun ρ => if p ρ then body.run w calls ρ else rest.run w calls ρ)
      (fun ρ => if p ρ then body.reads w calls ρ else rest.reads w calls ρ) outcomes l st st' := by
  obtain ⟨o, st1, hfirst, h⟩ := of_bind h
  obtain ⟨others, hothers, rfl⟩ := of_result h
  have hwithin := (hready.mono fun _ => mem_append_left _).within hl
  have hfirst := forked_checkIn hready.placed hl (hbody hwithin) hfirst
  have hnext := hready.next hfirst.placed hfirst.depth hfirst.touches hdisjoint
  have hothers := hrest hnext (hfirst.kept f (.head _)) (hfirst.held.perm (.swap ..))
    hothers
  exact hfirst.either hothers hdisjoint

lemma Checked.leaving (htouches : Touches nodes st st') (hfits : Fits w reach st'.known)
    (hwithin : ∀ ρ, ∀ r ∈ reads ρ, r.1 ∈ nodes)
    (hrecorded : ∀ ρ, reach = some ρ → Recorded w (reads ρ) st') :
    Checked w reach nodes (fun _ => none) reads flow st st' := by
  have hnone : ∀ ρ, (reach.bind fun _ => (none : Option Env)) ≠ some ρ := by
    intro ρ hρ
    obtain ⟨_, -, h⟩ := Option.bind_eq_some_iff.1 hρ
    cases h
  exact ⟨htouches, hfits.mono fun ρ hρ => absurd hρ (hnone ρ), fun ρ hρ => absurd hρ (hnone ρ),
    hwithin, hrecorded⟩

lemma checked_return (hin : e.In cx) (hnodup : e.nodes.Nodup) (hready : Ready cx e.nodes st)
    (hfits : Fits w reach st.known)
    (h : (evaluator n).checkStmt id (.returnStmt (some e.id)) cx st = some (flow, st')) :
    Checked w reach e.nodes (fun _ => none) (fun ρ => e.reads ρ) flow st st' := by
  obtain ⟨⟨⟩, hvisit, rfl⟩ := of_result h
  obtain ⟨type, hinfer⟩ := visit_eq_some.1 hvisit
  have hvalue := e.evaluated hin hnodup hready.placed hready.fresh hfits hinfer
  exact .leaving hvalue.touches (hvalue.known ▸ hfits) e.mem_nodes_of_mem_reads hvalue.recorded

mutual
theorem Cmd.checks (c : Cmd) {n : Nat} {reach : Option Env} {st st' : State} {flow : Flow}
    (hin : c.In cx) (hnodup : c.nodes.Nodup) (hready : Ready cx c.nodes st)
    (hfits : Fits w reach st.known) (h : (evaluator n).check c.id cx st = some (flow, st')) :
    Checked w reach c.nodes (fun ρ => c.run w calls ρ) (fun ρ => c.reads w calls ρ) flow st st' := by
  match c with
  | .assign id assignment target x e =>
    exact .around hin.1 h fun m st1 hrun =>
      checked_assign hin hnodup (hready.enterStmt id) hfits hrun
  | .block id body =>
    exact .around hin.1 h fun m st1 hrun => body.checks hin.2 hnodup (hready.enterStmt id) hfits hrun
  | .ret id (some e) =>
    exact .around hin.1 h fun m st1 hrun =>
      checked_return hin.2 hnodup (hready.enterStmt id) hfits hrun
  | .ret id none =>
    refine .around hin h fun m st1 hrun => ?_
    cases hrun
    exact .leaving (.of_table rfl) hfits nofun fun _ _ => .nil
  | .branch id c body rest =>
    obtain ⟨hstmt, hc, hbody, hrest⟩ := hin
    obtain ⟨hnodupc, hnodup, hdisjoint⟩ := nodup_append'.1 hnodup
    obtain ⟨hnodupb, hnodupr, hdisjoint'⟩ := nodup_append'.1 hnodup
    refine .around hstmt h fun m st1 hrun => ?_
    have hready := hready.enterStmt id
    rw [checkStmt, checkIf_eq, ifOutcomes_eq] at hrun
    obtain ⟨outcomes, st2, houtcomes, hrejoin⟩ := of_bind hrun
    obtain ⟨⟨t, f⟩, st3, hcondition, hbranches⟩ := of_bind houtcomes
    obtain ⟨hsplit, hst3, hdepth, hheld⟩ := Cond.split w calls hc hnodupc hready.placed
      (hready.fresh.mono fun _ => mem_append_left _) hfits hcondition
    have hready3 := hready.next hst3 hdepth hsplit.touches hdisjoint
    have hforked := forked_first hready3 hdisjoint' hheld
      (fun hready' hrun => body.checks hbody hnodupb hready' (known_within .. ▸ hsplit.whenTrue) hrun)
      (fun hready' hknown hl hrun =>
        rest.forks hrest hnodupr hready' hl (hknown ▸ hsplit.whenFalse) hrun) hbranches
    have hchecked := hforked.checked (hsplit.fits.mono fun _ hρ => nomatch hρ) hrejoin
    exact hsplit.checked.seq ((Option.bind_fun_some reach).symm ▸ hchecked) hdisjoint
theorem Cmds.checks (cs : Cmds) {n : Nat} {reach : Option Env} {st st' : State} {flow : Flow}
    (hin : cs.In cx) (hnodup : cs.nodes.Nodup) (hready : Ready cx cs.nodes st)
    (hfits : Fits w reach st.known) (h : (evaluator n).checkAll cs.ids cx st = some (flow, st')) :
    Checked w reach cs.nodes (fun ρ => cs.run w calls ρ) (fun ρ => cs.reads w calls ρ) flow st st' := by
  match cs with
  | .nil =>
    obtain ⟨rfl, rfl⟩ := of_pure h
    exact ⟨.of_table rfl, (Option.bind_fun_some reach).symm ▸ hfits, fun _ _ => rfl,
      nofun, fun _ _ => .nil⟩
  | .cons c cs =>
    obtain ⟨hc, hcs⟩ := hin
    obtain ⟨hnodupc, hnodup, hdisjoint⟩ := nodup_append'.1 hnodup
    obtain ⟨first, st1, hfirst, hrun⟩ := of_bind h
    obtain ⟨last, hlast, rfl⟩ := of_result hrun
    have hstep := (((evaluator_keeps_any n).check c.id).step hready.placed hfirst).1
    have hfirst := c.checks hc hnodupc (hready.mono fun _ => mem_append_left _) hfits hfirst
    have hlast := cs.checks hcs hnodup (hready.next hstep.wf hstep.depth hfirst.touches hdisjoint)
      hfirst.fits hlast
    refine (hfirst.seq hlast hdisjoint).congr (fun ρ => ?_) fun ρ => ?_
    · rw [Cmds.run]
      cases c.run w calls ρ <;> rfl
    · rw [Cmds.reads]
      cases c.run w calls ρ <;> rfl
theorem Chain.forks (chain : Chain) {n : Nat} {reach : Option Env} {st st' : State}
    {remaining : Scope} {l : List Scope} {outcomes : List Outcome} (hin : chain.In cx)
    (hnodup : chain.nodes.Nodup) (hready : Ready cx chain.nodes st)
    (hl : st.Holds (remaining :: l))
    (hfits : Fits w reach (remaining.known st.store))
    (h : (evaluator n).chainOutcomes chain.elseIfs chain.elseBranch remaining cx st =
      some (outcomes, st')) :
    Forked w reach chain.nodes (fun ρ => chain.run w calls ρ) (fun ρ => chain.reads w calls ρ)
      outcomes l st st' := by
  match chain with
  | .none =>
    cases h
    refine ⟨hready.placed, rfl, rfl, hl, fun _ _ => rfl, .of_table rfl, fun o ho => ?_, fun ρ hρ => ?_,
      nofun, fun _ _ => .nil⟩
    · rw [mem_singleton.1 ho]
      exact hfits.mono fun _ hρ => nomatch hρ
    · refine ⟨_, .head _, rfl, hfits.mono fun ρ' hρ' => ?_⟩
      rw [← hρ', ← hρ]
      exact (Option.bind_fun_some reach).symm
  | .otherwise body =>
    obtain ⟨o, st1, hbody, hpure⟩ := of_bind
      (show ((evaluator n).checkIn remaining body.ids >>= fun last => pure ([] ++ [last])) cx st =
        some (outcomes, st') from h)
    obtain ⟨rfl, rfl⟩ := of_pure hpure
    refine forked_checkIn hready.placed hl (fun hrun => ?_) hbody
    exact body.checks hin hnodup (hready.within hl) (known_within .. ▸ hfits) hrun
  | .elseIf c body rest =>
    obtain ⟨hc, hbody, hrest⟩ := hin
    obtain ⟨hnodupc, hnodup, hdisjoint⟩ := nodup_append'.1 hnodup
    obtain ⟨hnodupb, hnodupr, hdisjoint'⟩ := nodup_append'.1 hnodup
    rw [Chain.elseIfs, Chain.elseBranch, chainOutcomes_cons] at h
    obtain ⟨⟨⟨t, f⟩, after⟩, st1, hcondition, hbranches⟩ := of_bind h
    obtain ⟨⟨inner, hsplit, hstore, htable⟩, hst1, hdepth, hknown, hheld, hkept⟩ :=
      Cond.split_inScope w calls hc hnodupc hready.placed hl
        (hready.fresh.mono fun _ => mem_append_left _) hfits hcondition
    have htouches : Touches c.nodes st st1 := hsplit.touches.congr rfl htable
    have hready1 := hready.next hst1 hdepth htouches hdisjoint
    have hforked := forked_first hready1 hdisjoint' hheld
      (fun hready' hrun => body.checks hbody hnodupb hready'
        (known_within .. ▸ hstore ▸ hsplit.whenTrue) hrun)
      (fun hready' hf hl hrun =>
        rest.forks hrest hnodupr hready' hl (hf ▸ hstore ▸ hsplit.whenFalse) hrun) hbranches
    exact hforked.behind hdepth hknown hkept htouches
      (fun ρ hρ => (hsplit.recorded ρ hρ).congr (by rw [htable]))
      (c.mem_nodes_of_mem_reads w calls) hdisjoint
end

end FlowTyping

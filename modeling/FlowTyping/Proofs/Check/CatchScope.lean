import FlowTyping.Proofs.Definite.Branches
import FlowTyping.Proofs.Growth.Expressions
import FlowTyping.Proofs.Ty.Canonical

/-!
# The scope of a handler

An exception may leave the body of a `try` anywhere.  The scope in which a handler starts is the join
of two: of the scope before the body and of the scope at its end.  It binds every name that was bound
at some point of the body, but a type that a variable had in between only is missing.
-/

namespace FlowTyping

open Analysis Evaluator List Option State Ty

variable {cx : Context} {n : Nat} {id : NodeId} {st st' : State} {entry s : Scope} {line : Line}
  {clause : CatchClause} {v : String} {outcomes : List Outcome} {es : List NodeId} {flow : Flow}
  {Γ Δ : Typing}

/-! ## Both snapshots -/

lemma adds_declare (st : State) (s : Scope) (name : String) (type : Option Ty) (kind : VarKind)
    (line : Line) : Adds st { st with store := (s.declare st.store name type kind line).2 } :=
  ⟨rfl, rfl, rfl, rfl, (Store.size_alloc ..).symm ▸ Nat.le_succ _,
    fun _ hk => Store.read_alloc_of_lt hk _⟩

lemma fixes_catchType (types : List String) : Fixes cx (fun st => st) (catchType types) := by
  refine Fixes.bind (.of_run (r := stack) fun _ => rfl) fun stack => ?_
  split <;> exact .pure

lemma fixes_flowAt (expr : NodeId) : Fixes cx (fun st => st) (flowAt expr) := by
  refine Fixes.bind (.of_run fun _ => rfl) fun _ => ?_
  split <;> exact .pure

lemma catchStart_known (hst : st.Placed) (hl : st.Holds [entry])
    (h : catchStart entry line clause cx st = some (s, st')) :
    st'.Placed ∧ st'.Holds [s, entry] ∧
      entry.known st'.store = entry.known st.store ∧
      ∀ v, clause.var ≠ some v → s.known st'.store v = entry.known st.store v := by
  have hentry : entry.Wf (fun _ => True) st.store := hl.wf entry (.head _)
  obtain ⟨hstep, hheld, -⟩ := (giving_holding closed_true.toStable).catchStart entry line
    (fun name _ => closed_true.meansIn name) [] (hst.fit closed_true.ofName) (Nat.zero_le _) hl h
  refine ⟨hstep.wf, hheld, ?_⟩
  obtain ⟨copy, st1, hfork, h⟩ := of_bind h
  obtain ⟨hadds, -, hst1, hl1, hcopy⟩ := forkScope_known hst hl hentry hfork
  cases hvar : clause.var with
  | none =>
    rw [hvar] at h
    obtain ⟨rfl, rfl⟩ := of_pure h
    exact ⟨hadds.known_eq hentry, fun v _ => by rw [hcopy]⟩
  | some name =>
    simp only [hvar] at h
    obtain ⟨type, st2, htype, hdeclare⟩ := of_bind h
    obtain rfl : st2 = st1 := fixes_catchType clause.types htype
    rw [onStore_run, some.injEq, Prod.mk.injEq] at hdeclare
    obtain ⟨rfl, rfl⟩ := hdeclare
    have hadds' := adds_declare st2 copy name type .ordinary line
    refine ⟨(hadds.trans hadds').known_eq hentry, fun v hv => ?_⟩
    have hne : v ≠ name := fun heq => hv (heq ▸ rfl)
    rw [Scope.known_declare (hl1.wf copy (.head _)), Typing.set, if_neg hne, hcopy]

/-- What the handlers in front do changes nothing of the scope that all handlers start from. -/
lemma handler_started {before after : List CatchClause} (hst : st.Placed)
    (hl : st.Holds [entry])
    (h : (evaluator n).checkCatches entry line (before ++ clause :: after) cx st =
      some (outcomes, st')) :
    ∃ s st1 outcome st2, (evaluator n).checkIn s clause.body cx st1 = some (outcome, st2) ∧
      ∀ v, clause.var ≠ some v → s.known st1.store v = entry.known st.store v := by
  induction before generalizing st outcomes with
  | nil =>
    rw [nil_append, checkCatches_cons] at h
    obtain ⟨s, st1, hstart, h⟩ := of_bind h
    obtain ⟨outcome, st2, hcheck, -⟩ := of_bind h
    exact ⟨s, st1, outcome, st2, hcheck, (catchStart_known hst hl hstart).2.2.2⟩
  | cons first before ih =>
    rw [cons_append, checkCatches_cons] at h
    obtain ⟨s, st1, hstart, h⟩ := of_bind h
    obtain ⟨outcome, st2, hcheck, h⟩ := of_bind h
    obtain ⟨_, hrest, -⟩ := of_result h
    obtain ⟨hst1, hl1, hentry, -⟩ := catchStart_known hst hl hstart
    obtain ⟨⟨flow, scope⟩, hscope, -⟩ := of_result hcheck
    obtain ⟨inner, -, hran, hheld, hkept⟩ := inScope_known (hst1.fit closed_true.ofName) hl1
      (keeps_checkAll (evaluator_keeps_any n) first.body) hscope
    obtain ⟨s', st3, outcome', st4, hcheck', hknown⟩ := ih hran.wf hheld.tail hrest
    refine ⟨s', st3, outcome', st4, hcheck', fun v hv => ?_⟩
    rw [hknown v hv, hkept entry (.head _), hentry]

/-- The body runs in a copy of the current scope, and every handler starts from the join of that scope
with the one at the end of the body. -/
lemma tryOutcomes_known {body : List NodeId} {catches : List CatchClause} (hst : st.Placed)
    (h : (evaluator n).tryOutcomes id body catches cx st = some (outcomes, st')) :
    ∃ start bodyFlow last, start.Placed ∧ start.known = st.known ∧
      start.table.assertions = st.table.assertions ∧
      (evaluator n).checkAll body cx start = some (bodyFlow, last) ∧
      ∀ before clause after, catches = before ++ clause :: after →
        ∃ s st1 outcome st2, (evaluator n).checkIn s clause.body cx st1 = some (outcome, st2) ∧
          ∀ v, clause.var ≠ some v → s.known st1.store v = st.known.join last.known v := by
  replace h := bind_rest h rfl
  obtain ⟨entry, st1, hentry, h⟩ := of_bind h
  obtain ⟨hadds1, htable1, hst1, hl1, hknown1⟩ := forkScope_known hst .nil hst.current hentry
  obtain ⟨copy, st2, hcopy, h⟩ := of_bind h
  obtain ⟨hadds2, htable2, hst2, hl2, hknown2⟩ :=
    forkScope_known hst1 hl1 (hl1.wf entry (.head _)) hcopy
  obtain ⟨first, st3, hfirst, h⟩ := of_bind h
  obtain ⟨⟨bodyFlow, scope⟩, hscope, rfl⟩ := of_result hfirst
  obtain ⟨last, hbody, hran, hl3, hkept3⟩ := inScope_known (hst2.fit closed_true.ofName) hl2
    (keeps_checkAll (evaluator_keeps_any n) body) hscope
  obtain ⟨catchEntry, st4, hmerged, h⟩ := of_bind h
  obtain ⟨_, hothers, -⟩ := of_result h
  obtain ⟨-, -, hst4, hl4, hknown4⟩ := merged_known closed_true hran.wf .nil
    (hl3.wf entry (.tail _ (.head _))) (hl3.wf scope (.head _)) hmerged
  have hentry : entry.known st3.store = st.known := by
    rw [hkept3 entry (.head _), hadds2.known_eq (hl1.wf entry (.head _)), hknown1]
    rfl
  have hlast : scope.known st3.store = last.known := by
    rw [hran.store, hran.after_eq]
    rfl
  refine ⟨st2.within copy, bodyFlow, last, hran.entered, ?_, ?_, hbody, ?_⟩
  · rw [known_within, hknown2, hknown1]
    rfl
  · rw [← htable1, ← htable2]
    rfl
  · rintro before clause after rfl
    rw [hentry, hlast] at hknown4
    rw [← hknown4]
    exact handler_started hst4 hl4 hothers

/-! ## Names -/

/-- The expression that the statement evaluates, where it does nothing else. -/
def Arena.evaluated? (arena : Arena) (id : NodeId) : Option NodeId :=
  match arena.stmt? id with
  | some (.exprStmt e _) => some e
  | _ => none

/-- A statement that evaluates an expression keeps a variable in scope that its closures do not
capture by reference. -/
lemma bound_of_evaluated {e : NodeId} (hs : cx.arena.evaluated? id = some e)
    (hplain : cx.arena.PlainFor ⟨(· = v), False⟩ e) (hpending : Pending cx.arena (e :: es) st)
    (h : (evaluator n).check id cx st = some (flow, st')) :
    Pending cx.arena es st' ∧ (v ∈ st.bound → v ∈ st'.bound) := by
  have hplaced : st'.Placed :=
    (((evaluator_keeps_any n).check id).step (hpending.placed.fit closed_true.ofName) h).1.wf
  obtain ⟨doc, hs⟩ : ∃ doc, cx.arena.stmt? id = some (.exprStmt e doc) := by
    unfold Arena.evaluated? at hs
    split at hs
    · next doc hstmt =>
      cases hs
      exact ⟨doc, hstmt⟩
    · cases hs
  obtain ⟨m, st3, -, hrun, rfl⟩ := check_inside hs h
  have hrun : (evaluator m).checkExprStmt id e doc cx (st.enterStmt id) = some (flow, st3) := hrun
  rw [checkExprStmt_eq] at hrun
  obtain ⟨⟨⟩, st1, hvisit, hrun⟩ := of_bind hrun
  obtain ⟨type, hinfer⟩ := visit_eq_some.1 hvisit
  obtain ⟨⟨⟩, st2, hdoc, hrun⟩ := of_bind hrun
  obtain rfl : st3 = st2 := fixes_flowAt e hrun
  obtain ⟨hquiet, hbound⟩ := Definite.quiet_applyDoc hdoc
  have hinside : Pending cx.arena ([e] ++ es) (st.enterStmt id) :=
    ⟨hpending.placed.around, hpending.silent, hpending.disjoint⟩
  obtain ⟨hplaced1, hpassed, -⟩ := (grower_evaluator _ cx m).infer hplain hinside.left hinfer
  have hafter := hinside.after hplaced1 hpassed.toAccounted
  refine ⟨⟨hplaced, fun p hp _ hid => ?_, hafter.disjoint⟩, fun hv => hbound ?_⟩
  · rw [show (st3.leaveStmt id).table.assertions = st1.table.assertions from
      congrArg NodeTable.assertions hquiet.table]
    exact hafter.silent p hp hid
  · exact hpassed.grows.contains rfl hv

/-- The induction is on the statements, each of which keeps what the later ones need. -/
lemma bound_of_checkAll {ids : List NodeId}
    (hids : ∀ id ∈ ids, (cx.arena.evaluated? id).isSome = true)
    (hplain : ∀ e ∈ ids.filterMap cx.arena.evaluated?, cx.arena.PlainFor ⟨(· = v), False⟩ e)
    (hpending : Pending cx.arena (ids.filterMap cx.arena.evaluated? ++ es) st)
    (h : (evaluator n).checkAll ids cx st = some (flow, st')) :
    Pending cx.arena es st' ∧ (v ∈ st.bound → v ∈ st'.bound) := by
  induction ids generalizing st flow with
  | nil =>
    obtain ⟨-, rfl⟩ := of_pure h
    exact ⟨hpending, fun hv => hv⟩
  | cons first ids ih =>
    rw [forall_mem_cons] at hids
    obtain ⟨e, hs⟩ := isSome_iff_exists.1 hids.1
    rw [filterMap_cons_some hs] at hplain hpending
    rw [forall_mem_cons] at hplain
    obtain ⟨_, st1, hfirst, h⟩ := of_bind h
    obtain ⟨_, hrest, -⟩ := of_result h
    obtain ⟨hpending1, hbound⟩ := bound_of_evaluated hs hplain.1 hpending hfirst
    obtain ⟨hpending', hbound'⟩ := ih hids.2 hplain.2 hpending1 hrest
    exact ⟨hpending', fun hv => hbound' (hbound hv)⟩

/-! ## Types -/

lemma Typing.isSome_join (h : (Δ v).isSome = true) :
    (Γ.join Δ v).isSome = true := by
  unfold Typing.join
  cases Γ v with
  | none => exact h
  | some a => cases hΔ : Δ v <;> rfl

lemma Typing.covered_join {t u : Ty} (hΓ : ∀ t, Γ v = some (some t) → t.Canonical)
    (hΔ : ∀ t, Δ v = some (some t) → t.Canonical) (ht : Γ v = some (some t) ∨ Δ v = some (some t))
    (hu : Γ.join Δ v = some (some u)) :
    u = .mixed ∨ Covered t.members u.members := by
  have hself {a : Ty} (hcanonical : a.Canonical) : a.members = a.leaves :=
    hcanonical.normal.members_eq_leaves
  unfold Typing.join at hu
  cases ha : Γ v with
  | none =>
    rw [ha] at ht hu
    obtain rfl := some.inj (some.inj ((ht.resolve_left nofun).symm.trans hu))
    exact .inr (.of_subset fun _ => id)
  | some a =>
    cases hb : Δ v with
    | none =>
      rw [ha, hb] at ht hu
      obtain rfl := some.inj (some.inj ((ht.resolve_right nofun).symm.trans hu))
      exact .inr (.of_subset fun _ => id)
    | some b =>
      rw [ha, hb] at hu
      rw [ha, hb, some.injEq, some.injEq] at ht
      replace hu := some.inj hu
      split at hu
      · next heq =>
        subst hu
        have hu := hΓ u ha
        rcases ht with ht | rfl
        · obtain rfl := some.inj ht
          exact .inr (.of_subset fun _ => id)
        · have ht := hΔ t hb
          rw [hself ht, hself hu]
          exact .inr (ht.covered_of_eqv hu (hu.eqv_symm ht heq))
      · obtain ⟨a, rfl, hu⟩ := bind_eq_some_iff.1 hu
        obtain ⟨b, rfl, hu⟩ := bind_eq_some_iff.1 hu
        obtain rfl := some.inj hu
        have hparts : ∀ t ∈ [a, b], t.Canonical := by simp [hΓ a ha, hΔ b hb]
        by_cases hmixed : Ty.join a b = .mixed
        · exact .inl hmixed
        · refine .inr fun x hx => (covered_members_unionOf
            (fun _ => canonical_of_mem_leavesOfAll hparts) hmixed).2 x (mem_leavesOfAll.2 ?_)
          have htparts : t ∈ [a, b] := by
            rcases ht with ht | ht <;> simp [some.inj ht]
          exact ⟨t, htparts, hself (hparts t htparts) ▸ hx⟩

/-- `try { $x = 1; $x = 'a'; } catch (E $e) { $x; }`, where the `try` is node 10. -/
def rewrittenTwice : SourceUnit :=
  Build.result do
    let one ← Build.expr (.int 1)
    let first ← Build.assignStmt "x" one
    let text ← Build.expr (.string "a")
    let second ← Build.assignStmt "x" text
    let read ← Build.expr (.var "x")
    let use ← Build.stmt (.exprStmt read none)
    let statement ← Build.stmt (.tryStmt [first, second] [⟨["E"], some "e", [use]⟩] none)
    Build.finish "unit" [statement]

end FlowTyping

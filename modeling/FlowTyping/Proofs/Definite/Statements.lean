import FlowTyping.Proofs.Definite.Branches

/-!
# Names bound by statements

Loops, switches, and from all the rules what the check of a whole body leaves behind.

**Loops.**  The body of a loop is checked once.  It is left where its condition fails, and at the
jumps in it, and its end goes to the next round; since the paths of the first round are among the
paths to any point of the loop, the one check accounts for all rounds.
-/

namespace FlowTyping

open Analysis Context Evaluator List Scope State

namespace Definite

variable {cx : Context} {v : String} {st st1 st2 st' : State} {id : NodeId} {n : Nat}

section Rules

variable {nodes nodes' : List NodeId} {upTo upTo' : NodeId → Language String}
  {leaves leaves' : Way → Language String} {N : Set String} {ends : Set String → Prop} {flow : Flow}
  {order : Order} {body : Cmds} {byRef : Bool} {o : Outcome} {falling : Option Scope}
  {dead : List Outcome} {rest : Cases} {exit start : Scope} {breaks : List Scope} {c subject : Exp}
  {step : Exps} {line : Line} {key : Option NodeId} {value : NodeId} {names : List String}

/-! ## Loops -/

lemma Ready.enterLoop {levels : Nat} (h : Ready cx nodes levels st) :
    Ready cx nodes levels st.enterLoop :=
  ⟨h.nodup, h.clear, h.room⟩

/-- Behind the body of a loop the frames are as before it; a path that leaves the body by a jump
reaches a scope of the frame that is taken away. -/
lemma Walked.leaveLoop (h : Walked cx v nodes upTo leaves N ends st.enterLoop st1) :
    Ran cx v nodes nodes upTo N st st1.leaveLoop ∧ Kept st st1.leaveLoop ∧
      ∀ way, way ≠ .normal → Arrives v (leaves way) N st1.Leaves :=
  ⟨⟨h.ran.asserts, h.ran.reads, h.ran.visits⟩, ⟨breaksGrow.loop h.kept.grows, h.kept.depth⟩,
    fun way hway => h.jumps way hway (cons_ne_nil _ _)⟩

lemma quiet_finishLoop {body : Outcome} (h : finishLoop exit body breaks cx st = some ((), st')) :
    Quiet st st' ∧ exit.names ⊆ st'.bound ∧ ∀ s ∈ breaks, s.names ⊆ st'.bound := by
  obtain ⟨joined, st1, hjoin, hreplace⟩ := of_bind h
  obtain ⟨hquiet1, -, hjoined⟩ := quiet_onStore hjoin
  obtain ⟨hquiet2, hbound⟩ := quiet_replaceCurrent hreplace
  obtain ⟨base, σ, hbase, rfl⟩ : ∃ (base : Scope) (σ : Store), exit.names ⊆ base.names ∧
      joined = (base.mergeAll breaks σ).1 := by
    rw [hjoined]
    dsimp only
    split
    · exact ⟨_, _, names_merge.symm ▸ Set.subset_union_left, rfl⟩
    · exact ⟨_, _, subset_rfl, rfl⟩
  rw [hbound]
  exact ⟨hquiet1.trans hquiet2, fun x hx => (contains_mergeAll breaks x).2 (.inl (hbase hx)),
    fun s hs x hx => (contains_mergeAll breaks x).2 (.inr ⟨s, hs, hx⟩)⟩

/-- Any loop but `do` may be passed by: behind it, what is bound where its condition failed is bound,
and what is bound where its body is left early. -/
lemma Walked.finish {body : Outcome} (h : Walked cx v nodes upTo leaves N ends st.enterLoop st1)
    (hfinish : finishLoop exit body st1.frame cx st1.leaveLoop = some ((), st')) :
    Ran cx v nodes nodes upTo N st st' ∧ Kept st st' ∧ exit.names ⊆ st'.bound ∧
      ∀ way, way ≠ .normal → Possible (leaves way) → Reached v (leaves way) N st'.bound := by
  obtain ⟨hran, hkept, hjumps⟩ := h.leaveLoop
  obtain ⟨hquiet, hexit, hbreaks⟩ := quiet_finishLoop hfinish
  refine ⟨hran.quiet hquiet, hkept.trans (.of_quiet hquiet), hexit, fun way hway hp => ?_⟩
  obtain ⟨_, ⟨s, hs, rfl⟩, hreached⟩ := hjumps way hway hp
  exact hreached.mono subset_rfl (hbreaks s hs)

lemma walks_while (hin : c.In cx) (hbody : WalksBody cx v n order body) :
    WalksCmd cx v order (.whileLoop id c body) ((evaluator n).checkWhile c.id body.ids) := by
  intro st flow st' h hready
  obtain ⟨⟨⟩, st1, hvisit, h⟩ := of_bind h
  obtain ⟨⟨t, f⟩, st2, hbranch, h⟩ := of_bind h
  obtain ⟨hran, hkept, htrue, hfalse⟩ := Exp.split (v := v) hin hready.left
    (bind_eq_some.2 ⟨_, _, hvisit, hbranch⟩)
  replace h := bind_rest h rfl
  obtain ⟨o, st3, hcheck, h⟩ := of_bind h
  obtain ⟨hwalked, -⟩ := hbody.checkIn hcheck (hready.after hran hkept.depth).enterLoop
  replace h := bind_rest h rfl
  obtain ⟨⟨⟩, hfinish, rfl⟩ := of_result h
  obtain ⟨hran', hkept', hexit, -⟩ := hwalked.finish hfinish
  refine .plain (hran.andThen hran' (fun _ => htrue) hready.disjoint).star (hkept.trans hkept')
    (Way.forall_jumps rfl rfl) fun _ => ?_
  exact ⟨_, ⟨rfl, rfl⟩, (hfalse.mono subset_rfl hexit).inl.star⟩

/-- Where no path goes on to the next round by a jump, what is reached at the end of the body is
reached on a path that goes on. -/
lemma Ran.goingOn {p q : NodeId → Language String} {normal next : Language String}
    (h : Ran cx v nodes nodes (fun read => p read + normal * q read) N st st')
    (hnext : ¬ Possible next) :
    Ran cx v nodes nodes (fun read => p read + (normal + next) * q read) N st st' := by
  refine h.along (fun read hp => ?_) fun read V _ hreached => hreached.imp fun path hpath => ?_
  · rcases possible_add.1 hp with hp | hp
    · exact possible_add.2 (.inl hp)
    · obtain ⟨hp, hq⟩ := possible_mul.1 hp
      have hnormal := (possible_add.1 hp).resolve_right hnext
      exact possible_add.2 (.inr (possible_mul.2 ⟨hnormal, hq⟩))
  · rw [add_mul]
    rcases hpath with hpath | hpath
    exacts [.inl hpath, .inr (.inl hpath)]

/-- A `do` loop is left where its condition failed or its body is left early, unless its body does
not end. -/
lemma quiet_leaveDoWhile {c : NodeId} {bodyFlow : Flow}
    (h : leaveDoWhile c bodyFlow breaks cx st = some (flow, st')) :
    Quiet st st' ∧ (bodyFlow = .exit ∧ breaks = [] ∨ flow = .normal ∧ st.boundOn c false ⊆ st'.bound ∧
      ∀ s ∈ breaks, s.names ⊆ st'.bound) := by
  unfold leaveDoWhile at h
  split at h
  · next hexit =>
    obtain ⟨-, rfl⟩ := of_pure h
    rw [Bool.and_eq_true, beq_iff_eq, List.isEmpty_iff] at hexit
    exact ⟨.refl _, .inl hexit⟩
  · obtain ⟨⟨t, f⟩, st1, hbranch, h⟩ := of_bind h
    obtain ⟨joined, st2, hjoin, h⟩ := of_bind h
    obtain ⟨⟨⟩, hreplace, rfl⟩ := of_result h
    obtain ⟨hquiet1, -, -, hfalse⟩ := quiet_branchScopes hbranch
    obtain ⟨hquiet2, -, rfl⟩ := quiet_onStore hjoin
    obtain ⟨hquiet3, hbound⟩ := quiet_replaceCurrent hreplace
    rw [hbound, ← hfalse]
    exact ⟨(hquiet1.trans hquiet2).trans hquiet3, .inr ⟨rfl,
      fun x hx => (contains_mergeAll breaks x).2 (.inl hx),
      fun s hs x hx => (contains_mergeAll breaks x).2 (.inr ⟨s, hs, hx⟩)⟩⟩

lemma walks_doWhile (hin : c.In cx) (hcontinues : body.continues = false)
    (hbody : WalksBody cx v n order body) :
    WalksCmd cx v order (.doWhile id body c) ((evaluator n).checkDoWhile body.ids c.id) := by
  intro st flow st' h hready
  rw [checkDoWhile_eq] at h
  replace h := bind_rest h rfl
  obtain ⟨bodyFlow, st2, hrun, h⟩ := of_bind h
  replace h := bind_rest h rfl
  obtain ⟨_, st1, hcheck, hrun⟩ := of_bind hrun
  obtain ⟨⟨⟩, hvisit, rfl⟩ := of_result hrun
  obtain ⟨type, hinfer⟩ := visit_eq_some.1 hvisit
  have hready : Ready cx (body.nodes ++ c.nodes) _ st.enterLoop := hready.comm.enterLoop
  have hwalked : Walked _ _ _ _ _ _ _ st.enterLoop st1 := hbody hcheck hready.left
  obtain ⟨hran, -, houtcomes⟩ :=
    c.traced (v := v) hin hinfer (hready.after hwalked.ran hwalked.kept.depth)
  -- Behind the body the condition fails, or a path has left the body before.
  have hcondition : Walked cx v c.nodes (c.upTo) (Way.toEnd (c.on false)) st1.bound
      (fun stop => stop = st2.boundOn c.id false) st1 st2 :=
    .plain hran (kept_infer hinfer) (Way.forall_jumps rfl rfl) fun _ =>
      ⟨_, rfl, houtcomes false⟩
  have hboth := hwalked.andThen hcondition (fun _ hstop => hstop.2) hready.disjoint
  obtain ⟨hran2, hkept2, hjumps⟩ := hboth.leaveLoop
  obtain ⟨hquiet, hleave⟩ := quiet_leaveDoWhile h
  have hnext : ¬ Possible (body.leaves order .next) := body.not_possible_next hcontinues
  refine .plain ((hran2.quiet hquiet).goingOn hnext).star (hkept2.trans (.of_quiet hquiet))
    (Way.forall_jumps rfl rfl) fun hp => ?_
  rcases possible_add.1 (possible_mul.1 hp).2 with hp | hp
  · have hp : Possible (body.leaves order .normal) :=
      (possible_add.1 (possible_mul.1 hp).1).resolve_right hnext
    obtain ⟨_, ⟨⟨hflow, -⟩, rfl⟩, hreached⟩ :=
      hboth.falls (possible_mul.2 ⟨hp, (c.offers false).possible⟩)
    rcases hleave with ⟨hexit, -⟩ | ⟨rfl, hfalse, -⟩
    · rw [hflow] at hexit
      cases hexit
    · have hreached : Reached v (body.leaves order .normal * c.on false) st.bound st'.bound :=
        hreached.mono subset_rfl hfalse
      refine ⟨_, ⟨rfl, rfl⟩, Reached.star (hreached.imp fun path hpath => ?_)⟩
      rw [add_mul]
      exact .inl (.inl hpath)
  · obtain ⟨_, ⟨s, hs, rfl⟩, hreached⟩ := hjumps .leave (by rintro ⟨⟩) (possible_add.2 (.inl hp))
    rcases hleave with ⟨-, hnone⟩ | ⟨rfl, -, hbreaks⟩
    · have hs : s ∈ st2.breaks.headD [] := hs
      rw [hnone] at hs
      cases hs
    · rw [Way.andThen_toEnd (by rintro ⟨⟩)] at hreached
      exact ⟨_, ⟨rfl, rfl⟩, Reached.star (hreached.mono subset_rfl (hbreaks s hs)).inr⟩

/-- The scopes in which the body of a `for` starts, and which is left where it does not run. -/
lemma quiet_forScopes {condition : List NodeId} {t f : Scope}
    (h : forScopes condition cx st = some ((t, f), st')) :
    Quiet st st' ∧ t.names = st.boundWhere condition true ∧
      f.names = st.boundWhere condition false := by
  unfold forScopes at h
  unfold boundWhere
  cases hlast : condition.getLast? with
  | some last =>
    rw [hlast] at h
    obtain ⟨hquiet, -, htrue, hfalse⟩ := quiet_branchScopes h
    exact ⟨hquiet, htrue, hfalse⟩
  | none =>
    rw [hlast] at h
    obtain ⟨_, st1, hstart, h⟩ := of_bind h
    obtain ⟨_, hexit, hpair⟩ := of_result h
    cases hpair
    obtain ⟨hquiet1, hstack, hstart⟩ := quiet_forkCurrent hstart
    obtain ⟨hquiet2, -, hexit⟩ := quiet_forkCurrent hexit
    exact ⟨hquiet1.trans hquiet2, hstart, hexit.trans (bound_congr hstack)⟩

lemma walks_forBody (hstep : step.In cx) (hbody : WalksBody cx v n order body) :
    Walks cx v (max body.depth step.height) ((evaluator n).forBody step.ids body.ids) (body.nodes ++ step.nodes)
      (fun read => body.upTo order read + body.leaves order .normal * step.upTo read)
      (Way.andThen (body.leaves order) (Way.toEnd step.all)) := by
  intro st flow st' h hready
  obtain ⟨bodyFlow, st1, hcheck, h⟩ := of_bind h
  obtain ⟨⟨⟩, hvisit, rfl⟩ := of_result h
  have hwalked := hbody hcheck hready.left
  have hsteps := walks_echo (v := v) hstep (bind_eq_some.2 ⟨_, _, hvisit, rfl⟩)
    (hready.after hwalked.ran hwalked.kept.depth)
  refine (hwalked.andThen hsteps (fun _ hstop => hstop.2) hready.disjoint).ending ?_
  rintro stop ⟨⟨hflow, -⟩, -, rfl⟩
  exact ⟨_, ⟨hflow, rfl⟩, subset_rfl⟩

lemma walks_for {init condition : Exps} (hinit : init.In cx) (hcondition : condition.In cx)
    (hstep : step.In cx) (hcontinues : body.continues = false)
    (hbody : WalksBody cx v n order body) :
    WalksCmd cx v order (.forLoop id init condition step body)
      ((evaluator n).checkFor init.ids condition.ids step.ids body.ids) := by
  intro st flow st' h hready
  rw [checkFor_eq] at h
  obtain ⟨⟨⟩, st1, hvisit1, h⟩ := of_bind h
  obtain ⟨hran1, hall1⟩ := init.traced (v := v) hinit hready.left hvisit1
  have hkept1 := kept_visitAll hvisit1
  have hready1 := hready.after hran1 hkept1.depth
  obtain ⟨⟨⟩, st2, hvisit2, h⟩ := of_bind h
  have hdecided := condition.decided (v := v) hcondition hready1.left hvisit2
  obtain ⟨hran2, -⟩ := condition.traced (v := v) hcondition hready1.left hvisit2
  obtain ⟨⟨t, f⟩, st3, hscopes, h⟩ := of_bind h
  obtain ⟨hquiet3, htrue, hfalse⟩ := quiet_forScopes hscopes
  have hkept3 : Kept st1 st3 := (kept_visitAll hvisit2).trans (.of_quiet hquiet3)
  have hready3 := hready1.after (hran2.quiet hquiet3) hkept3.depth
  replace h := bind_rest h rfl
  obtain ⟨⟨bodyFlow, after⟩, st4, hrun, h⟩ := of_bind h
  obtain ⟨hwalked, -⟩ := (walks_forBody hstep hbody).inScope hrun hready3.comm.enterLoop
  replace h := bind_rest h rfl
  obtain ⟨⟨⟩, hfinish, rfl⟩ := of_result h
  obtain ⟨hran5, hkept5, hexit, hleave⟩ := hwalked.finish hfinish
  have hnext : ¬ Possible (body.leaves order .next) := body.not_possible_next hcontinues
  have hround := (hran2.quiet hquiet3).andThen (hran5.goingOn hnext)
    (fun hp => htrue ▸ hdecided true hp) hready1.disjoint
  refine .plain (hran1.andThen hround.star (fun _ => hall1) hready.disjoint)
    (hkept1.trans (hkept3.trans hkept5)) (Way.forall_jumps rfl rfl) fun hp => ⟨_, ⟨rfl, rfl⟩, ?_⟩
  refine hall1.mul (Reached.star ?_)
  rcases possible_add.1 (possible_mul.1 (possible_mul.1 hp).2).2 with hp | hp
  · exact ((hfalse ▸ hdecided false hp).mono subset_rfl hexit).inl
  · obtain ⟨hp, hp'⟩ := possible_mul.1 hp
    have hreached := hleave .leave (by rintro ⟨⟩) (possible_add.2 (.inl hp'))
    rw [Way.andThen_toEnd (by rintro ⟨⟩)] at hreached
    exact (Reached.mul (htrue ▸ hdecided true hp) hreached).inr

lemma quiet_markIterated {subject : NodeId}
    (h : markIterated subject byRef line cx st = some ((), st')) :
    Quiet st st' ∧ st'.bound = st.bound := by
  cases byRef with
  | false =>
    cases h
    exact ⟨.refl _, rfl⟩
  | true =>
    replace h := bind_rest h rfl
    cases hat : cx.arena.varName? subject with
    | none =>
      rw [hat] at h
      cases h
      exact ⟨.refl _, rfl⟩
    | some name =>
      rw [hat] at h
      exact quiet_onVars h

lemma quiet_markReferenceAt {target : NodeId} (h : markReferenceAt target cx st = some ((), st')) :
    Quiet st st' ∧ st'.bound = st.bound := by
  replace h := bind_rest h rfl
  cases hat : cx.arena.varName? target with
  | none =>
    rw [hat] at h
    cases h
    exact ⟨.refl _, rfl⟩
  | some name =>
    rw [hat] at h
    exact quiet_onVars h

lemma quiet_bindIteration
    (hnames : (key.toList ++ [value]).map cx.arena.varName? = names.map some)
    (hthis : "this" ∉ names)
    (h : (evaluator n).bindIteration key value byRef line cx st = some ((), st')) :
    Quiet st st' ∧ st.bound ⊆ st'.bound ∧ ∀ x ∈ names, x ∈ st'.bound := by
  have hvalue : ∀ {s : State} {x : String}, cx.arena.varName? value = some x → x ≠ "this" →
      (do (evaluator n).assign value none line; if byRef then markReferenceAt value : Analysis Unit) cx s =
        some ((), st') → Quiet s st' ∧ st'.bound = insert x s.bound := by
    intro s x hx hthis h
    obtain ⟨⟨⟩, s1, hassign, h⟩ := of_bind h
    obtain ⟨hquiet, hbound⟩ := quiet_assign (isVar_of_varName? hx) hthis hassign
    cases byRef with
    | false =>
      cases h
      exact ⟨hquiet, hbound⟩
    | true =>
      obtain ⟨hquiet', hbound'⟩ := quiet_markReferenceAt h
      exact ⟨hquiet.trans hquiet', hbound'.trans hbound⟩
  have hlength := congrArg length hnames
  cases key with
  | none =>
    obtain ⟨x, rfl⟩ : ∃ x, names = [x] := length_eq_one_iff.1 (by simpa [eq_comm] using hlength)
    have hx : cx.arena.varName? value = some x := by simpa using hnames
    obtain ⟨hquiet, hbound⟩ := hvalue hx (by simpa [eq_comm] using hthis) h
    rw [hbound]
    exact ⟨hquiet, Set.subset_insert .., by simp⟩
  | some key =>
    obtain ⟨k, x, rfl⟩ : ∃ k x, names = [k, x] :=
      length_eq_two.1 (by simpa [eq_comm] using hlength)
    obtain ⟨hk, hx⟩ : cx.arena.varName? key = some k ∧ cx.arena.varName? value = some x := by
      simpa using hnames
    obtain ⟨hthisk, hthisx⟩ : k ≠ "this" ∧ x ≠ "this" := by simpa [eq_comm] using hthis
    obtain ⟨⟨⟩, st1, hkey, h⟩ := of_bind h
    obtain ⟨hquiet, hbound⟩ := quiet_assign (isVar_of_varName? hk) hthisk hkey
    obtain ⟨hquiet', hbound'⟩ := hvalue hx hthisx h
    rw [hbound', hbound]
    exact ⟨hquiet.trans hquiet', (Set.subset_insert ..).trans (Set.subset_insert ..), by simp⟩

lemma walks_foreach (hin : subject.In cx)
    (hnames : (key.toList ++ [value]).map cx.arena.varName? = names.map some)
    (hthis : "this" ∉ names) (hbody : WalksBody cx v n order body) :
    WalksCmd cx v order (.foreach id subject names body)
      ((evaluator n).checkForeach id subject.id key value byRef body.ids) := by
  intro st flow st' h hready
  rw [checkForeach_eq] at h
  replace h := bind_rest h rfl
  obtain ⟨⟨⟩, st1, hvisit, h⟩ := of_bind h
  obtain ⟨hran1, hkept1, hfirst⟩ := Exp.visited (v := v) hin hready.left hvisit
  obtain ⟨⟨⟩, st2, hmark, h⟩ := of_bind h
  obtain ⟨hquiet2, hbound2⟩ := quiet_markIterated hmark
  obtain ⟨exit, st3, hexit, h⟩ := of_bind h
  obtain ⟨hquiet3, hstack3, hexit⟩ := quiet_forkCurrent hexit
  obtain ⟨start, st4, hstart, h⟩ := of_bind h
  obtain ⟨hquiet4, -, hstart⟩ := quiet_forkCurrent hstart
  obtain ⟨⟨⟨bodyFlow, breaks⟩, after⟩, st5, hrun, h⟩ := of_bind h
  obtain ⟨⟨⟩, hfinish, rfl⟩ := of_result h
  obtain ⟨inner, hinner, rfl, rfl⟩ := inScope_eq_some.1 hrun
  -- One round: the names are bound, and then the body runs.
  obtain ⟨⟨⟩, s1, hbind, hinner⟩ := of_bind hinner
  replace hinner := bind_rest hinner rfl
  obtain ⟨_, s2, hcheck, hinner⟩ := of_bind hinner
  replace hinner := bind_rest hinner rfl
  obtain ⟨hpair, rfl⟩ := of_pure hinner
  cases hpair
  have hquiet : Quiet st1 st4 := (hquiet2.trans hquiet3).trans hquiet4
  obtain ⟨hquietBind, hgrows, hbinds⟩ := quiet_bindIteration hnames hthis hbind
  have hquietRound : Quiet st1 s1 :=
    hquiet.trans ((quiet_within start).trans hquietBind)
  have hwalked : Walked _ _ _ _ _ _ _ s1.enterLoop s2 :=
    hbody hcheck ((hready.after hran1 hkept1.depth).quiet hquietRound).enterLoop
  obtain ⟨hran2, hkept2, hjumps⟩ := hwalked.leaveLoop
  obtain ⟨hquiet6, hleft, hbreaks⟩ := quiet_finishLoop hfinish
  have hround : Reached v {names} st1.bound s1.bound := by
    refine .assigning ?_ hbinds
    rwa [bound_within, hstart, bound_congr hstack3, hbound2] at hgrows
  have hquietBehind : Quiet s2.leaveLoop st' := (quiet_within _).trans hquiet6
  have hran := (hran2.after fun _ => hround).congr hquietRound hquietBehind
  have hkept : Kept st st' := (hkept1.trans (.of_quiet hquietRound)).trans
    (hkept2.trans (.of_quiet hquietBehind))
  refine .plain (hran1.andThen hran.star (fun _ => hfirst) hready.disjoint) hkept
    (Way.forall_jumps rfl rfl) fun _ => ⟨_, ⟨rfl, rfl⟩, hfirst.mul ?_⟩
  refine Reached.star (Reached.nothing ?_).inl
  rwa [hexit, hbound2] at hleft

/-! ## Switches -/

/-- A part behind a branch, run on from its end where there is one.  Where there is none, no path
goes on, and any account of the part will do. -/
lemma Walked.onward {other : NodeId → Language String} {ways : Way → Language String}
    {K : Set String} (hdisjoint : nodes.Disjoint nodes')
    (h : Walked cx v nodes upTo leaves N (fun stop => o.flow = .normal ∧ stop = o.scope.names) st st1)
    (hany : Walked cx v nodes' other ways K ends st1 st2)
    (hlive : o.flow = .normal → Walked cx v nodes' upTo' leaves' o.scope.names ends st1 st2) :
    Walked cx v (nodes ++ nodes') (fun read => upTo read + leaves .normal * upTo' read)
      (Way.andThen leaves leaves') N ends st st2 := by
  by_cases hflow : o.flow = .normal
  · refine (h.andThen (hlive hflow) (fun _ hstop => hstop.2) hdisjoint).ending ?_
    exact fun stop hstop => ⟨stop, hstop.2, subset_rfl⟩
  · have hnormal : ¬ Possible (leaves .normal) := by
      intro hp
      obtain ⟨_, hstop, -⟩ := h.falls hp
      exact hflow hstop.1
    have hrest : Ran cx v nodes' nodes' (fun read => leaves .normal * upTo' read) N st1 st2 :=
      hany.ran.along (fun _ hp => absurd (possible_mul.1 hp).1 hnormal)
        fun _ _ hp => absurd (possible_mul.1 hp).1 hnormal
    refine ⟨h.ran.both hrest hdisjoint, h.kept.trans hany.kept,
      fun hp => absurd (possible_mul.1 hp).1 hnormal, fun way hway hbreaks => ?_⟩
    rw [Way.andThen_of_ne hway]
    exact ((h.jumps way hway hbreaks).imp fun _ => hany.kept.leaves).add fun hp =>
      absurd (possible_mul.1 hp).1 hnormal

/-- What a check of the cases of a switch leaves behind: for the paths that enter one of them, for
those through all tests, and for those that run on from the case before. -/
structure Covered (cx : Context) (v : String) (order : Order) (cases : Cases) (falling falling' : Option Scope)
    (st st' : State) : Prop where
  enters : Walked cx v cases.nodes (fun read => cases.enterUpTo order read) (cases.enter order) st.bound
    (fun stop => ∃ s, falling' = some s ∧ stop = s.names) st st'
  tests : Reached v cases.tests st.bound st'.bound
  runs : ∀ s, falling = some s → Walked cx v cases.nodes (fun read => cases.runUpTo order read)
    (cases.run order) s.names (fun stop => ∃ s, falling' = some s ∧ stop = s.names) st st'

/-- The check covers the cases. -/
def Covers (cx : Context) (v : String) (n : Nat) (order : Order) (cases : Cases) : Prop :=
  ∀ ⦃st : State⦄ ⦃falling falling' : Option Scope⦄ ⦃dead : List Outcome⦄ ⦃st' : State⦄,
    (evaluator n).checkCases cases.toList falling cx st = some ((falling', dead), st') →
      Ready cx cases.nodes cases.depth st → Covered cx v order cases falling falling' st st'

lemma covers_nil : Covers cx v n order .nil := by
  intro st falling falling' dead st' h hready
  cases h
  refine ⟨.plain (.nothing (.refl _)) (.refl _) (fun _ _ => rfl) .of_zero, .nothing subset_rfl, ?_⟩
  rintro s rfl
  exact .atOnce (.refl _) ⟨s, rfl, rfl⟩

lemma quiet_caseStart (h : caseStart falling cx st = some (start, st')) :
    Quiet st st' ∧ st'.bound = st.bound ∧ st.bound ⊆ start.names ∧
      ∀ s, falling = some s → s.names ⊆ start.names := by
  cases falling with
  | none =>
    obtain ⟨hquiet, hstack, hnames⟩ := quiet_forkCurrent h
    exact ⟨hquiet, bound_congr hstack, hnames.symm.subset, fun s hs => nomatch hs⟩
  | some previous =>
    replace h := bind_rest h rfl
    obtain ⟨hquiet, hstack, rfl⟩ := quiet_onStore h
    rw [names_merge]
    refine ⟨hquiet, bound_congr hstack, Set.subset_union_right, ?_⟩
    rintro s ⟨⟩
    exact Set.subset_union_left

lemma casesBehind_eq_some {cases : List SwitchCase}
    (h : (evaluator n).casesBehind cases o cx st = some ((falling, dead), st')) :
    ∃ previous dead', (o.flow = .normal → previous = some o.scope) ∧
      (evaluator n).checkCases cases previous cx st = some ((falling, dead'), st') := by
  unfold casesBehind at h
  split at h
  · exact ⟨some o.scope, dead, fun _ => rfl, h⟩
  · next hdead =>
    obtain ⟨⟨falling', dead'⟩, hrun, hpair⟩ := of_result h
    cases hpair
    refine ⟨none, dead', fun hflow => absurd ?_ hdead, hrun⟩
    rw [Outcome.isLive, hflow]
    rfl

/-- The body of a case and the cases behind it, where one is entered behind the body and where they
are run on from it. -/
lemma Covers.behind (hbody : WalksBody cx v n order body) (hrest : Covers cx v n order rest)
    (hready : Ready cx (body.nodes ++ rest.nodes) (max body.depth rest.depth) st)
    (hcheck : (evaluator n).checkIn start body.ids cx st = some (o, st1))
    (hcases : (evaluator n).casesBehind rest.toList o cx st1 = some ((falling, dead), st')) :
    Walked cx v (body.nodes ++ rest.nodes)
        (fun read => body.upTo order read + body.leaves order .normal * rest.runUpTo order read)
        (Way.andThen (body.leaves order) (rest.run order)) start.names
        (fun stop => ∃ s, falling = some s ∧ stop = s.names) st st' ∧
      Walked cx v (body.nodes ++ rest.nodes) (fun read => rest.enterUpTo order read) (rest.enter order)
        st.bound (fun stop => ∃ s, falling = some s ∧ stop = s.names) st st' ∧
      Reached v rest.tests st.bound st'.bound := by
  obtain ⟨hwalked, hbound⟩ := hbody.checkIn hcheck hready.left
  obtain ⟨previous, dead', hprevious, hrun⟩ := casesBehind_eq_some hcases
  obtain ⟨henters, htests, hruns⟩ := hrest hrun (hready.after hwalked.ran hwalked.kept.depth)
  rw [hbound] at henters htests
  exact ⟨hwalked.onward hready.disjoint henters fun hflow => hruns _ (hprevious hflow),
    .passing hwalked.ran hwalked.kept henters hready.disjoint, htests⟩

lemma covers_case {test : Exp} (hin : test.In cx) (hbody : WalksBody cx v n order body)
    (hrest : Covers cx v n order rest) : Covers cx v n order (.case test body rest) := by
  intro st falling falling' dead st' h hready
  rw [Cases.toList, Evaluator.checkCases_cons] at h
  obtain ⟨⟨⟩, st1, hvisit, h⟩ := of_bind h
  obtain ⟨hran, hkept, htest⟩ := Exp.visited (v := v) hin hready.left hvisit
  obtain ⟨start, st2, hstart, h⟩ := of_bind h
  obtain ⟨hquiet, hbound, hcurrent, hfalling⟩ := quiet_caseStart hstart
  obtain ⟨o, st3, hcheck, h⟩ := of_bind h
  have hran := hran.quiet hquiet
  have hkept : Kept st st2 := hkept.trans (.of_quiet hquiet)
  obtain ⟨hthrough, henters, htests⟩ :=
    Covers.behind hbody hrest (hready.after hran hkept.depth) hcheck h
  rw [hbound] at henters htests
  refine ⟨?_, htest.mul htests, fun s hs => ?_⟩
  · exact Walked.behind hran hkept (((hthrough.mono hcurrent).or henters).after htest) hready.disjoint
  · exact .passing hran hkept (hthrough.mono (hfalling s hs)) hready.disjoint

lemma covers_default (hbefore : ∃ path ∈ order.before rest, v ∉ path)
    (hbody : WalksBody cx v n order body) (hrest : Covers cx v n order rest) :
    Covers cx v n order (.default body rest) := by
  intro st falling falling' dead st' h hready
  rw [Cases.toList, Evaluator.checkCases_cons] at h
  replace h := bind_rest h rfl
  obtain ⟨start, st2, hstart, h⟩ := of_bind h
  obtain ⟨hquiet, hbound, hcurrent, hfalling⟩ := quiet_caseStart hstart
  obtain ⟨o, st3, hcheck, h⟩ := of_bind h
  obtain ⟨hthrough, henters, htests⟩ := Covers.behind hbody hrest (hready.quiet hquiet) hcheck h
  rw [hbound] at henters htests
  -- The default case is entered where it is written: the name is not assigned in between.
  obtain ⟨path, hpath, hv⟩ := hbefore
  have hfirst : Reached v (order.before rest) st.bound start.names :=
    ⟨hcurrent, path, hpath, fun hmem => absurd hmem hv⟩
  refine ⟨((hthrough.after hfirst).or henters).congr hquiet (.refl _), htests, fun s hs => ?_⟩
  exact (hthrough.mono (hfalling s hs)).congr hquiet (.refl _)

lemma Cases.any_isNone_toList (cases : Cases) :
    (cases.toList.any fun case => case.test.isNone) = cases.hasDefault := by
  match cases with
  | .nil => rfl
  | .case test body rest => simpa [Cases.toList, Cases.hasDefault] using rest.any_isNone_toList
  | .default body rest => simp [Cases.toList, Cases.hasDefault]

/-- Without a default case, the paths behind a switch include the one that enters no case. -/
lemma quiet_skipped {hasDefault : Bool} {entered paths : List Scope} {dead' : List Outcome}
    (h : (do
      let skipped ← if hasDefault then pure [] else do pure [← forkCurrent]
      return (entered ++ skipped, dead) : Analysis (List Scope × List Outcome)) cx st =
        some ((paths, dead'), st')) :
    ∃ skipped, paths = entered ++ skipped ∧ Quiet st st' ∧
      (hasDefault = false → ∃ s ∈ skipped, s.names = st.bound) := by
  cases hasDefault with
  | true =>
    cases h
    exact ⟨[], rfl, ⟨rfl, rfl, rfl, rfl⟩, fun h => nomatch h⟩
  | false =>
    obtain ⟨s, _, hfork, h⟩ := of_bind h
    cases h
    obtain ⟨hquiet, -, hnames⟩ := quiet_forkCurrent hfork
    exact ⟨[s], rfl, hquiet, fun _ => ⟨s, .head _, hnames⟩⟩

lemma walks_switch {cases : Cases} (hin : subject.In cx) (hcases : Covers cx v n order cases) :
    WalksCmd cx v order (.switch id subject cases)
      ((evaluator n).checkSwitch subject.id cases.toList) := by
  intro st flow st' h hready
  rw [checkSwitch_eq] at h
  obtain ⟨⟨paths, dead⟩, st4, hpaths, hrejoin⟩ := of_bind h
  obtain ⟨⟨⟩, st1, hvisit, hpaths⟩ := of_bind hpaths
  obtain ⟨hran, hkept, hfirst⟩ := Exp.visited (v := v) hin hready.left hvisit
  replace hpaths := bind_rest hpaths rfl
  obtain ⟨⟨falling, dead'⟩, st2, hcheck, hpaths⟩ := of_bind hpaths
  obtain ⟨henters, htests, -⟩ := hcases hcheck (hready.after hran hkept.depth).enterLoop
  replace hpaths := bind_rest hpaths rfl
  obtain ⟨hran2, hkept2, hjumps⟩ := henters.leaveLoop
  rw [Cases.any_isNone_toList] at hpaths
  obtain ⟨skipped, rfl, hquiet3, hskips⟩ := quiet_skipped hpaths
  obtain ⟨hquiet4, hjoined⟩ := quiet_rejoin hrejoin
  have hquiet : Quiet st2.leaveLoop st' := hquiet3.trans hquiet4
  refine .plain (hran.andThen (hran2.quiet hquiet) (fun _ => hfirst) hready.disjoint)
    (hkept.trans (hkept2.trans (.of_quiet hquiet))) (Way.forall_jumps rfl rfl) fun hp => ?_
  -- Every way out of the switch is one of the scopes that are joined behind it.
  suffices hsome : ∃ s ∈ st2.frame ++ falling.toList ++ skipped, Reached v
      (cases.enter order .normal + cases.enter order .leave + cases.enter order .next +
        if cases.hasDefault then 0 else cases.tests) st1.bound s.names by
    obtain ⟨s, hs, hreached⟩ := hsome
    obtain ⟨rfl, hsub⟩ := hjoined s hs
    exact ⟨_, ⟨rfl, rfl⟩, hfirst.mul (hreached.mono subset_rfl hsub)⟩
  simp only [mem_append, Option.mem_toList]
  rcases possible_add.1 (possible_mul.1 hp).2 with hp | hp
  · rcases possible_add.1 hp with hp | hp
    · rcases possible_add.1 hp with hp | hp
      · obtain ⟨_, ⟨s, hs, rfl⟩, hreached⟩ := henters.falls hp
        exact ⟨s, .inl (.inr hs), hreached.inl.inl.inl⟩
      · obtain ⟨_, ⟨s, hs, rfl⟩, hreached⟩ := hjumps .leave (by rintro ⟨⟩) hp
        exact ⟨s, .inl (.inl hs), hreached.inr.inl.inl⟩
    · obtain ⟨_, ⟨s, hs, rfl⟩, hreached⟩ := hjumps .next (by rintro ⟨⟩) hp
      exact ⟨s, .inl (.inl hs), hreached.inr.inl⟩
  · cases hdefault : cases.hasDefault with
    | true =>
      rw [hdefault] at hp
      exact absurd hp not_possible_zero
    | false =>
      obtain ⟨s, hs, hnames⟩ := hskips hdefault
      exact ⟨s, .inr hs, (hnames ▸ htests).inr⟩

/-! ## All statements -/

lemma walks_cons {c : Cmd} {cs : Cmds} (hc : WalksCmd cx v order c ((evaluator n).check c.id))
    (hcs : WalksBody cx v n order cs) : WalksBody cx v n order (.cons c cs) := by
  intro st flow st' h hready
  obtain ⟨first, st1, hcheck, h⟩ := of_bind h
  obtain ⟨rest, hrest, rfl⟩ := of_result h
  have hwalked := hc hcheck hready.left
  have hwalked' := hcs hrest (hready.after hwalked.ran hwalked.kept.depth)
  refine (hwalked.andThen hwalked' (fun _ hstop => hstop.2) hready.disjoint).ending ?_
  rintro stop ⟨⟨rfl, -⟩, rfl, rfl⟩
  exact ⟨_, ⟨rfl, rfl⟩, subset_rfl⟩

end Rules

mutual
/-- Every statement is checked as the paths through it say, if default cases are entered where they
are written or no test behind one assigns the variable. -/
theorem Cmd.walks (c : Cmd) {order : Order} {n : Nat} (hin : c.In cx)
    (hsettled : order = .asWritten ∨ c.Settled v) : WalksCmd cx v order c ((evaluator n).check c.id) := by
  match c with
  | .expr id e =>
    obtain ⟨⟨doc, hid⟩, he⟩ := hin
    exact .around hid fun m => walks_expr he
  | .echo id es =>
    obtain ⟨hid, hes⟩ := hin
    rw [WalksCmd, Cmd.leaves_echo]
    exact .around hid fun m => walks_echo hes
  | .ret id es =>
    obtain ⟨⟨e, hid, he⟩, hes⟩ := hin
    exact .around hid fun m => walks_ret he hes
  | .block id body =>
    obtain ⟨hid, hbody⟩ := hin
    exact .around hid fun m => body.walks hbody hsettled
  | .branch id c body rest =>
    obtain ⟨hid, hc, hbody, hrest⟩ := hin
    exact .around hid fun m => walks_branch hc (body.walks hbody (hsettled.imp_right And.left))
      (rest.forks hrest (hsettled.imp_right And.right))
  | .whileLoop id c body =>
    obtain ⟨hid, hc, hbody⟩ := hin
    exact .around hid fun m => walks_while hc (body.walks hbody hsettled)
  | .doWhile id body c =>
    obtain ⟨hid, hcontinues, hbody, hc⟩ := hin
    exact .around hid fun m => walks_doWhile hc hcontinues (body.walks hbody hsettled)
  | .forLoop id init condition step body =>
    obtain ⟨hid, hcontinues, hinit, hcondition, hstep, hbody⟩ := hin
    exact .around hid fun m => walks_for hinit hcondition hstep hcontinues (body.walks hbody hsettled)
  | .foreach id subject names body =>
    obtain ⟨⟨key, value, byRef, hid, hnames⟩, hthis, hsubject, hbody⟩ := hin
    exact .around hid fun m => walks_foreach hsubject hnames hthis (body.walks hbody hsettled)
  | .switch id subject cases =>
    obtain ⟨hid, hsubject, hcases⟩ := hin
    exact .around hid fun m => walks_switch hsubject (cases.covers hcases hsettled)
  | .leave id =>
    refine .around hin fun m => walks_jump rfl fun way hp => ?_
    cases way with
    | leave => rfl
    | normal | next => exact absurd hp not_possible_zero
  | .next id =>
    refine .around hin fun m => walks_jump rfl fun way hp => ?_
    cases way with
    | next => rfl
    | normal | leave => exact absurd hp not_possible_zero
theorem Cmds.walks (cs : Cmds) {order : Order} {n : Nat} (hin : cs.In cx)
    (hsettled : order = .asWritten ∨ cs.Settled v) : WalksBody cx v n order cs := by
  match cs with
  | .nil =>
    intro st flow st' h hready
    obtain ⟨rfl, rfl⟩ := of_pure h
    exact .atOnce (.refl _) ⟨rfl, rfl⟩
  | .cons c cs =>
    exact walks_cons (c.walks hin.1 (hsettled.imp_right And.left))
      (cs.walks hin.2 (hsettled.imp_right And.right))
theorem Chain.forks (rest : Chain) {order : Order} {n : Nat} (hin : rest.In cx)
    (hsettled : order = .asWritten ∨ rest.Settled v) : ForksChain cx v n order rest := by
  match rest with
  | .none => exact forks_none
  | .otherwise body => exact forks_otherwise (body.walks hin hsettled)
  | .elseIf c body rest =>
    obtain ⟨hc, hbody, hrest⟩ := hin
    exact forks_elseIf hc (body.walks hbody (hsettled.imp_right And.left))
      (rest.forks hrest (hsettled.imp_right And.right))
theorem Cases.covers (cases : Cases) {order : Order} {n : Nat} (hin : cases.In cx)
    (hsettled : order = .asWritten ∨ cases.Settled v) : Covers cx v n order cases := by
  match cases with
  | .nil => exact covers_nil
  | .case test body rest =>
    obtain ⟨htest, hbody, hrest⟩ := hin
    exact covers_case htest (body.walks hbody (hsettled.imp_right And.left))
      (rest.covers hrest (hsettled.imp_right And.right))
  | .default body rest =>
    obtain ⟨hbody, hrest⟩ := hin
    exact covers_default (Order.exists_mem_before (hsettled.imp_right And.left))
      (body.walks hbody (hsettled.imp_right fun h => h.2.1))
      (rest.covers hrest (hsettled.imp_right fun h => h.2.2))
end

end Definite

end FlowTyping

import FlowTyping.Proofs.Definite.Names

/-!
# Names bound by expressions

What the evaluation of an expression leaves behind: the names that are bound, also where a condition
has come out true or false, are reached by a path through the expression.
-/

namespace FlowTyping

open Analysis ArrayItem Assertions Evaluator List NodeTable Scope State

variable {type : Option Ty} {upTo : NodeId → Language String} {on : Bool → Language String}
  {nodes : List NodeId} {k : Nat}

namespace Definite

variable {cx : Context} {v x : String} {st st1 st2 st' : State} {id node target : NodeId} {n : Nat}
  {e : Expr} {r : Reference} {line : Line} {defines : Defines} {ids : List NodeId}

/-! ## Steps -/

lemma depth_infer (h : (evaluator n).infer id cx st = some (type, st')) : st'.depth = st.depth :=
  ((stackKept.evaluator cx n).infer trivial h).2

/-! ## Tests -/

/-- A test at the node: all names stay bound, on either outcome. -/
structure Tests (node : NodeId) (st st' : State) : Prop where
  bound : st'.bound = st.bound
  events : st'.events = st.events
  others : ∀ id, id ≠ node → st'.table.assertions.get? id = st.table.assertions.get? id
  outcomes : ∀ outcome, st.bound ⊆ st'.boundOn node outcome

lemma Tests.refl (h : st.table.assertions.get? node = none) : Tests node st st :=
  ⟨rfl, rfl, fun _ _ => rfl, fun outcome => (boundOn_of_silent h outcome).symm ▸ subset_rfl⟩

lemma Tests.of_quiet (hquiet : Quiet st st') (hbound : st'.bound = st.bound)
    (hclear : st.table.assertions.get? node = none) : Tests node st st' := by
  refine ⟨hbound, hquiet.events, fun _ _ => by rw [hquiet.table], fun outcome => ?_⟩
  rw [boundOn_of_silent (hquiet.table ▸ hclear), hbound]

lemma names_narrowedScope {define : Bool} {o : Option Scope}
    (h : narrowedScope r type define line cx st = some (o, st')) :
    (∃ σ, st' = { st with store := σ }) ∧ st.bound ⊆ (o.getD st.stack.current).names := by
  rcases narrowedScope_cases h with ⟨rfl, rfl⟩ | ⟨rfl, rfl⟩
  · refine ⟨⟨_, rfl⟩, ?_⟩
    rw [bound, ← names_fork (σ := st.store)]
    exact names_subset_narrowIn ..
  · exact ⟨⟨_, rfl⟩, subset_rfl⟩

lemma tests_attachNarrowing {result : Narrowing} (hclear : st.table.assertions.get? node = none)
    (h : attachNarrowing node r result defines cx st = some ((), st')) : Tests node st st' := by
  rcases attachNarrowing_cases h with rfl | ⟨line, whenTrue, st1, whenFalse, st2, h1, h2, rfl⟩
  · exact .refl hclear
  · obtain ⟨⟨σ1, rfl⟩, htrue⟩ := names_narrowedScope h1
    obtain ⟨⟨σ2, rfl⟩, hfalse⟩ := names_narrowedScope h2
    refine ⟨rfl, rfl, fun id hid => ?_, fun outcome => ?_⟩
    · rw [get?_setAssertions, if_neg hid.symm]
    · rw [boundOn, assumed_setAssertions]
      cases outcome
      exacts [hfalse, htrue]

lemma tests_narrowReference {guard : Guard} (hclear : st.table.assertions.get? node = none)
    (h : narrowReference node target guard defines cx st = some ((), st')) : Tests node st st' := by
  replace h := bind_rest h rfl
  cases hr : cx.arena.reference? target with
  | none =>
    rw [hr] at h
    obtain ⟨-, rfl⟩ := of_pure h
    exact .refl hclear
  | some r =>
    rw [hr] at h
    obtain ⟨type, st1, htype, hattach⟩ := of_bind h
    obtain rfl : st1 = st := by cases r <;> (cases htype; rfl)
    exact tests_attachNarrowing hclear hattach

lemma tests_narrowPredicate {function : String} {args : List NodeId}
    (hclear : st.table.assertions.get? node = none)
    (h : narrowPredicate node function args cx st = some ((), st')) : Tests node st st' := by
  have hcases : narrowPredicate node function args = pure () ∨ ∃ target kind,
      narrowPredicate node function args = narrowReference node target (.primitive kind) .neither := by
    unfold narrowPredicate
    split
    exacts [.inr ⟨_, _, rfl⟩, .inl rfl]
  rcases hcases with hskip | ⟨target, kind, htest⟩
  · rw [hskip] at h
    obtain ⟨-, rfl⟩ := of_pure h
    exact .refl hclear
  · rw [htest] at h
    exact tests_narrowReference hclear h

lemma tests_narrowTruthiness (hclear : st.table.assertions.get? node = none)
    (h : narrowTruthiness node type cx st = some ((), st')) : Tests node st st' := by
  rcases narrowTruthiness_cases h with rfl | ⟨-, r, -, h⟩
  · exact .refl hclear
  · exact tests_attachNarrowing hclear h

/-! ## Expressions that have been evaluated -/

/-- What the evaluation of an expression leaves behind: the reads in it were passed, and what is
bound behind it, or on an outcome of it, is reached by a path that has the outcome. -/
structure Traced (cx : Context) (v : String) (id : NodeId) (touched passed : List NodeId)
    (upTo : NodeId → Language String) (on : Bool → Language String) (st st' : State) : Prop where
  ran : Ran cx v touched passed upTo st.bound st st'
  ends : ∀ outcome, Reached v (on outcome) st.bound st'.bound
  outcomes : ∀ outcome, Reached v (on outcome) st.bound (st'.boundOn id outcome)

/-- The expression is evaluated as the paths through it say, where there is room for its levels of
nesting. -/
def Traces (cx : Context) (v : String) (n levels : Nat) (id : NodeId) (nodes : List NodeId)
    (upTo : NodeId → Language String) (on : Bool → Language String) : Prop :=
  ∀ ⦃st : State⦄ ⦃type : Option Ty⦄ ⦃st' : State⦄, (evaluator n).infer id cx st = some (type, st') →
    Ready cx nodes levels st → Traced cx v id nodes nodes upTo on st st'

section Node

variable {touched passed : List NodeId} {N : Set String}

lemma Traced.of_tests (hran : Ran cx v touched passed upTo st.bound st st1)
    (hends : ∀ outcome, Reached v (on outcome) st.bound st1.bound) (htests : Tests id st1 st') :
    Traced cx v id (id :: touched) passed upTo on st st' := by
  refine ⟨⟨fun other hother => ?_, hran.reads, ?_⟩, fun outcome => ?_, fun outcome => ?_⟩
  · rw [mem_cons, not_or] at hother
    rw [htests.others other hother.1, hran.asserts other hother.2]
  · rw [htests.events]
    exact hran.visits
  · rw [htests.bound]
    exact hends outcome
  · exact (hends outcome).mono subset_rfl (htests.outcomes outcome)

lemma Traced.of_assertions {a : Assertions} (hran : Ran cx v touched passed upTo st.bound st st1)
    (hends : ∀ outcome, Reached v (on outcome) st.bound st1.bound)
    (houtcomes : ∀ outcome,
      Reached v (on outcome) st.bound ((a.on outcome).getD st1.stack.current).names) :
    Traced cx v id (id :: touched) passed upTo on st
      { st1 with table := st1.table.setAssertions id a } := by
  refine ⟨⟨fun other hother => ?_, hran.reads, hran.visits⟩, hends, fun outcome => ?_⟩
  · rw [mem_cons, not_or] at hother
    rw [get?_setAssertions, if_neg (Ne.symm hother.1), hran.asserts other hother.2]
  · rw [boundOn, assumed_setAssertions]
    exact houtcomes outcome

lemma Ran.visit (hid : cx.arena.varName? id = none)
    (h : Ran cx v touched passed upTo N (st.enterNode id) st1) :
    Ran cx v touched (id :: passed) upTo N st (st1.leaveNode id type) := by
  obtain ⟨new, hnew, hall, hvisits⟩ := h.visits
  refine ⟨fun other hother => ?_, fun read hp => .tail _ (h.reads read hp),
    .visited (st1.visitOf id type) :: new, ?_, ?_, ?_⟩
  · rw [assertions_leaveNode, h.asserts other hother]
    rfl
  · rw [cons_append]
    exact congrArg _ hnew
  · rw [forall_mem_cons]
    refine ⟨⟨_, .head _, rfl⟩, fun other hother => ?_⟩
    obtain ⟨visit, hvisit, hnode⟩ := hall other hother
    exact ⟨visit, .tail _ hvisit, hnode⟩
  · intro visit hvisit hvar
    rcases mem_cons.1 hvisit with heq | hvisit
    · obtain rfl := Event.visited.inj heq
      rw [show cx.arena.varName? (st1.visitOf id type).node = none from hid] at hvar
      cases hvar
    · obtain ⟨hnode, hreached⟩ := hvisits visit hvisit hvar
      exact ⟨.tail _ hnode, hreached⟩

lemma Ran.visitVar (hevents : st1.events = st.events) (hothers : ∀ other, other ≠ id →
      st1.table.assertions.get? other = st.table.assertions.get? other) (hN : N ⊆ st1.bound) :
    Ran cx v [id] [id] (fun read => if read = id then 1 else 0) N st (st1.leaveNode id type) := by
  refine ⟨fun other hother => ?_, fun read hp => ?_, [.visited (st1.visitOf id type)], ?_, ?_, ?_⟩
  · rw [assertions_leaveNode, hothers other (mt mem_singleton.2 hother)]
  · by_contra hread
    rw [if_neg (mt mem_singleton.2 hread)] at hp
    exact not_possible_zero hp
  · rw [singleton_append, ← hevents]
    rfl
  · rw [forall_mem_singleton]
    exact ⟨_, .head _, rfl⟩
  · intro visit hvisit _
    obtain rfl := Event.visited.inj (mem_singleton.1 hvisit)
    refine ⟨.head _, fun _ => ?_⟩
    show Reached v (if id = id then 1 else 0) N (st1.visitOf id type).names
    rw [if_pos rfl, names_visitOf]
    exact .nothing hN

lemma Traces.around {levels : Nat} (he : cx.arena.expr? id = some e)
    (hexpr : ∀ ⦃m s type s'⦄, (evaluator m).inferExpr id e cx s = some (type, s') →
      Ready cx (id :: nodes) levels s → Traced cx v id (id :: nodes) nodes upTo on s s')
    (hvar : ∀ x, e ≠ .var x := by rintro x ⟨⟩) :
    Traces cx v n (levels + 1) id (id :: nodes) upTo on := by
  intro st type st' h ⟨hnodup, hclear, hroom⟩
  have hname : cx.arena.varName? id = none := by
    rw [Arena.varName?, he]
    cases e <;> simp_all
  obtain ⟨m, st1, -, hrun, rfl⟩ := infer_inside he (by omega) h
  have hinside : st.depth + 1 + levels ≤ cx.options.maxDepth.toNat := by omega
  obtain ⟨hran, hends, houtcomes⟩ := hexpr hrun ⟨hnodup, hclear, hinside⟩
  refine ⟨hran.visit hname, hends, fun outcome => ?_⟩
  rw [boundOn_leaveNode]
  exact houtcomes outcome

end Node

/-! ## Parts in order -/

lemma bindArgsFrom_none (ev : Evaluator) (line : Line) (args : List Arg) (position : Nat) :
    ev.bindArgsFrom none line position args = ev.visitAll (args.map Arg.value) := by
  induction args generalizing position with
  | nil => rfl
  | cons arg args ih =>
    rw [bindArgsFrom, map_cons, visitAll, ih]
    simp

lemma visitAll_append (ev : Evaluator) (ids ids' : List NodeId) :
    ev.visitAll (ids ++ ids') = (do ev.visitAll ids; ev.visitAll ids') := by
  induction ids with
  | nil => simp [visitAll]
  | cons id ids ih => simp [visitAll, ih]

lemma visit?_eq (ev : Evaluator) (id : Option NodeId) : ev.visit? id = ev.visitAll id.toList := by
  cases id with
  | none => rfl
  | some id => simp [visit?, visitAll]

lemma arrayItems_run (ev : Evaluator) {items : List ArrayItem}
    (h : ∀ item ∈ items, item.byRef = false) (st : State) :
    ev.arrayItems items cx st = ev.visitAll (items.flatMap children) cx st := by
  induction items generalizing st with
  | nil => rfl
  | cons item items ih =>
    rw [forall_mem_cons] at h
    obtain ⟨key, value, byRef, unpack⟩ := item
    obtain rfl : byRef = false := h.1
    have hrest (s : State) : (do ev.visit value; ev.arrayItems items : Analysis Unit) cx s =
        (do ev.visit value; ev.visitAll (items.flatMap children) : Analysis Unit) cx s :=
      congrArg (Option.bind (ev.visit value cx s)) (funext fun r => ih h.2 r.2)
    have hvalue : ev.visitAll [value] = ev.visit value := by simp [visitAll]
    rw [arrayItems_cons_run, flatMap_cons, children, visitAll_append,
      visitAll_append, visit?_eq, bind_assoc, hvalue]
    exact congrArg (Option.bind (ev.visitAll key.toList cx st)) (funext fun r => hrest r.2)

lemma quiet_compactAll (h : (evaluator n).compactAll ids cx st = some ((), st')) :
    Quiet st st' ∧ st'.bound = st.bound := by
  induction n generalizing st st' ids with
  | zero =>
    cases ids with
    | nil =>
      cases h
      exact ⟨.refl _, rfl⟩
    | cons id ids => cases h
  | succ n ihn =>
    induction ids generalizing st with
    | nil =>
      cases h
      exact ⟨.refl _, rfl⟩
    | cons id ids ih =>
      obtain ⟨⟨⟩, st1, hmark, hrest⟩ := of_bind h
      obtain ⟨e, _, he, hmark⟩ := of_bind
        (show (evaluator n).compactArg id cx st = some ((), st1) from hmark)
      cases he
      have hquiet : Quiet st st1 ∧ st1.bound = st.bound := by
        cases hat : cx.arena.expr? id with
        | none =>
          rw [hat] at hmark
          cases hmark
          exact ⟨.refl _, rfl⟩
        | some e =>
          rw [hat] at hmark
          cases e with
          | string name => exact quiet_onVars hmark
          | array items => exact ihn hmark
          | _ =>
            cases hmark
            exact ⟨.refl _, rfl⟩
      obtain ⟨hquiet', hbound⟩ := ih hrest
      exact ⟨hquiet.1.trans hquiet', hbound.trans hquiet.2⟩

lemma inferExpr_each (he : cx.EvaluatesEach e ids)
    (h : (evaluator n).inferExpr id e cx st = some (type, st')) :
    ∃ st1 st2, Quiet st st1 ∧ st1.bound = st.bound ∧
      (evaluator n).visitAll ids cx st1 = some ((), st2) ∧
      (st2.table.assertions.get? id = none → Tests id st2 st') := by
  cases he with
  | interpolated =>
    obtain ⟨⟨⟩, hvisit, -⟩ := of_result h
    exact ⟨st, _, .refl _, rfl, hvisit, .refl⟩
  | array hitems =>
    obtain ⟨⟨⟩, hvisit, -⟩ := of_result h
    rw [arrayItems_run _ hitems] at hvisit
    exact ⟨st, _, .refl _, rfl, hvisit, .refl⟩
  | dynamicCall callee args =>
    obtain ⟨⟨⟩, st1, hcallee, h⟩ := of_bind h
    obtain ⟨⟨⟩, hargs, -⟩ := of_result h
    replace hargs := bind_rest hargs rfl
    rw [bindArgsFrom_none] at hargs
    exact ⟨st, _, .refl _, rfl, bind_eq_some.2 ⟨_, _, hcallee, hargs⟩, .refl⟩
  | @call function args hindex =>
    have hnamed : ∀ {s : State}, (evaluator n).inferNamedCall id function args cx s = some (type, st') →
        ∃ s', (evaluator n).visitAll (args.map Arg.value) cx s = some ((), s') ∧
          (s'.table.assertions.get? id = none → Tests id s' st') := by
      intro s h
      replace h := bind_rest h rfl
      rw [hindex] at h
      obtain ⟨⟨⟩, s', hargs, h⟩ := of_bind h
      replace hargs := bind_rest hargs rfl
      rw [bindArgsFrom_none] at hargs
      refine ⟨s', hargs, fun hclear => ?_⟩
      split at h
      · obtain ⟨⟨⟩, htest, -⟩ := of_result h
        exact tests_narrowPredicate hclear htest
      · obtain ⟨-, rfl⟩ := of_pure h
        exact .refl hclear
    have hcall : (evaluator n).inferCall id (.named function) args cx st = some (type, st') := h
    unfold inferCall at hcall
    cases heffect : CallEffect.ofCall function args.length <;> simp only [heffect] at hcall
    case plain =>
      obtain ⟨st2, hargs, htests⟩ := hnamed hcall
      exact ⟨st, st2, .refl _, rfl, hargs, htests⟩
    case dynamic =>
      obtain ⟨⟨⟩, st1, hmark, hcall⟩ := of_bind hcall
      obtain ⟨hquiet, hbound⟩ := quiet_onScope hmark
      obtain ⟨st2, hargs, htests⟩ := hnamed hcall
      exact ⟨st1, st2, hquiet, hbound, hargs, htests⟩
    case namesVariables =>
      obtain ⟨⟨⟩, st2, hargs, hcall⟩ := of_bind hcall
      replace hargs := bind_rest hargs rfl
      rw [bindArgsFrom_none] at hargs
      obtain ⟨⟨⟩, hcompact, -⟩ := of_result hcall
      obtain ⟨hquiet, hbound⟩ := quiet_compactAll hcompact
      exact ⟨st, st2, .refl _, rfl, hargs, .of_quiet hquiet hbound⟩

/-! ## Connectives -/

section Connective

variable {left right c : NodeId} {nodes' : List NodeId} {upTo' : NodeId → Language String}
  {on' : Bool → Language String} {l : Nat} {b : Bool}

lemma traced_not (hc : Traces cx v n k left nodes upTo on) (hready : Ready cx (id :: nodes) k st)
    (h : (evaluator n).inferUnary id .not left cx st = some (type, st')) :
    Traced cx v id (id :: nodes) nodes upTo (fun outcome => on !outcome) st st' := by
  obtain ⟨t, st1, hinfer, h⟩ := of_bind h
  obtain ⟨⟨⟩, hnegate, -⟩ := of_result h
  obtain ⟨hran, hends, houtcomes⟩ := hc hinfer hready.tail
  have hsilent := hready.head hran
  rcases negate_cases hnegate with ⟨a, copy, st3, ha, hcopy, rfl⟩ | hnegate
  · rw [onStore_run] at hcopy
    cases hcopy
    refine .of_assertions (hran.quiet ⟨rfl, rfl, rfl, rfl⟩) (fun outcome => hends !outcome)
      fun outcome => ?_
    have hassumed : st1.assumed left (!outcome) = a.on (!outcome) := by rw [assumed, ha]; rfl
    rw [on_swapped, names_on_fork, ← hassumed]
    exact houtcomes !outcome
  · refine .of_tests hran (fun outcome => hends !outcome) ?_
    rcases hnegate with rfl | ⟨r, -, hattach⟩
    · exact .refl hsilent
    · exact tests_attachNarrowing hsilent hattach

/-- The paths through `&&`, where `b` holds, or `||`. -/
def shortOn (b : Bool) (on on' : Bool → Language String) (outcome : Bool) : Language String :=
  if outcome = b then on b * on' b else on (!b) + on b * on' (!b)

lemma quiet_shortScopes {other t f whenTrue whenFalse : Scope}
    (h : shortScopes b other t f cx st = some ((whenTrue, whenFalse), st')) :
    Quiet st st' ∧ st'.stack = st.stack ∧ ∀ outcome,
      (if outcome then whenTrue else whenFalse).names =
        if outcome = b then (if outcome then t else f).names
        else other.names ∪ (if outcome then t else f).names := by
  cases b with
  | true =>
    cases h
    refine ⟨⟨rfl, rfl, rfl, rfl⟩, rfl, fun outcome => ?_⟩
    cases outcome
    exacts [names_merged, names_fork]
  | false =>
    cases h
    refine ⟨⟨rfl, rfl, rfl, rfl⟩, rfl, fun outcome => ?_⟩
    cases outcome
    exacts [names_fork, names_merged]

lemma Traces.inScope {s after : Scope} (hid : Traces cx v n k id nodes upTo on)
    (h : inScope s ((evaluator n).infer id) cx st = some ((type, after), st'))
    (hready : Ready cx nodes k st) :
    Ran cx v nodes nodes upTo s.names st st' ∧ st'.bound = st.bound ∧ st'.depth = st.depth ∧
      (∀ outcome, Reached v (on outcome) s.names after.names) ∧
      ∀ outcome, Reached v (on outcome) s.names ((st'.assumed id outcome).getD after).names := by
  obtain ⟨inner, hinner, rfl, rfl⟩ := inScope_eq_some.1 h
  have hkept : inner.depth = (st.within s).depth := depth_infer hinner
  obtain ⟨hran, hends, houtcomes⟩ := hid hinner (hready.quiet (quiet_within s))
  rw [bound_within] at hran hends houtcomes
  exact ⟨hran.congr (quiet_within s) (quiet_within _), bound_within .., hkept, hends, houtcomes⟩

lemma traced_short (hleft : Traces cx v n k left nodes upTo on)
    (hright : Traces cx v n l right nodes' upTo' on')
    (hready : Ready cx (id :: (nodes ++ nodes')) (max k l) st)
    (h : (evaluator n).inferShort b id left right cx st = some (type, st')) :
    Traced cx v id (id :: (nodes ++ nodes')) (nodes ++ nodes') (fun read => upTo read + on b * upTo' read)
      (shortOn b on on') st st' := by
  obtain ⟨st1, entry, other, st2, rightType, after, st3, whenTrue, whenFalse, st4, st5, hvisit,
    hbranch, hrun, hscopes, hmerge, hset⟩ := inferShort_cases h
  obtain ⟨leftType, hinfer⟩ := visit_eq_some.1 hvisit
  obtain ⟨hran, hends, houtcomes⟩ := hleft hinfer hready.tail.left
  obtain ⟨hquiet2, hstack2, hentry, hother⟩ : Quiet st1 st2 ∧ st2.stack = st1.stack ∧
      entry.names = st1.boundOn left b ∧ other.names = st1.boundOn left (!b) := by
    cases b with
    | true => exact quiet_branchScopes hbranch
    | false =>
      obtain ⟨hquiet, hstack, htrue, hfalse⟩ := quiet_branchScopes hbranch
      exact ⟨hquiet, hstack, hfalse, htrue⟩
  obtain ⟨hran3, hbound3, -, hends', houtcomes'⟩ :=
    hright.inScope hrun ((hready.tail.after hran (depth_infer hinfer)).quiet hquiet2)
  obtain ⟨hquiet4, hstack4, hnames⟩ := quiet_shortScopes hscopes
  obtain ⟨hquiet5, hbound5⟩ := quiet_mergeIntoCurrent hmerge
  have hentered : Reached v (on b) st.bound entry.names := hentry ▸ houtcomes b
  have hskipped : Reached v (on !b) st.bound other.names := hother ▸ houtcomes !b
  have hran5 : Ran cx v (nodes ++ nodes') (nodes ++ nodes') (fun read => upTo read + on b * upTo' read)
      st.bound st st5 :=
    hran.andThen (hran3.congr hquiet2 (hquiet4.trans hquiet5)) (fun _ => hentered) hready.tail.disjoint
  -- Behind the whole, what either side bound is bound.
  have hends5 : ∀ outcome, Reached v (shortOn b on on' outcome) st.bound st5.bound := by
    intro outcome
    rw [hbound5, shortOn]
    split
    · exact (hentered.mul (hends' b)).mono subset_rfl Set.subset_union_right
    · rw [bound_congr hstack4, hbound3, bound_congr hstack2]
      exact ((hends !b).mono subset_rfl Set.subset_union_left).inl
  rcases hset with rfl | rfl
  · exact .of_tests hran5 hends5 (.refl (hready.head hran5))
  · refine .of_assertions hran5 hends5 fun outcome => ?_
    have houtcome : (Assertions.on ⟨some whenTrue, some whenFalse⟩ outcome).getD st5.stack.current =
        if outcome then whenTrue else whenFalse := by
      cases outcome <;> rfl
    have hboth : Reached v (on b * on' outcome) st.bound
        (if outcome then (st3.assumed right true).getD after
          else (st3.assumed right false).getD after).names := by
      refine hentered.mul ?_
      cases outcome
      exacts [houtcomes' false, houtcomes' true]
    rw [houtcome, hnames, shortOn]
    by_cases hb : outcome = b
    · rw [if_pos hb, if_pos hb, ← hb]
      exact hb ▸ hboth
    · rw [if_neg hb, if_neg hb]
      exact (hskipped.mono subset_rfl Set.subset_union_left).inl

lemma traced_choice {t e : NodeId} {nodes'' : List NodeId} {upTo'' : NodeId → Language String}
    {on'' : Bool → Language String} {m : Nat} (hc : Traces cx v n k c nodes upTo on)
    (ht : Traces cx v n l t nodes' upTo' on') (he : Traces cx v n m e nodes'' upTo'' on'')
    (hready : Ready cx (id :: (nodes ++ (nodes' ++ nodes''))) (max k (max l m)) st)
    (h : (evaluator n).inferTernary c (some t) e cx st = some (type, st')) :
    Traced cx v id (id :: (nodes ++ (nodes' ++ nodes''))) (nodes ++ (nodes' ++ nodes''))
      (fun read => upTo read + (on true * upTo' read + on false * upTo'' read))
      (fun outcome => on true * on' outcome + on false * on'' outcome) st st' := by
  obtain ⟨cType, st1, hinfer, h⟩ := of_bind h
  obtain ⟨⟨trueScope, falseScope⟩, st2, hbranch, h⟩ := of_bind h
  obtain ⟨⟨tType, tAfter⟩, st3, hthen, h⟩ := of_bind h
  obtain ⟨⟨eType, eAfter⟩, st4, helse, h⟩ := of_bind h
  obtain ⟨joined, st5, hjoin, h⟩ := of_bind h
  obtain ⟨⟨⟩, hreplace, -⟩ := of_result h
  obtain ⟨hran, hends, houtcomes⟩ := hc hinfer hready.tail.left
  obtain ⟨hquiet2, -, htrue, hfalse⟩ := quiet_branchScopes hbranch
  have hready2 := (hready.tail.after hran (depth_infer hinfer)).quiet hquiet2
  obtain ⟨hran3, -, hdepth3, hends3, -⟩ := ht.inScope hthen hready2.left
  obtain ⟨hran4, -⟩ := he.inScope helse (hready2.after hran3 hdepth3)
  obtain ⟨hquiet5, -, rfl⟩ := quiet_onStore hjoin
  obtain ⟨hquiet6, hbound⟩ := quiet_replaceCurrent hreplace
  have hon : Reached v (on true) st.bound trueScope.names := htrue ▸ houtcomes true
  have hoff : Reached v (on false) st.bound falseScope.names := hfalse ▸ houtcomes false
  have hboth := (hran3.after fun _ => hon).both (hran4.after fun _ => hoff) hready2.disjoint
  have hall := hran.both (hboth.congr hquiet2 (hquiet5.trans hquiet6)) hready.tail.disjoint
  refine .of_tests hall (fun outcome => ?_) (.refl (hready.head hall))
  rw [hbound, names_merged]
  exact ((hon.mul (hends3 outcome)).mono subset_rfl Set.subset_union_left).inl

lemma traced_default {e : NodeId} (hc : Traces cx v n k c nodes upTo on)
    (he : Traces cx v n l e nodes' upTo' on')
    (hready : Ready cx (id :: (nodes ++ nodes')) (max k l) st)
    (h : (evaluator n).inferTernary c none e cx st = some (type, st')) :
    Traced cx v id (id :: (nodes ++ nodes')) (nodes ++ nodes')
      (fun read => upTo read + on false * upTo' read) (shortOn false on on') st st' := by
  obtain ⟨cType, st1, hinfer, h⟩ := of_bind h
  obtain ⟨⟨trueScope, falseScope⟩, st2, hbranch, h⟩ := of_bind h
  obtain ⟨⟨eType, eAfter⟩, st3, helse, h⟩ := of_bind h
  obtain ⟨⟨⟩, hmerge, -⟩ := of_result h
  obtain ⟨hran, hends, houtcomes⟩ := hc hinfer hready.tail.left
  obtain ⟨hquiet2, hstack2, htrue, hfalse⟩ := quiet_branchScopes hbranch
  obtain ⟨hran3, hbound3, -, hends', -⟩ :=
    he.inScope helse ((hready.tail.after hran (depth_infer hinfer)).quiet hquiet2)
  obtain ⟨hquiet4, hbound4⟩ := quiet_mergeIntoCurrent hmerge
  have hoff : Reached v (on false) st.bound falseScope.names := hfalse ▸ houtcomes false
  have hall := hran.andThen (hran3.congr hquiet2 hquiet4) (fun _ => hoff) hready.tail.disjoint
  refine .of_tests hall (fun outcome => ?_) (.refl (hready.head hall))
  rw [hbound4, hbound3, shortOn]
  cases outcome with
  | false => exact (hoff.mul (hends' false)).mono subset_rfl Set.subset_union_right
  | true =>
    rw [bound_congr hstack2]
    exact ((hends true).mono subset_rfl Set.subset_union_left).inl

end Connective

/-! ## All expressions -/

lemma Exp.on_and (left right : Exp) :
    (Exp.and id left right).on = shortOn true left.on right.on := by
  funext outcome
  cases outcome <;> rfl

lemma Exp.on_or (left right : Exp) :
    (Exp.or id left right).on = shortOn false left.on right.on := by
  funext outcome
  cases outcome <;> rfl

lemma Exp.on_short (c e : Exp) : (Exp.short id c e).on = shortOn false c.on e.on := by
  funext outcome
  cases outcome <;> rfl

lemma inferExpr_literal (he : e.IsLiteral)
    (h : (evaluator n).inferExpr id e cx st = some (type, st')) : st' = st := by
  cases he <;> rw [inferExpr] at h
  case const =>
    replace h := bind_rest h rfl
    exact (of_pure h).2
  all_goals exact (of_pure h).2

lemma quiet_assign (htarget : cx.IsVar target x) (hx : x ≠ "this")
    (h : (evaluator n).assign target type line cx st = some ((), st')) :
    Quiet st st' ∧ st'.bound = insert x st.bound := by
  obtain ⟨hquiet, hbound⟩ := quiet_onScope (onScope_of_assign htarget hx h)
  exact ⟨hquiet, hbound.trans (names_assign ..)⟩

lemma traced_var (he : cx.IsVar id x) :
    Traces cx v n 1 id [id] (fun read => if read = id then 1 else 0) fun _ => 1 := by
  intro st type st' h hready
  obtain ⟨m, st1, -, hrun, rfl⟩ := infer_inside he hready.room h
  obtain ⟨⟨⟩, st2, hmark, hrun⟩ := of_bind hrun
  obtain ⟨hquiet, hbound⟩ := quiet_onVars hmark
  replace hrun := bind_rest hrun rfl
  replace hrun := bind_rest hrun rfl
  obtain ⟨⟨⟩, htruth, -⟩ := of_result hrun
  have hid : st2.table.assertions.get? id = none :=
    hquiet.table ▸ hready.clear id (.head _)
  have htests := tests_narrowTruthiness hid htruth
  have hgrows : st.bound ⊆ st1.bound := by
    rw [htests.bound, hbound]
    exact subset_rfl
  refine ⟨Ran.visitVar (htests.events.trans hquiet.events) (fun other hother => ?_) hgrows,
    fun _ => .nothing hgrows, fun outcome => .nothing ?_⟩
  · rw [htests.others other hother, hquiet.table]
    rfl
  · rw [boundOn_leaveNode]
    exact hbound ▸ htests.outcomes outcome

lemma traced_assign {value : NodeId} (htarget : cx.IsVar target x) (hx : x ≠ "this")
    (hvalue : Traces cx v n k value nodes upTo on) (hready : Ready cx (id :: nodes) (max k 1) st)
    (h : (evaluator n).inferAssign id target value cx st = some (type, st')) :
    Traced cx v id (id :: nodes) nodes upTo (fun outcome => on outcome * {[x]}) st st' := by
  obtain ⟨st1, line, st2, hinfer, hassign, hlast⟩ := inferAssign_cases htarget h
  obtain ⟨hran, hends, -⟩ := hvalue hinfer (hready.tail.weaken (le_max_left ..))
  obtain ⟨hquiet, hbound⟩ := quiet_assign htarget hx hassign
  have hid2 := hready.head (hran.quiet hquiet)
  refine .of_tests (hran.quiet hquiet) (fun outcome => ?_) ?_
  · rw [hbound]
    exact (hends outcome).mul (.assigning (Set.subset_insert ..) (by simp))
  · rcases hlast with rfl | hattach
    · exact .refl hid2
    · exact tests_attachNarrowing hid2 hattach

mutual
theorem Exp.traced (e : Exp) {n : Nat} (hin : e.In cx) :
    Traces cx v n e.height e.id e.nodes (fun read => e.upTo read) e.on := by
  match e with
  | .var id x => exact traced_var hin
  | .literal id =>
    obtain ⟨e, he, hliteral⟩ := hin
    refine .around he (fun m s type s' h hready => ?_) (by rintro x rfl; cases hliteral)
    obtain rfl := inferExpr_literal hliteral h
    exact .of_tests (.nothing (.refl _)) (fun _ => .nothing subset_rfl)
      (.refl (hready.clear id (.head _)))
  | .each id es =>
    obtain ⟨⟨e, he, heach⟩, hes⟩ := hin
    refine .around he (fun m s type s' h hready => ?_) (by rintro x rfl; cases heach)
    obtain ⟨s1, s2, hquiet, hbound, hvisit, htests⟩ := inferExpr_each heach h
    obtain ⟨hran, hall⟩ := es.traced hes (hready.quiet hquiet).tail hvisit
    rw [hbound] at hran hall
    exact .of_tests (hran.congr hquiet (.refl _)) (fun _ => hall)
      (htests ((hready.quiet hquiet).head hran))
  | .assign id target x e =>
    obtain ⟨he, htarget, hx, hin⟩ := hin
    refine .around he fun m s type s' h hready => ?_
    exact traced_assign htarget hx (e.traced hin) hready h
  | .not id e =>
    obtain ⟨he, hin⟩ := hin
    refine .around he fun m s type s' h hready => ?_
    exact traced_not (e.traced hin) hready h
  | .and id left right =>
    obtain ⟨⟨op, he, hop⟩, hleft, hright⟩ := hin
    rw [Exp.on_and]
    refine .around he fun m s type s' h hready => ?_
    have h : (evaluator m).inferShort true id left.id right.id cx s = some (type, s') := by
      rcases hop with rfl | rfl <;> exact h
    exact traced_short (left.traced hleft) (right.traced hright) hready h
  | .or id left right =>
    obtain ⟨⟨op, he, hop⟩, hleft, hright⟩ := hin
    rw [Exp.on_or]
    refine .around he fun m s type s' h hready => ?_
    have h : (evaluator m).inferShort false id left.id right.id cx s = some (type, s') := by
      rcases hop with rfl | rfl <;> exact h
    exact traced_short (left.traced hleft) (right.traced hright) hready h
  | .choice id c t e =>
    obtain ⟨he, hc, ht, hin⟩ := hin
    refine .around he fun m s type s' h hready => ?_
    exact traced_choice (c.traced hc) (t.traced ht) (e.traced hin) hready h
  | .short id c e =>
    obtain ⟨he, hc, hin⟩ := hin
    rw [Exp.on_short]
    refine .around he fun m s type s' h hready => ?_
    exact traced_default (c.traced hc) (e.traced hin) hready h
theorem Exps.traced (es : Exps) {n : Nat} {st st' : State} (hin : es.In cx)
    (hready : Ready cx es.nodes es.height st)
    (h : (evaluator n).visitAll es.ids cx st = some ((), st')) :
    Ran cx v es.nodes es.nodes (fun read => es.upTo read) st.bound st st' ∧
      Reached v es.all st.bound st'.bound := by
  match es with
  | .nil =>
    obtain ⟨-, rfl⟩ := of_pure h
    exact ⟨.nothing (.refl _), .nothing subset_rfl⟩
  | .cons e es =>
    obtain ⟨he, hes⟩ := hin
    obtain ⟨⟨⟩, st1, hvisit, hrest⟩ := of_bind h
    obtain ⟨type, hinfer⟩ := visit_eq_some.1 hvisit
    obtain ⟨hran, hends, -⟩ := e.traced he hinfer hready.left
    obtain ⟨hran', hall⟩ := es.traced hes (hready.after hran (depth_infer hinfer)) hrest
    have hfirst : Reached v (e.on true + e.on false) st.bound st1.bound := (hends true).inl
    exact ⟨hran.andThen hran' (fun _ => hfirst) hready.disjoint, hfirst.mul hall⟩
end

lemma Exps.decided (es : Exps) {n : Nat} {st st' : State} (hin : es.In cx)
    (hready : Ready cx es.nodes es.height st)
    (h : (evaluator n).visitAll es.ids cx st = some ((), st')) (outcome : Bool)
    (hp : Possible (es.decide outcome)) :
    Reached v (es.decide outcome) st.bound (st'.boundWhere es.ids outcome) := by
  match es with
  | .nil =>
    obtain ⟨-, rfl⟩ := of_pure h
    cases outcome with
    | false => exact absurd hp not_possible_zero
    | true => exact .nothing subset_rfl
  | .cons e es =>
    obtain ⟨he, hes⟩ := hin
    obtain ⟨⟨⟩, st1, hvisit, hrest⟩ := of_bind h
    obtain ⟨type, hinfer⟩ := visit_eq_some.1 hvisit
    obtain ⟨hran, hends, houtcomes⟩ := e.traced (v := v) he hinfer hready.left
    match es with
    | .nil =>
      obtain ⟨-, rfl⟩ := of_pure hrest
      exact houtcomes outcome
    | .cons e' es =>
      have hdecided := Exps.decided (.cons e' es) hes (hready.after hran (depth_infer hinfer)) hrest
        outcome (possible_mul.1 hp).2
      have hlast : (Exps.cons e (.cons e' es)).ids.getLast? = (Exps.cons e' es).ids.getLast? := by
        simp [Exps.ids]
      unfold boundWhere at hdecided ⊢
      exact Reached.mul (hends true).inl hdecided

end Definite

end FlowTyping

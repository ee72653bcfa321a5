import FlowTyping.Proofs.Flow.Values

/-!
# Evaluating conditions

What the evaluation of a condition leaves behind: the scope still fits the variables, and so does,
on either outcome, the scope that the condition implies there, for the runs that have this outcome.
-/

namespace FlowTyping

open Analysis Arena Evaluator List NodeTable Option State Ty

variable {w : World} {cx : Context} {reach : Option Env} {st st' st'' st1 : State}
  {calls : NodeId → Bool} {guard : Guard} {negated b : Bool} {op : BinaryOp} {function x : String}
  {rightType type : Option Ty} {id : NodeId} {nodes : List NodeId} {holds whole : Env → Bool}
  {reads : Env → Reads} {n : Nat} {ev : Evaluator} {other after : Scope}

/-- What the evaluation of a condition leaves behind. -/
structure Decided (w : World) (reach : Option Env) (id : NodeId) (nodes : List NodeId)
    (holds : Env → Bool) (reads : Env → Reads) (st st' : State) : Prop where
  touches : Touches nodes st st'
  fits : Fits w reach st'.known
  outcomes : ∀ outcome,
    Fits w (reach.filter fun ρ => holds ρ == outcome) (st'.outcome id outcome)
  recorded : ∀ ρ, reach = some ρ → Recorded w (reads ρ) st'

lemma Decided.of_silent (htouches : Touches nodes st st') (hfits : Fits w reach st'.known)
    (hid : st'.table.assertions.get? id = none)
    (hrecorded : ∀ ρ, reach = some ρ → Recorded w (reads ρ) st') :
    Decided w reach id nodes holds reads st st' := by
  refine ⟨htouches, hfits, fun outcome => ?_, hrecorded⟩
  rw [outcome_of_assumed_none (assumed_eq_none hid outcome)]
  exact hfits.filter _

lemma Decided.around {e : Expr} (he : cx.arena.expr? id = some e) (hst : st.Placed)
    (hfresh : Fresh (id :: nodes) st) (hid : id ∉ nodes) (hreads : ∀ ρ, ∀ r ∈ reads ρ, r.1 ∈ nodes)
    (hfits : Fits w reach st.known) (h : (evaluator n).infer id cx st = some (type, st'))
    (hexpr : ∀ m st1, (evaluator m).inferExpr id e cx (st.enterNode id) = some (type, st1) →
      Decided w reach id (id :: nodes) holds reads (st.enterNode id) st1) :
    Decided w reach id (id :: nodes) holds reads st st' := by
  rcases infer_cases he h with ⟨rfl, rfl⟩ | ⟨m, st1, -, hrun, rfl⟩
  · refine .of_silent (.of_table rfl) hfits hfresh.untested fun ρ _ => ?_
    exact .of_fresh hfresh fun r hr => .tail _ (hreads ρ r hr)
  · have hdecided := hexpr m st1 hrun
    refine ⟨?_, hdecided.fits, fun outcome => ?_, fun ρ hρ => ?_⟩
    · refine hdecided.touches.around.mono fun other hother => ?_
      exact (mem_cons.1 hother).elim (fun h => h ▸ .head _) fun h => h
    · rw [outcome_leaveNode]
      exact hdecided.outcomes outcome
    · refine (hdecided.recorded ρ hρ).touches touches_leaveNode fun r hr hmem => hid ?_
      exact mem_singleton.1 hmem ▸ hreads ρ r hr

/-- A test on a variable, behind the evaluation of its operands.  It starts from a type that the
value of the variable is of. -/
lemma decided_of_tested {define : Bool → Bool} (hguard : guard.Proper)
    (htouches : Touches nodes st st') (hst : st'.Placed) (hfits : Fits w reach st'.known)
    (hrecorded : ∀ ρ, reach = some ρ → Recorded w (reads ρ) st') (htype : KnownIn Regular type)
    (hvalue : ∀ ρ, reach = some ρ → ∀ v, ρ x = some v → KnownIn (fun t => t.holds w v = true) type)
    (htested : Tested (fun _ => True) id (fun outcome => st'.known.narrow x
      ((narrow type guard).on (outcome != negated)) (define outcome)) st' st'') :
    Decided w reach id (id :: nodes) (fun ρ => guard.test w (ρ.read x) != negated) reads st st'' := by
  have hknown : st''.known = st'.known := htested.adds.known hst
  refine ⟨htouches.tested htested, hknown ▸ hfits, fun outcome => ?_,
    fun ρ hρ => (hrecorded ρ hρ).congr htested.types⟩
  cases hassumed : st''.assumed id outcome with
  | none =>
    rw [outcome_of_assumed_none hassumed, hknown]
    exact hfits.filter _
  | some s =>
    rw [State.outcome, hassumed, getD_some, (htested.known outcome s hassumed).2]
    have hswap : (fun ρ : Env => (guard.test w (ρ.read x) != negated) == outcome) =
        fun ρ => guard.test w (ρ.read x) == (outcome != negated) := by
      funext ρ
      cases guard.test w (ρ.read x) <;> cases negated <;> cases outcome <;> rfl
    rw [hswap]
    exact hfits.test hguard htype hvalue _ _

/-! ## Tests -/

section Test

variable {target : NodeId}

lemma Reading.mono {nodes' : List NodeId} (h : Reading w reach nodes reads st st')
    (hsub : ∀ id ∈ nodes, id ∈ nodes') : Reading w reach nodes' reads st st' :=
  ⟨h.placed, h.known, h.touches.mono hsub, h.recorded⟩

lemma reading_visit (hst : st.Placed) (htarget : cx.IsVar target x) (hfresh : Fresh [target] st)
    (hfits : Fits w reach st.known) (h : (evaluator n).visit target cx st = some ((), st')) :
    Reading w reach [target] (fun ρ => [(target, ρ x)]) st st' := by
  obtain ⟨type, hinfer⟩ := visit_eq_some.1 h
  exact (evaluated_var hst htarget hfresh hfits hinfer).1.toReading

lemma Reading.tested (define : Bool → Bool) (hread : Reading w reach nodes reads st st')
    (hguard : guard.Proper) (hfits : Fits w reach st.known)
    (htested : Tested (fun _ => True) id (fun outcome => st'.known.narrow x
      ((narrow (st'.known x).join guard).on (outcome != negated)) (define outcome)) st' st'') :
    Decided w reach id (id :: nodes) (fun ρ => guard.test w (ρ.read x) != negated) reads st st'' := by
  have hfits' : Fits w reach st'.known := hread.known ▸ hfits
  exact decided_of_tested hguard hread.touches hread.placed hfits' hread.recorded (hfits'.regular x)
    (fun ρ hρ v hv => hfits'.knownIn hρ hv) htested

lemma decided_narrowReference (guard : Guard) {defines : Defines} (hguard : guard.Proper)
    (hst : st.Placed) (htarget : cx.IsVar target x) (hne : id ≠ target)
    (hfresh : Fresh [id, target] st) (hfits : Fits w reach st.known)
    (hvisit : (evaluator n).visit target cx st = some ((), st'))
    (h : narrowReference id target guard defines cx st' = some ((), st'')) :
    Decided w reach id [id, target] (fun ρ => guard.test w (ρ.read x) != false)
      (fun ρ => [(target, ρ x)]) st st'' := by
  have hread := reading_visit hst htarget hfresh.tail hfits hvisit
  have hfresh' : st'.table.assertions.get? id = none := by
    rw [hread.touches.assertions id (mt mem_singleton.1 hne)]
    exact hfresh.untested
  refine hread.tested defines.on hguard hfits ?_
  simp only [Bool.bne_false]
  exact tested_narrowReference closed_true hread.placed hfresh' htarget h

lemma Evaluator.inferBinary_of_nullGuard (h : (nullGuard? op).isSome = true) (ev : Evaluator)
    (left right : NodeId) :
    ev.inferBinary id op left right = (do
      let leftType ← ev.infer left
      let rightType ← ev.infer right
      narrowNullComparison id op left right
      return ofBinary op leftType rightType) := by
  cases op <;> first | rfl | cases h

lemma inferCall_predicate_cases (hproper : (Test.predicate function).Proper cx)
    (h : ev.inferCall id (.named function) [{ value := target }] cx st = some (type, st'')) :
    ∃ kind st', testedPrimitive? function = some kind ∧ ev.visit target cx st = some ((), st') ∧
      narrowReference id target (.primitive kind) .neither cx st' = some ((), st'') := by
  obtain ⟨hkind, hbyRef⟩ := hproper
  obtain ⟨kind, hkind⟩ := isSome_iff_exists.1 hkind
  have hplain : CallEffect.ofCall function 1 = .plain := by
    unfold testedPrimitive? at hkind
    unfold CallEffect.ofCall
    split at hkind <;> first | (rename_i hkey; rw [hkey]; rfl) | cases hkind
  have hparam : ((cx.index.function? function).bind fun f =>
      f.paramFor? 0 { value := target }).any (·.byRef) = false := by
    cases hf : cx.index.function? function with
    | none => rfl
    | some f =>
      show (f.paramAt? 0).any (·.byRef) = false
      cases hp : f.paramAt? 0 with
      | none => rfl
      | some p => exact hbyRef f hf p hp
  have hcall : ev.inferCall id (.named function) [{ value := target }] =
      ev.inferNamedCall id function [{ value := target }] := by
    simp only [inferCall, length_singleton, hplain]
  rw [hcall] at h
  obtain ⟨⟨⟩, st1, hargs, hrest⟩ : ∃ u st1,
      ev.bindArgs id [{ value := target }] (cx.index.function? function) cx st = some (u, st1) ∧
      (narrowPredicate id function [target] >>= fun _ =>
        pure ((cx.index.function? function).bind Signature.returnType) : Analysis _) cx st1 =
          some (type, st'') := of_bind h
  obtain ⟨⟨⟩, hnarrow, -⟩ := of_result hrest
  refine ⟨kind, st1, hkind, ?_, ?_⟩
  · simp only [bindArgs, bindArgsFrom, Bool.not_false, Bool.true_and, hparam,
      Bool.false_eq_true, if_false] at hargs
    have hrest := bind_rest hargs rfl
    obtain ⟨⟨⟩, hvisit, -⟩ := of_result hrest
    exact hvisit
  · unfold narrowPredicate at hnarrow
    rwa [hkind] at hnarrow

lemma reading_compared {null left right : NodeId} {name : String} {leftType : Option Ty}
    (hst : st.Placed) (htarget : cx.IsVar target x)
    (hnull : cx.arena.expr? null = some (.const name)) (hne : target ≠ null)
    (hsides : left = target ∧ right = null ∨ left = null ∧ right = target)
    (hfresh : Fresh [target, null] st) (hfits : Fits w reach st.known)
    (hleft : (evaluator n).infer left cx st = some (leftType, st1))
    (hright : (evaluator n).infer right cx st1 = some (rightType, st')) :
    Reading w reach [target, null] (fun ρ => [(target, ρ x)]) st st' := by
  have hconst : ∀ {s s' : State} {t : Option Ty}, s.Placed →
      (evaluator n).infer null cx s = some (t, s') →
        Reading w reach [null] (fun _ => []) s s' := fun hs h =>
    (reading_leaf hs hnull (fun _ _ => rfl) h).1
  rcases hsides with ⟨rfl, rfl⟩ | ⟨rfl, rfl⟩
  · have htarget := (evaluated_var hst htarget (hfresh.mono (by simp)) hfits hleft).1.toReading
    exact htarget.trans (hconst htarget.placed hright) (by simp) (by simpa using hne.symm)
  · have hnull := hconst hst hleft
    have hfresh' : Fresh [right] st1 := hnull.fresh (hfresh.mono (by simp)) (by simpa using hne)
    have htarget := (evaluated_var hnull.placed htarget hfresh' (hnull.known ▸ hfits) hright).1
    exact (hnull.trans htarget.toReading (by simp) (by simpa using hne)).mono (by simp)

lemma Test.decided {t : Test} (hproper : t.Proper cx) (htarget : cx.IsVar target x)
    (hnodup : (id :: target :: t.nodes).Nodup) (hst : st.Placed)
    (hfresh : Fresh (id :: target :: t.nodes) st) (hfits : Fits w reach st.known)
    (h : (evaluator n).inferExpr id (t.expr target) cx st = some (type, st'')) :
    Decided w reach id (id :: target :: t.nodes) (fun ρ => t.holds w (ρ.read x))
      (fun ρ => [(target, ρ x)]) st st'' := by
  have hne : id ≠ target := fun heq => (nodup_cons.1 hnodup).1 (heq ▸ .head _)
  cases t with
  | compare op null nullFirst =>
    obtain ⟨hop, name, hnull, hword⟩ := hproper
    have hne' : target ≠ null := fun heq =>
      (nodup_cons.1 (nodup_cons.1 hnodup).2).1 (heq ▸ .head _)
    have hconst : cx.arena.isNullConst null = true := by rw [isNullConst, hnull]; exact hword
    have hvar : cx.arena.isNullConst target = false := by rw [isNullConst, htarget]
    obtain ⟨left, right, hexpr, hsides, hcompared⟩ : ∃ left right,
        (Test.compare op null nullFirst).expr target = .binary op left right ∧
          (left = target ∧ right = null ∨ left = null ∧ right = target) ∧
          comparedWithNull? cx.arena left right = some target := by
      cases nullFirst
      · exact ⟨target, null, rfl, .inl ⟨rfl, rfl⟩, if_pos hconst⟩
      · refine ⟨null, target, rfl, .inr ⟨rfl, rfl⟩, ?_⟩
        rw [comparedWithNull?, hvar, if_neg Bool.false_ne_true, if_pos hconst]
    rw [hexpr, inferExpr, inferBinary_of_nullGuard hop] at h
    obtain ⟨leftType, st1, hleft, hrest⟩ := of_bind h
    obtain ⟨rightType, st', hright, hrest⟩ := of_bind hrest
    obtain ⟨⟨⟩, hnarrow, -⟩ := of_result hrest
    have hread := reading_compared hst htarget hnull hne' hsides hfresh.tail hfits
      hleft hright
    have hfresh' : st'.table.assertions.get? id = none := by
      rw [hread.touches.assertions id (nodup_cons.1 hnodup).1]
      exact hfresh.untested
    obtain ⟨⟨guard, negated⟩, hop⟩ := isSome_iff_exists.1 hop
    have hguard : guard.Proper := by cases op <;> cases hop <;> trivial
    have hholds : (fun ρ : Env => (Test.compare op null nullFirst).holds w (ρ.read x)) =
        fun ρ => guard.test w (ρ.read x) != negated := by
      funext ρ
      rw [Test.holds, Test.guard?, hop]
    rw [hholds]
    exact hread.tested _ hguard hfits
      (tested_narrowNullComparison closed_true hread.placed hfresh' hcompared htarget hop hnarrow)
  | instanceOf cls =>
    obtain ⟨⟨⟩, st', hvisit, htest⟩ := of_bind h
    obtain ⟨found, st1, hresolve, hrest⟩ := of_bind htest
    have hfound : resolveClass cls cx st' = some (some (Name.unqualified cls), st') :=
      congrArg (fun found => some (found, st')) (hproper.resolveClass? st'.stack)
    obtain ⟨rfl, rfl⟩ := Prod.mk.inj (some.inj (hfound.symm.trans hresolve))
    obtain ⟨⟨⟩, hnarrow, -⟩ := of_result hrest
    exact decided_narrowReference (.instanceOf (Name.unqualified cls)) hproper.unqualified hst
      htarget hne hfresh hfits hvisit hnarrow
  | predicate function =>
    simp only [Test.expr, inferExpr] at h
    obtain ⟨kind, st', hkind, hvisit, hnarrow⟩ := inferCall_predicate_cases hproper h
    have hholds : (fun ρ : Env => (Test.predicate function).holds w (ρ.read x)) =
        fun ρ => (Guard.primitive kind).test w (ρ.read x) != false := by
      funext ρ
      rw [Test.holds, Test.guard?, hkind]
      rfl
    rw [hholds]
    exact decided_narrowReference (.primitive kind) trivial hst htarget hne hfresh hfits
      hvisit hnarrow
  | isSet =>
    obtain ⟨⟨⟩, st', hvisits, hrest⟩ := of_bind h
    obtain ⟨⟨⟩, hvisit, -⟩ := of_result hvisits
    obtain ⟨⟨⟩, hnarrow, -⟩ := of_result hrest
    exact decided_narrowReference .isSet trivial hst htarget hne hfresh hfits hvisit
      hnarrow
  | empty =>
    obtain ⟨⟨⟩, st', hvisit, hrest⟩ := of_bind h
    obtain ⟨⟨⟩, hnarrow, -⟩ := of_result hrest
    exact decided_narrowReference .empty trivial hst htarget hne hfresh hfits hvisit
      hnarrow

end Test

/-! ## Calls and connectives -/

section Connective

variable {left right : NodeId} {st2 st3 : State}

lemma inferCall_nil_known (h : ev.inferCall id (.named function) [] cx st = some (type, st')) :
    st'.known = st.known ∧ st'.table = st.table := by
  have hnamed : ∀ {s s' : State} {t : Option Ty},
      ev.inferNamedCall id function [] cx s = some (t, s') → s' = s := by
    intro s s' t h
    have hnarrow : narrowPredicate id function [] = pure () := by
      unfold narrowPredicate
      cases testedPrimitive? function <;> rfl
    simp only [inferNamedCall, bindArgs, bindArgsFrom, all_nil,
      if_true, map_nil, hnarrow] at h
    obtain ⟨-, rfl⟩ := Prod.mk.inj (some.inj h)
    rfl
  unfold inferCall at h
  cases heffect : CallEffect.ofCall function ([] : List Arg).length <;> simp only [heffect] at h
  case plain =>
    obtain rfl := hnamed h
    exact ⟨rfl, rfl⟩
  case namesVariables =>
    cases h
    exact ⟨rfl, rfl⟩
  case dynamic =>
    obtain ⟨⟨⟩, st1, hmark, hcall⟩ := of_bind h
    obtain rfl := hnamed hcall
    cases hmark
    refine ⟨?_, rfl⟩
    rw [known, Stack.current_setCurrent]
    rfl

/-- The negation of a condition.  A variable that the condition does not speak about is tested by
itself; then the type is one that its value is of. -/
lemma decided_not {c : NodeId} (hc : Decided w reach c nodes holds reads st st') (hst : st'.Placed)
    (hfresh : st'.table.assertions.get? id = none)
    (hvar : ∀ r, cx.arena.reference? c = some r → ∃ x, r = .var x ∧
      (holds = fun ρ => (ρ.read x).truthy) ∧ KnownIn Regular type ∧
      ∀ ρ, reach = some ρ → ∀ v, ρ x = some v → KnownIn (fun t => t.holds w v = true) type)
    (h : negate id c type cx st' = some ((), st'')) :
    Decided w reach id (id :: nodes) (fun ρ => !holds ρ) reads st st'' := by
  rcases negate_cases h with ⟨a, copy, st1, ha, hcopy, rfl⟩ | rfl | ⟨r, hr, hattach⟩
  · obtain ⟨hadds, htable, hcopies⟩ := forkAssertions_known (hst.table.of_get? ha) hcopy
    have hknown : st1.known = st'.known := hadds.known hst
    have htouches := hc.touches.trans ((Touches.setAssertions st1 id copy.swapped).congr htable.symm rfl)
    refine ⟨htouches.mono (by simp [or_comm]), hknown ▸ hc.fits, fun outcome => ?_, fun ρ hρ => ?_⟩
    · have houtcome : (st'.assumed c !outcome) = a.on !outcome := by rw [assumed, ha]; rfl
      have hoc := hc.outcomes !outcome
      rw [outcome_eq, houtcome, ← hcopies, ← hknown] at hoc
      rw [outcome_eq, assumed_setAssertions, Assertions.on_swapped]
      refine hoc.mono fun ρ hρ => ?_
      rw [filter_eq_some_iff] at hρ ⊢
      exact ⟨hρ.1, by revert hρ; cases holds ρ <;> cases outcome <;> simp⟩
    · refine (hc.recorded ρ hρ).congr ?_
      rw [types_setAssertions, htable]
  · exact .of_silent (hc.touches.mono fun _ => mem_cons_of_mem _) hc.fits hfresh hc.recorded
  · obtain ⟨x, rfl, rfl, htype, hvalue⟩ := hvar r hr
    have htested : Tested (fun _ => True) id (fun outcome => st'.known.narrow x
        ((narrow type .truthy).on (outcome != true)) (Defines.neither.on outcome)) st' st'' := by
      have hswapped : ∀ outcome, (narrow type .truthy).on (outcome != true) =
          (narrow type .truthy).swapped.on outcome := fun outcome => by cases outcome <;> rfl
      simp only [hswapped]
      exact tested_attachNarrowing closed_true hst (fun _ _ _ => trivial) hfresh hattach
    have htruthy : Guard.Proper .truthy := trivial
    have hdecided := decided_of_tested htruthy hc.touches hst hc.fits hc.recorded htype hvalue
      htested
    simp only [Bool.bne_true] at hdecided
    exact hdecided

/-- Every evaluation of the condition decides it. -/
def Cond.Decides (w : World) (cx : Context) (calls : NodeId → Bool) (c : Cond) : Prop :=
  ∀ ⦃reach : Option Env⦄ ⦃n : Nat⦄ ⦃type : Option Ty⦄ ⦃st st' : State⦄, st.Placed →
    Fresh c.nodes st → Fits w reach st.known → (evaluator n).infer c.id cx st = some (type, st') →
    Decided w reach c.id c.nodes (fun ρ => c.holds w calls ρ) (fun ρ => c.reads w calls ρ) st st'

lemma Cond.mem_nodes_of_mem_reads (c : Cond) (w : World) (calls : NodeId → Bool) (ρ : Env) :
    ∀ r ∈ c.reads w calls ρ, r.1 ∈ c.nodes := by
  induction c with
  | test id target x t | var id x => simp [Cond.reads, Cond.nodes]
  | call id function => simp [Cond.reads]
  | not id c ih => exact fun r hr => .tail _ (ih r hr)
  | and id op left right ihl ihr | or id op left right ihl ihr =>
    intro r hr
    refine .tail _ (mem_append.2 ((mem_append.1 hr).imp (ihl r) fun hr => ?_))
    split at hr <;> first | exact ihr r hr | cases hr

/-- Both sides of `&&` or `||`: the right side runs where the left one came out as `b`. -/
structure Sides (w : World) (reach : Option Env) (b : Bool) (right : NodeId)
    (leftHolds rightHolds : Env → Bool) (after other : Scope) (st : State) : Prop where
  placed : st.Placed
  held : st.Holds [after, other]
  fits : Fits w reach st.known
  fits_after : Fits w (reach.filter fun ρ => leftHolds ρ == b) (after.known st.store)
  fits_other : Fits w (reach.filter fun ρ => leftHolds ρ == !b) (other.known st.store)
  outcomes : ∀ outcome,
    Fits w ((reach.filter fun ρ => leftHolds ρ == b).filter fun ρ => rightHolds ρ == outcome)
      (((st.assumed right outcome).getD after).known st.store)

lemma Cond.Decides.sides {left right : Cond} {entry : Scope} (hright : right.Decides w cx calls)
    (hst : st1.Placed) (hfresh : Fresh right.nodes st1)
    (hleft : Decided w reach left.id left.nodes (fun ρ => left.holds w calls ρ)
      (fun ρ => left.reads w calls ρ) st st1)
    (hbranch : branchScopes left.id cx st1 =
      some (if b then (entry, other) else (other, entry), st2))
    (hrun : inScope entry ((evaluator n).infer right.id) cx st2 = some ((rightType, after), st3))
    (hdisjoint : left.nodes.Disjoint right.nodes) :
    Sides w reach b right.id (fun ρ => left.holds w calls ρ) (fun ρ => right.holds w calls ρ) after
        other st3 ∧
      Touches (left.nodes ++ right.nodes) st st3 ∧
      ∀ ρ, reach = some ρ → Recorded w (left.reads w calls ρ ++
        if left.holds w calls ρ == b then right.reads w calls ρ else []) st3 := by
  obtain ⟨hadds, htable, hst2, hheld, hentry, hother⟩ := branchScopes_known hst .nil hbranch
  obtain ⟨inner, hinfer, hran, hheld3, hothers⟩ :=
    inScope_known hst2 hheld ((evaluator_keeps_any n).infer right.id) hrun
  obtain rfl := hran.after_eq
  have hentered : (st2.within entry).known = st1.outcome left.id b := by
    rw [← hentry, known, within, Stack.current_setCurrent]
  have hdecided := hright hran.entered (hfresh.congr htable) (hentered ▸ hleft.outcomes b) hinfer
  have hknown : st3.known = st1.known := hran.known.trans (hadds.known hst)
  have htouches : Touches right.nodes st1 st3 := hdecided.touches.congr htable.symm hran.table
  refine ⟨⟨hran.wf, hheld3, hknown ▸ hleft.fits, ?_, ?_, fun outcome => ?_⟩,
    hleft.touches.trans htouches, fun ρ hρ => ?_⟩
  · rw [hran.store]
    exact hdecided.fits
  · rw [hothers other (.head _), hother]
    exact hleft.outcomes !b
  · rw [assumed, hran.table, hran.store]
    exact hdecided.outcomes outcome
  · refine ((hleft.recorded ρ hρ).touches htouches fun r hr =>
      hdisjoint (left.mem_nodes_of_mem_reads w calls ρ r hr)).append ?_
    split
    · next hholds =>
      refine (hdecided.recorded ρ ?_).congr (congrArg _ hran.table)
      exact filter_eq_some_iff.2 ⟨hρ, hholds⟩
    · exact .nil

namespace Sides

variable {leftHolds rightHolds : Env → Bool}

lemma same (hs : Sides w reach b right leftHolds rightHolds after other st)
    (hwhole : ∀ ρ, (whole ρ == b) = (leftHolds ρ == b && rightHolds ρ == b)) :
    Fits w (reach.filter fun ρ => whole ρ == b)
      (((st.assumed right b).getD after).known st.store) := by
  refine (hs.outcomes b).mono fun ρ hρ => ?_
  obtain ⟨hreach, hholds⟩ := filter_eq_some_iff.1 hρ
  obtain ⟨hleft, hright⟩ := Bool.and_eq_true_iff.1 ((hwhole ρ).symm.trans hholds)
  exact filter_eq_some_iff.2 ⟨filter_eq_some_iff.2 ⟨hreach, hleft⟩, hright⟩

lemma mixed (hs : Sides w reach b right leftHolds rightHolds after other st)
    (hwhole : ∀ ρ, (whole ρ == b) = (leftHolds ρ == b && rightHolds ρ == b)) :
    Fits w (reach.filter fun ρ => whole ρ == !b) ((other.known st.store).join
      (((st.assumed right !b).getD after).known st.store)) := by
  refine hs.fits_other.join (hs.outcomes !b) fun ρ hρ => ?_
  obtain ⟨hreach, hholds⟩ := filter_eq_some_iff.1 hρ
  have hwhole := hwhole ρ
  simp only [filter_eq_some_iff, hreach, true_and]
  revert hholds hwhole
  cases whole ρ <;> cases leftHolds ρ <;> cases rightHolds ρ <;> cases b <;> simp

/-- The scopes of both outcomes are attached, and the path through the right side joins the other. -/
lemma decided {whenTrue whenFalse : Scope} {st4 : State}
    (hs : Sides w reach b right leftHolds rightHolds after other st1)
    (htouches : Touches nodes st st1) (hrecorded : ∀ ρ, reach = some ρ → Recorded w (reads ρ) st1)
    (hid : st1.table.assertions.get? id = none) (hadds : Adds st1 st2)
    (htable : st2.table = st1.table) (hst2 : st2.Placed)
    (hheld : st2.Holds [whenFalse, whenTrue, after, other])
    (htrue : Fits w (reach.filter fun ρ => whole ρ == true) (whenTrue.known st2.store))
    (hfalse : Fits w (reach.filter fun ρ => whole ρ == false) (whenFalse.known st2.store))
    (hmerge : mergeIntoCurrent after cx st2 = some ((), st3))
    (hset : st4 = st3 ∨ st4 =
      { st3 with table := st3.table.setAssertions id ⟨some whenTrue, some whenFalse⟩ }) :
    Decided w reach id (id :: nodes) whole reads st st4 := by
  have hheld' : st2.Holds [after, whenFalse, whenTrue] :=
    (hheld.sublist (by simp : List.Sublist [whenFalse, whenTrue, after] _)).perm
      (show ([whenFalse, whenTrue] ++ [after]).Perm _ from perm_append_comm)
  obtain ⟨-, htable3, -, hknown, hothers⟩ := mergeIntoCurrent_known closed_true hst2 hheld' hmerge
  have hafter : after.known st2.store = after.known st1.store :=
    hadds.known_eq (hs.held.wf after (.head _))
  have hfits : Fits w reach st3.known := by
    rw [hknown, hafter, hadds.known hs.placed]
    exact hs.fits.join hs.fits_after fun ρ hρ => .inl hρ
  have htable' : st3.table = st1.table := htable3.trans htable
  have hrecorded' : ∀ ρ, reach = some ρ → Recorded w (reads ρ) st3 := fun ρ hρ =>
    (hrecorded ρ hρ).congr (congrArg _ htable')
  rcases hset with rfl | rfl
  · have hsub := fun other (hother : other ∈ nodes) => mem_cons_of_mem id hother
    exact .of_silent ((htouches.congr rfl htable').mono hsub) hfits (htable' ▸ hid) hrecorded'
  · have htouches' := htouches.trans ((Touches.setAssertions st3 id
      ⟨some whenTrue, some whenFalse⟩).congr htable'.symm rfl)
    refine ⟨htouches'.mono (by simp [or_comm]), hfits, fun outcome => ?_, fun ρ hρ =>
      (hrecorded' ρ hρ).congr (types_setAssertions ..)⟩
    rw [State.outcome, assumed_setAssertions]
    cases outcome with
    | true =>
      show Fits w _ (whenTrue.known st3.store)
      rwa [hothers whenTrue (by simp)]
    | false =>
      show Fits w _ (whenFalse.known st3.store)
      rwa [hothers whenFalse (by simp)]

end Sides

end Connective

/-! ## All conditions -/

lemma Cond.reference?_eq {c : Cond} (hin : c.In cx) {r : Reference}
    (h : cx.arena.reference? c.id = some r) : ∃ id x, c = .var id x ∧ r = .var x := by
  unfold reference? at h
  cases c with
  | test id target x t =>
    rw [Cond.id, hin.1] at h
    cases t <;> first | cases h | (rename_i nullFirst; cases nullFirst <;> cases h)
  | var id x =>
    rw [Cond.id, hin] at h
    cases h
    exact ⟨id, x, rfl, rfl⟩
  | call id function => rw [Cond.id, hin] at h; cases h
  | not id c | and id op left right | or id op left right => rw [Cond.id, hin.1] at h; cases h

lemma Cond.Decides.short {left right : Cond} (hleft : left.Decides w cx calls)
    (hright : right.Decides w cx calls)
    (hexpr : cx.arena.expr? id = some (.binary op left.id right.id))
    (hop : ∀ ev : Evaluator,
      ev.inferBinary id op left.id right.id = ev.inferShort b id left.id right.id)
    (hnodup : (id :: (left.nodes ++ right.nodes)).Nodup)
    (hwhole : ∀ ρ, (whole ρ == b) = (left.holds w calls ρ == b && right.holds w calls ρ == b))
    (hreads : ∀ ρ, reads ρ = left.reads w calls ρ ++
      if left.holds w calls ρ == b then right.reads w calls ρ else [])
    (hst : st.Placed) (hfresh : Fresh (id :: (left.nodes ++ right.nodes)) st)
    (hfits : Fits w reach st.known) (h : (evaluator n).infer id cx st = some (type, st')) :
    Decided w reach id (id :: (left.nodes ++ right.nodes)) whole reads st st' := by
  obtain rfl := funext hreads
  obtain ⟨hid, hnodup⟩ := nodup_cons.1 hnodup
  obtain ⟨-, -, hdisjoint⟩ := nodup_append'.1 hnodup
  refine .around hexpr hst hfresh hid (fun ρ r hr => ?_) hfits h fun m st1 hrun => ?_
  · rcases mem_append.1 hr with hr | hr
    · exact mem_append_left _ (left.mem_nodes_of_mem_reads w calls ρ r hr)
    · split at hr
      · exact mem_append_right _ (right.mem_nodes_of_mem_reads w calls ρ r hr)
      · cases hr
  · have hrun : (evaluator m).inferShort b id left.id right.id cx (st.enterNode id) =
        some (type, st1) := hop (evaluator m) ▸ hrun
    obtain ⟨st2, entry, other, st3, rightType, after, st4, whenTrue, whenFalse, st5, st6, hvisit,
      hbranch, hrun, hscopes, hmerge, hset⟩ := inferShort_cases hrun
    obtain ⟨t, hinfer⟩ := visit_eq_some.1 hvisit
    have hfresh' : Fresh (left.nodes ++ right.nodes) (st.enterNode id) := hfresh.tail.congr rfl
    have hst' := hst.enter id
    have hdecided := hleft hst' (hfresh'.mono fun _ => mem_append_left _) hfits hinfer
    obtain ⟨hsides, htouches, hrecorded⟩ := hright.sides (hst'.infer hinfer)
      (hfresh'.after hdecided.touches hdisjoint) hdecided hbranch hrun hdisjoint
    have hassumed := hsides.placed.getD_assumed (hsides.held.wf after (.head _)) right.id
    obtain ⟨hadds, htable, hst5, hheld, htrue, hfalse⟩ :=
      shortScopes_known hsides.placed hsides.held (hassumed true) (hassumed false) hscopes
    have hsame := hsides.same hwhole
    have hmixed := hsides.mixed hwhole
    refine hsides.decided htouches hrecorded ?_ hadds htable hst5 hheld ?_ ?_ hmerge hset
    · rw [htouches.assertions id hid]
      exact hfresh.untested
    · rw [htrue]
      cases b
      exacts [hmixed, hsame]
    · rw [hfalse]
      cases b
      exacts [hsame, hmixed]

lemma Cond.decided (c : Cond) (hin : c.In cx) (hnodup : c.nodes.Nodup) :
    c.Decides w cx calls := by
  induction c with
  | test id target x t =>
    intro reach n type st st' hst hfresh hfits h
    obtain ⟨hexpr, htarget, hproper⟩ := hin
    refine .around hexpr hst hfresh (nodup_cons.1 hnodup).1 (by simp [Cond.reads]) hfits h
      fun m st1 hrun => ?_
    exact Test.decided hproper htarget hnodup (hst.enter id) (hfresh.congr rfl) hfits hrun
  | var id x =>
    intro reach n type st st' hst hfresh hfits h
    obtain ⟨hevaluated, houtcomes⟩ := evaluated_var hst hin hfresh hfits h
    exact ⟨hevaluated.touches, hevaluated.known ▸ hfits, houtcomes, hevaluated.recorded⟩
  | call id function =>
    intro reach n type st st' hst hfresh hfits h
    refine .around hin hst hfresh (not_mem_nil) (by simp [Cond.reads]) hfits h
      fun m st1 hrun => ?_
    rw [inferExpr] at hrun
    obtain ⟨hknown, htable⟩ := inferCall_nil_known hrun
    have hnone : st1.table.assertions.get? id = none :=
      htable ▸ (hfresh id (.head _)).2
    exact .of_silent (.of_table htable) (hknown ▸ hfits) hnone fun _ _ => .nil
  | not id c ih =>
    intro reach n type st st' hst hfresh hfits h
    obtain ⟨hexpr, hc⟩ := hin
    obtain ⟨hid, hnodup⟩ := nodup_cons.1 hnodup
    refine .around hexpr hst hfresh hid (c.mem_nodes_of_mem_reads w calls) hfits h
      fun m st1 hrun => ?_
    obtain ⟨operandType, st2, hinfer, hrest⟩ := of_bind hrun
    obtain ⟨⟨⟩, hnegate, -⟩ := of_result hrest
    have hfresh' : Fresh c.nodes (st.enterNode id) :=
      hfresh.tail.congr rfl
    have hdecided := ih hc hnodup (hst.enter id) hfresh' hfits hinfer
    have hnone : st2.table.assertions.get? id = none := by
      rw [hdecided.touches.assertions id hid]
      exact hfresh.untested
    refine decided_not hdecided ((hst.enter id).infer hinfer) hnone (fun r hr => ?_) hnegate
    obtain ⟨var, x, rfl, rfl⟩ := Cond.reference?_eq hc hr
    have hevaluated := (evaluated_var (hst.enter id) hc hfresh' hfits hinfer).1
    exact ⟨x, rfl, rfl, hevaluated.regular, hevaluated.holds⟩
  | and id op left right ihl ihr =>
    intro reach n type st st' hst hfresh hfits h
    obtain ⟨hexpr, hop, hleft, hright⟩ := hin
    obtain ⟨hnodupl, hnodupr, -⟩ := nodup_append'.1 (nodup_cons.1 hnodup).2
    refine (ihl hleft hnodupl).short (b := true) (ihr hright hnodupr) hexpr (fun ev => ?_) hnodup
      (fun ρ => ?_) (fun ρ => ?_) hst hfresh hfits h
    · rcases hop with rfl | rfl <;> rfl
    · rw [Cond.holds]
      cases left.holds w calls ρ <;> cases right.holds w calls ρ <;> rfl
    · rw [Cond.reads]
      cases left.holds w calls ρ <;> rfl
  | or id op left right ihl ihr =>
    intro reach n type st st' hst hfresh hfits h
    obtain ⟨hexpr, hop, hleft, hright⟩ := hin
    obtain ⟨hnodupl, hnodupr, -⟩ := nodup_append'.1 (nodup_cons.1 hnodup).2
    refine (ihl hleft hnodupl).short (b := false) (ihr hright hnodupr) hexpr (fun ev => ?_) hnodup
      (fun ρ => ?_) (fun ρ => ?_) hst hfresh hfits h
    · rcases hop with rfl | rfl <;> rfl
    · rw [Cond.holds]
      cases left.holds w calls ρ <;> cases right.holds w calls ρ <;> rfl
    · rw [Cond.reads]
      cases left.holds w calls ρ <;> rfl

end FlowTyping

import FlowTyping.Proofs.Analysis.Engine
import FlowTyping.Proofs.Analysis.Knowledge
import FlowTyping.Proofs.Analysis.Tests
import FlowTyping.Proofs.Flow.Program

/-!
# Evaluating values

What a scope knows fits the variables of a run if every variable that has a value is bound there,
with a type that the value is of.  The evaluation of a value leaves a scope that knows what it knew;
the value is one of the type that is returned, and for every variable that was read the type recorded
at its node is one that the variable's value is of.
-/

namespace FlowTyping

open Name Option State Ty

variable {w : World} {reach : Option Env} {x cls : String} {v : Value} {ρ : Env}
  {value : Env → Option Value} {nodes nodes' : List NodeId} {id : NodeId} {n : Nat} {e : Expr}

/-- Every variable that has a value is bound, with a type that the value is of. -/
def Env.Agrees (w : World) (ρ : Env) (Γ : Typing) : Prop :=
  ∀ x v, ρ x = some v → ∃ type, Γ x = some type ∧ KnownIn (fun t => t.holds w v = true) type

/-- The typing has regular types, and fits the variables of a run that comes here. -/
structure Fits (w : World) (reach : Option Env) (Γ : Typing) : Prop where
  regular : ∀ x, KnownIn Regular (Γ x).join
  holds : ∀ ρ, reach = some ρ → ρ.Agrees w Γ

namespace Fits

variable {reach' r : Option Env} {Γ Δ : Typing} {type a b : Option Ty}

lemma mono (h : Fits w reach Γ) (hsub : ∀ ρ, reach' = some ρ → reach = some ρ) :
    Fits w reach' Γ :=
  ⟨h.regular, fun ρ hρ => h.holds ρ (hsub ρ hρ)⟩

lemma filter (h : Fits w reach Γ) (p : Env → Bool) : Fits w (reach.filter p) Γ :=
  h.mono fun _ hρ => (filter_eq_some_iff.1 hρ).1

lemma knownIn (h : Fits w reach Γ) (hρ : reach = some ρ) (hv : ρ x = some v) :
    KnownIn (fun t => t.holds w v = true) (Γ x).join := by
  obtain ⟨type, htype, hholds⟩ := h.holds ρ hρ x v hv
  rw [htype]
  exact hholds

lemma set (h : Fits w reach Γ) (htype : KnownIn Regular type)
    (hvalue : ∀ ρ, reach = some ρ → ∀ v, value ρ = some v →
      KnownIn (fun t => t.holds w v = true) type) :
    Fits w (reach.map fun ρ => ρ.set x (value ρ)) (Γ.set x type) := by
  refine ⟨fun y => ?_, fun ρ' hρ' y v hv => ?_⟩
  · unfold Typing.set
    split
    · exact htype
    · exact h.regular y
  · obtain ⟨ρ, hρ, rfl⟩ := map_eq_some_iff.1 hρ'
    unfold Typing.set
    by_cases hy : y = x
    · rw [Env.set, if_pos hy] at hv
      exact ⟨type, if_pos hy, hvalue ρ hρ v hv⟩
    · rw [Env.set, if_neg hy] at hv
      rw [if_neg hy]
      exact h.holds ρ hρ y v hv

lemma narrow (h : Fits w reach Γ) {define : Bool} (htype : KnownIn Regular type)
    (hvalue : ∀ ρ, reach = some ρ → ∀ v, ρ x = some v →
      KnownIn (fun t => t.holds w v = true) type) :
    Fits w reach (Γ.narrow x type define) := by
  refine ⟨fun y => ?_, fun ρ hρ y v hv => ?_⟩
  · unfold Typing.narrow
    by_cases hy : y = x
    · rw [if_pos hy]
      have hx := h.regular x
      cases type with
      | some t =>
        dsimp only
        split
        · exact htype
        · exact .none
      | none =>
        dsimp only
        split
        · cases hΓ : Γ x with
          | none => exact .none
          | some k => rwa [hΓ] at hx
        · exact hx
    · rw [if_neg hy]
      exact h.regular y
  · obtain ⟨k, hk, hholds⟩ := h.holds ρ hρ y v hv
    unfold Typing.narrow
    by_cases hy : y = x
    · subst hy
      rw [if_pos rfl, hk]
      cases type with
      | some t => exact ⟨some t, by simp, hvalue ρ hρ v hv⟩
      | none => exact ⟨k, by simp, hholds⟩
    · rw [if_neg hy]
      exact ⟨k, hk, hholds⟩

lemma test (h : Fits w reach Γ) {guard : Guard} (hguard : guard.Proper)
    (htype : KnownIn Regular type) (hvalue : ∀ ρ, reach = some ρ → ∀ v, ρ x = some v →
      KnownIn (fun t => t.holds w v = true) type) (outcome define : Bool) :
    Fits w (reach.filter fun ρ => guard.test w (ρ.read x) == outcome)
      (Γ.narrow x ((Ty.narrow type guard).on outcome) define) := by
  refine (h.filter _).narrow ?_ fun ρ hρ v hv => ?_
  · obtain ⟨htrue, hfalse⟩ := regular_narrow hguard htype
    cases outcome
    exacts [hfalse, htrue]
  · obtain ⟨hreach, htest⟩ := filter_eq_some_iff.1 hρ
    rw [beq_iff_eq, Env.read, hv, getD_some] at htest
    obtain ⟨htrue, hfalse⟩ := holds_narrow hguard htype (hvalue ρ hreach v hv)
    cases outcome
    exacts [hfalse htest, htrue htest]

lemma holds_merge (ha : KnownIn Regular a) (hb : KnownIn Regular b)
    (hv : KnownIn (fun t => t.holds w v = true) a ∨ KnownIn (fun t => t.holds w v = true) b) :
    KnownIn (fun t => t.holds w v = true) (if a == b then a else join? a b) := by
  split
  · next heq =>
    rcases hv with hv | hv
    · exact hv
    · cases a with
      | none => exact .none
      | some s =>
        cases b with
        | none => cases heq
        | some t =>
          have hs := ha s rfl
          have ht := hb t rfl
          refine .some (ht.holds_of_eqv hs (hs.eqv_symm ht heq) (hv t rfl))
  · intro u hu
    obtain ⟨s, rfl, hu⟩ := bind_eq_some_iff.1 hu
    obtain ⟨t, rfl, hu⟩ := bind_eq_some_iff.1 hu
    cases hu
    exact holds_join (ha s rfl) (hb t rfl) (hv.imp (fun h => h s rfl) fun h => h t rfl)

lemma regular_merge (ha : KnownIn Regular a) (hb : KnownIn Regular b) :
    KnownIn Regular (if a == b then a else join? a b) := by
  split
  · exact ha
  · intro u hu
    obtain ⟨s, rfl, hu⟩ := bind_eq_some_iff.1 hu
    obtain ⟨t, rfl, hu⟩ := bind_eq_some_iff.1 hu
    cases hu
    exact regular_join (ha s rfl) (hb t rfl)

lemma join (h : Fits w reach Γ) (h' : Fits w reach' Δ)
    (hr : ∀ ρ, r = some ρ → reach = some ρ ∨ reach' = some ρ) : Fits w r (Γ.join Δ) := by
  refine ⟨fun x => ?_, fun ρ hρ x v hv => ?_⟩
  · have hx := h.regular x
    have hx' := h'.regular x
    unfold Typing.join
    cases hΓ : Γ x <;> cases hΔ : Δ x <;> rw [hΓ] at hx <;> rw [hΔ] at hx'
    · exact .none
    · exact hx'
    · exact hx
    · exact regular_merge hx hx'
  · have hx := h.regular x
    have hx' := h'.regular x
    unfold Typing.join
    rcases hr ρ hρ with hreach | hreach
    · obtain ⟨k, hk, hholds⟩ := h.holds ρ hreach x v hv
      rw [hk] at hx ⊢
      cases hΔ : Δ x with
      | none => exact ⟨k, rfl, hholds⟩
      | some k' =>
        rw [hΔ] at hx'
        exact ⟨_, rfl, holds_merge hx hx' (.inl hholds)⟩
    · obtain ⟨k, hk, hholds⟩ := h'.holds ρ hreach x v hv
      rw [hk] at hx' ⊢
      cases hΓ : Γ x with
      | none => exact ⟨k, rfl, hholds⟩
      | some k' =>
        rw [hΓ] at hx
        exact ⟨_, rfl, holds_merge hx hx' (.inr hholds)⟩

lemma foldl_join {Γs : List Typing} (h : Fits w none Γ) (hΓs : ∀ Δ ∈ Γs, Fits w none Δ)
    (hr : r = none ∨ Fits w r Γ ∨ ∃ Δ ∈ Γs, Fits w r Δ) : Fits w r (Γs.foldl Typing.join Γ) := by
  induction Γs generalizing Γ with
  | nil =>
    rcases hr with rfl | hr | ⟨_, hmem, _⟩
    · exact h
    · exact hr
    · cases hmem
  | cons Δ Γs ih =>
    rw [List.forall_mem_cons] at hΓs
    refine ih (h.join hΓs.1 fun ρ hρ => .inl hρ) hΓs.2 ?_
    rcases hr with rfl | hr | ⟨Δ', hmem, hr⟩
    · exact .inl rfl
    · exact .inr (.inl (hr.join hΓs.1 fun ρ hρ => .inl hρ))
    · rcases List.mem_cons.1 hmem with rfl | hmem
      · exact .inr (.inl (h.join hr fun ρ hρ => .inr hρ))
      · exact .inr (.inr ⟨Δ', hmem, hr⟩)

end Fits

open Analysis List Evaluator State

variable {cx : Context} {st st' st'' : State}

/-- The value of each variable that was read is one of the type recorded at its node. -/
def Recorded (w : World) (reads : Reads) (st : State) : Prop :=
  ∀ r ∈ reads, ∀ v, r.2 = some v →
    KnownIn (fun t => t.holds w v = true) (st.table.types.get? r.1)

namespace Recorded

variable {reads reads' : Reads}

lemma nil : Recorded w [] st := fun _ hr => nomatch hr

lemma append (h : Recorded w reads st) (h' : Recorded w reads' st) :
    Recorded w (reads ++ reads') st := fun r hr =>
  (mem_append.1 hr).elim (h r) (h' r)

lemma touches (h : Recorded w reads st) (ht : Touches nodes st st')
    (hdisjoint : ∀ r ∈ reads, r.1 ∉ nodes) : Recorded w reads st' := fun r hr => by
  rw [ht.types r.1 (hdisjoint r hr)]
  exact h r hr

lemma of_fresh (h : Fresh nodes st) (hreads : ∀ r ∈ reads, r.1 ∈ nodes) :
    Recorded w reads st := fun r hr v _ => by
  rw [(h r.1 (hreads r hr)).1]
  exact .none

lemma congr (h : Recorded w reads st) (hst : st'.table.types = st.table.types) :
    Recorded w reads st' := fun r hr => by
  rw [hst]
  exact h r hr

end Recorded

/-! ## Entering and leaving nodes -/

section Node

variable {other : NodeId} {type : Option Ty}

lemma State.known_leaveNode : (st.leaveNode id type).known = st.known := rfl

lemma State.outcome_leaveNode (outcome : Bool) :
    (st.leaveNode id type).outcome other outcome = st.outcome other outcome := by
  unfold State.outcome assumed
  rw [assertions_leaveNode]
  rfl

lemma State.types_leaveNode :
    (st.leaveNode id type).table.types.get? other =
      if id = other then type.or (st.table.types.get? other) else st.table.types.get? other := by
  cases type with
  | none => simp [leaveNode]
  | some t =>
    show (st.table.types.insert id t).get? other = _
    rw [IdMap.get?_insert]
    rfl

lemma touches_leaveNode : Touches [id] st (st.leaveNode id type) := by
  refine ⟨fun other hother => ?_, fun other _ => by rw [assertions_leaveNode]⟩
  rw [types_leaveNode, if_neg fun h => hother (mem_singleton.2 h.symm)]

lemma Touches.around (h : Touches nodes (st.enterNode id) st') :
    Touches (id :: nodes) st (st'.leaveNode id type) := by
  refine ⟨fun other hother => ?_, fun other hother => ?_⟩ <;> rw [mem_cons, not_or] at hother
  · rw [touches_leaveNode.types other (mt mem_singleton.1 hother.1), h.types other hother.2]
    rfl
  · rw [assertions_leaveNode, h.assertions other hother.2]
    rfl

end Node

lemma State.Wf.infer {type : Option Ty} (hst : st.Placed)
    (h : (evaluator n).infer id cx st = some (type, st')) : st'.Placed :=
  (((evaluator_keeps_any n).infer id).step hst h).1.wf

lemma State.Wf.enter (hst : st.Placed) (id : NodeId) : (st.enterNode id).Placed :=
  Wf.around hst

/-! ## Values -/

/-- The scope knows what it knew, and reads are recorded. -/
structure Reading (w : World) (reach : Option Env) (nodes : List NodeId) (reads : Env → Reads)
    (st st' : State) : Prop where
  placed : st'.Placed
  known : st'.known = st.known
  touches : Touches nodes st st'
  recorded : ∀ ρ, reach = some ρ → Recorded w (reads ρ) st'

/-- The value that was evaluated is also one of the type that was returned. -/
structure Evaluated (w : World) (reach : Option Env) (nodes : List NodeId)
    (value : Env → Option Value) (reads : Env → Reads) (type : Option Ty) (st st' : State) : Prop
    extends Reading w reach nodes reads st st' where
  regular : KnownIn Regular type
  holds : ∀ ρ, reach = some ρ → ∀ v, value ρ = some v →
    KnownIn (fun t => t.holds w v = true) type

lemma Reading.fresh {reads : Env → Reads} (h : Reading w reach nodes reads st st')
    (hfresh : Fresh (nodes ++ nodes') st) (hdisjoint : nodes.Disjoint nodes') : Fresh nodes' st' :=
  hfresh.after h.touches hdisjoint

lemma Reading.trans {reads reads' : Env → Reads} (h : Reading w reach nodes reads st st')
    (h' : Reading w reach nodes' reads' st' st'') (hreads : ∀ ρ, ∀ r ∈ reads ρ, r.1 ∈ nodes)
    (hdisjoint : nodes.Disjoint nodes') :
    Reading w reach (nodes ++ nodes') (fun ρ => reads ρ ++ reads' ρ) st st'' where
  placed := h'.placed
  known := h'.known.trans h.known
  touches := h.touches.trans h'.touches
  recorded ρ hρ := ((h.recorded ρ hρ).touches h'.touches fun r hr =>
    hdisjoint (hreads ρ r hr)).append (h'.recorded ρ hρ)

lemma evaluated_var {type : Option Ty} (hst : st.Placed) (hid : cx.IsVar id x)
    (hfresh : Fresh [id] st) (hfits : Fits w reach st.known)
    (h : (evaluator n).infer id cx st = some (type, st')) :
    Evaluated w reach [id] (fun ρ => ρ x) (fun ρ => [(id, ρ x)]) type st st' ∧
      ∀ outcome, Fits w (reach.filter fun ρ => (ρ.read x).truthy == outcome)
        (st'.outcome id outcome) := by
  obtain ⟨htypes, hassertions⟩ := hfresh id (.head _)
  have hplaced := hst.infer h
  rcases infer_cases hid h with ⟨rfl, rfl⟩ | ⟨m, st1, -, hrun, rfl⟩
  · refine ⟨⟨⟨hst, rfl, .of_table rfl, fun ρ _ => ?_⟩, .none, fun _ _ _ _ => .none⟩,
      fun outcome => ?_⟩
    · exact .of_fresh hfresh fun r hr => mem_singleton.2 (mem_singleton.1 hr ▸ rfl)
    · rw [outcome_of_assumed_none (assumed_eq_none hassertions outcome)]
      exact hfits.filter _
  · have hfresh' : (st.enterNode id).table.assertions.get? id = none := hassertions
    obtain ⟨htype, htested⟩ := tested_inferVar closed_true (hst.enter id) hfresh' hid hrun
    have hknown : st1.known = st.known :=
      (htested.adds.known ((hst.enter id).markRead x)).trans (Scope.known_markUsed hst.current x)
    have hregular : KnownIn Regular type := htype ▸ hfits.regular x
    have hholds : ∀ ρ, reach = some ρ → ∀ v, ρ x = some v →
        KnownIn (fun t => t.holds w v = true) type := fun ρ hρ v hv =>
      htype ▸ hfits.knownIn hρ hv
    have hentered : Touches [] (st.enterNode id) ((st.enterNode id).markRead x) := .of_table rfl
    have htouches : Touches [id] st (st1.leaveNode id type) :=
      (hentered.tested htested).around.mono (by simp)
    refine ⟨⟨⟨hplaced, hknown, htouches, fun ρ hρ r hr v hv => ?_⟩, hregular, hholds⟩,
      fun outcome => ?_⟩
    · obtain rfl := mem_singleton.1 hr
      have hnone : st1.table.types.get? id = none := by
        rw [htested.types]
        exact htypes
      rw [types_leaveNode, if_pos rfl, hnone, or_none]
      exact hholds ρ hρ v hv
    · rw [outcome_leaveNode]
      cases hassumed : st1.assumed id outcome with
      | none =>
        rw [outcome_of_assumed_none hassumed, hknown]
        exact hfits.filter _
      | some s =>
        rw [State.outcome, hassumed, getD_some, (htested.known outcome s hassumed).2]
        have hguard : Guard.Proper .truthy := trivial
        exact hfits.test hguard hregular hholds outcome false

lemma reading_leaf {type t : Option Ty} (hst : st.Placed) (he : cx.arena.expr? id = some e)
    (hexpr : ∀ m s, (evaluator m).inferExpr id e cx s = some (t, s))
    (h : (evaluator n).infer id cx st = some (type, st')) :
    Reading w reach [id] (fun _ => []) st st' ∧ (type = none ∨ type = t) := by
  have hplaced := hst.infer h
  rcases infer_cases he h with ⟨rfl, rfl⟩ | ⟨m, st1, -, hrun, rfl⟩
  · exact ⟨⟨hst, rfl, .of_table rfl, fun _ _ => .nil⟩, .inl rfl⟩
  · rw [hexpr] at hrun
    cases hrun
    exact ⟨⟨hplaced, rfl, touches_leaveNode.congr rfl rfl, fun _ _ => .nil⟩, .inr rfl⟩

lemma evaluated_leaf {type t : Option Ty} (hst : st.Placed) (he : cx.arena.expr? id = some e)
    (hexpr : ∀ m s, (evaluator m).inferExpr id e cx s = some (t, s)) (hregular : KnownIn Regular t)
    (hvalue : ∀ ρ v, value ρ = some v → KnownIn (fun t => t.holds w v = true) t)
    (h : (evaluator n).infer id cx st = some (type, st')) :
    Evaluated w reach [id] value (fun _ => []) type st st' := by
  obtain ⟨hread, rfl | rfl⟩ := reading_leaf hst he hexpr h
  · exact ⟨hread, .none, fun _ _ _ _ => .none⟩
  · exact ⟨hread, hregular, fun ρ _ v => hvalue ρ v⟩

lemma Evaluator.visit_eq_some {ev : Evaluator} :
    ev.visit id cx st = some ((), st') ↔ ∃ type, ev.infer id cx st = some (type, st') := by
  unfold visit
  rw [bind_eq_some]
  constructor
  · rintro ⟨type, st1, h, hpure⟩
    obtain ⟨-, rfl⟩ := of_pure hpure
    exact ⟨type, h⟩
  · rintro ⟨type, h⟩
    exact ⟨type, st', h, rfl⟩

lemma Evaluator.arrayItems_cons_run (ev : Evaluator) (key : Option NodeId) (value : NodeId)
    (unpack : Bool) (items : List ArrayItem) :
    ev.arrayItems ({ key, value, unpack } :: items) cx st =
      (do
        ev.visit? key
        ev.visit value
        ev.arrayItems items : Analysis Unit) cx st := by
  rw [Evaluator.arrayItems]
  refine congrFun (congrFun (bind_congr (m := Analysis) fun _ => ?_) cx) st
  funext cx st
  rw [bind_run (show varNameAt value cx st = some (cx.arena.varName? value, st) from rfl)]
  cases cx.arena.varName? value <;> rfl

mutual
theorem Source.mem_nodes_of_mem_reads (ρ : Env) (e : Source) : ∀ r ∈ e.reads ρ, r.1 ∈ e.nodes := by
  match e with
  | .var id x =>
    intro r hr
    rw [mem_singleton.1 hr]
    exact .head _
  | .array id items => exact fun r hr => .tail _ (items.mem_nodes_of_mem_reads ρ r hr)
  | .int .. | .float .. | .string .. | .const .. | .new .. => exact fun r hr => nomatch hr
theorem Items.mem_nodes_of_mem_reads (ρ : Env) (items : Items) :
    ∀ r ∈ items.reads ρ, r.1 ∈ items.nodes := by
  match items with
  | .nil => exact fun r hr => nomatch hr
  | .item value rest =>
    intro r hr
    rcases mem_append.1 hr with hr | hr
    · exact mem_append_left _ (value.mem_nodes_of_mem_reads ρ r hr)
    · exact mem_append_right _ (rest.mem_nodes_of_mem_reads ρ r hr)
  | .keyed key value rest =>
    intro r hr
    rcases mem_append.1 hr with hr | hr
    · rcases mem_append.1 hr with hr | hr
      · exact mem_append_left _ (mem_append_left _ (key.mem_nodes_of_mem_reads ρ r hr))
      · exact mem_append_left _ (mem_append_right _ (value.mem_nodes_of_mem_reads ρ r hr))
    · exact mem_append_right _ (rest.mem_nodes_of_mem_reads ρ r hr)
end

lemma Name.IsClass.resolveClass? (h : Name.IsClass cls) (stack : Stack) :
    stack.resolveClass? cls = some (unqualified cls) := by
  obtain ⟨hself, hstatic, hparent⟩ := h.not_relative
  have hword : ∀ word, foldCase word = word → key cls ≠ word →
      sameWord (unqualified cls) word = false := by
    intro word hfold hne
    rw [sameWord, hfold]
    exact beq_eq_false_iff_ne.2 hne
  unfold Stack.resolveClass?
  dsimp only
  rw [hword "self" (by decide) hself, hword "static" (by decide) hstatic,
    hword "parent" (by decide) hparent]
  rfl

lemma Name.IsClass.unqualified (h : Name.IsClass cls) (kind : Primitive) :
    key (unqualified cls) ≠ key kind.keyword := by
  rw [key_unqualified]
  exact h.not_primitive kind

lemma constantType?_of_word (cx : Context) {name : String}
    (h : (Value.ofConst name).isSome = true) :
    ∃ t, cx.constantType? name = some t ∧ t.Regular ∧
      ∀ v, Value.ofConst name = some v → t.holds w v = true := by
  have hword : key name = "true" ∨ key name = "false" ∨ key name = "null" := by
    unfold Value.ofConst at h
    split at h <;> simp_all
  unfold Value.ofConst Context.constantType?
  rcases hword with hword | hword | hword <;> rw [hword]
  · exact ⟨.bool, rfl, trivial, fun v hv => by cases hv; rfl⟩
  · exact ⟨.bool, rfl, trivial, fun v hv => by cases hv; rfl⟩
  · exact ⟨.null, rfl, trivial, fun v hv => by cases hv; rfl⟩

lemma Source.holds_array {items : Items} (h : (Source.array id items).value ρ = some v) :
    Ty.array.holds w v = true := by
  cases items <;> cases h <;> rfl

mutual
theorem Source.evaluated (e : Source) {n : Nat} {st st' : State} {type : Option Ty}
    (hin : e.In cx) (hnodup : e.nodes.Nodup) (hst : st.Placed) (hfresh : Fresh e.nodes st)
    (hfits : Fits w reach st.known) (h : (evaluator n).infer e.id cx st = some (type, st')) :
    Evaluated w reach e.nodes (fun ρ => e.value ρ) (fun ρ => e.reads ρ) type st st' := by
  have hprimitive : ∀ kind, KnownIn Regular (some (.primitive kind)) := fun _ => .some trivial
  match e with
  | .int id k =>
    refine evaluated_leaf hst hin (fun _ _ => rfl) (hprimitive .int) (fun ρ v hv => ?_) h
    cases hv
    exact .some rfl
  | .float id d =>
    refine evaluated_leaf hst hin (fun _ _ => rfl) (hprimitive .float) (fun ρ v hv => ?_) h
    cases hv
    exact .some rfl
  | .string id text =>
    refine evaluated_leaf hst hin (fun _ _ => rfl) (hprimitive .string) (fun ρ v hv => ?_) h
    cases hv
    exact .some rfl
  | .const id name =>
    obtain ⟨hexpr, hword⟩ := hin
    obtain ⟨t, htype, hregular, hholds⟩ := constantType?_of_word (w := w) cx hword
    refine evaluated_leaf hst hexpr (fun _ _ => congrArg (fun t => some (t, _)) htype)
      (.some hregular) (fun ρ v hv => .some (hholds v hv)) h
  | .var id x => exact (evaluated_var hst hin hfresh hfits h).1
  | .new id cls =>
    obtain ⟨hexpr, hclass⟩ := hin
    have hnew : ∀ m s, (evaluator m).inferExpr id (.new (.named cls) []) cx s =
        some (some (.ofClass (unqualified cls)), s) := fun m s =>
      congrArg (fun c => some (some (ofClass? c), s)) (hclass.resolveClass? s.stack)
    refine evaluated_leaf hst hexpr hnew (.some (regular_ofClass hclass.unqualified))
      (fun ρ v hv => .some ?_) h
    cases hv
    rw [holds_ofClass, key_unqualified]
    exact w.isA_refl _
  | .array id items =>
    obtain ⟨hexpr, hitems⟩ := hin
    obtain ⟨hid, hnodup⟩ := nodup_cons.1 hnodup
    have hplaced := hst.infer h
    rcases infer_cases hexpr h with ⟨rfl, rfl⟩ | ⟨m, st1, -, hrun, rfl⟩
    · exact ⟨⟨hst, rfl, .of_table rfl, fun ρ _ => .of_fresh hfresh fun r hr =>
        .tail _ (items.mem_nodes_of_mem_reads ρ r hr)⟩, .none, fun _ _ _ _ => .none⟩
    · obtain ⟨⟨⟩, hlist, rfl⟩ := of_result hrun
      have hitems := items.reading hitems hnodup (hst.enter id)
        (hfresh.tail.congr rfl) hfits hlist
      have hreads : ∀ ρ, ∀ r ∈ items.reads ρ, r.1 ∉ [id] := fun ρ r hr hmem =>
        hid (mem_singleton.1 hmem ▸ items.mem_nodes_of_mem_reads ρ r hr)
      exact ⟨⟨hplaced, hitems.known, hitems.touches.around, fun ρ hρ =>
        (hitems.recorded ρ hρ).touches touches_leaveNode (hreads ρ)⟩, hprimitive .array,
        fun ρ _ v hv => .some (Source.holds_array hv)⟩
theorem Items.reading (items : Items) {n : Nat} {st st' : State}
    (hin : items.In cx) (hnodup : items.nodes.Nodup) (hst : st.Placed) (hfresh : Fresh items.nodes st)
    (hfits : Fits w reach st.known)
    (h : (evaluator n).arrayItems items.toList cx st = some ((), st')) :
    Reading w reach items.nodes (fun ρ => items.reads ρ) st st' := by
  match items with
  | .nil =>
    obtain ⟨-, rfl⟩ := of_pure h
    exact ⟨hst, rfl, .of_table rfl, fun _ _ => .nil⟩
  | .item value rest =>
    obtain ⟨hvalue, hrest⟩ := hin
    obtain ⟨hnodup, hnodup', hdisjoint⟩ := nodup_append'.1 hnodup
    rw [Items.toList, arrayItems_cons_run] at h
    obtain ⟨⟨⟩, st1, hnokey, hitem⟩ := of_bind h
    obtain ⟨-, rfl⟩ := of_pure hnokey
    obtain ⟨⟨⟩, st2, hvisit, hrun⟩ := of_bind hitem
    obtain ⟨type, hinfer⟩ := visit_eq_some.1 hvisit
    have hvalue := (value.evaluated hvalue hnodup hst (hfresh.mono fun _ => mem_append_left _)
      hfits hinfer).toReading
    have hrest := rest.reading hrest hnodup' hvalue.placed (hvalue.fresh hfresh hdisjoint)
      (hvalue.known ▸ hfits) hrun
    exact hvalue.trans hrest value.mem_nodes_of_mem_reads hdisjoint
  | .keyed key value rest =>
    obtain ⟨hkey, hvalue, hrest⟩ := hin
    obtain ⟨hnodup, hnodup', hdisjoint⟩ := nodup_append'.1 hnodup
    obtain ⟨hnodup, hnodup'', hdisjoint'⟩ := nodup_append'.1 hnodup
    rw [Items.toList, arrayItems_cons_run] at h
    obtain ⟨⟨⟩, st1, hvisit, h⟩ := of_bind h
    obtain ⟨⟨⟩, st2, hvisit', hrun⟩ := of_bind h
    obtain ⟨type, hinfer⟩ := visit_eq_some.1 hvisit
    obtain ⟨type', hinfer'⟩ := visit_eq_some.1 hvisit'
    have hfresh' := hfresh.mono fun _ => mem_append_left _
    have hkey := (key.evaluated hkey hnodup hst (hfresh'.mono fun _ => mem_append_left _)
      hfits hinfer).toReading
    have hvalue := (value.evaluated hvalue hnodup'' hkey.placed (hkey.fresh hfresh' hdisjoint')
      (hkey.known ▸ hfits) hinfer').toReading
    have hitem := hkey.trans hvalue key.mem_nodes_of_mem_reads hdisjoint'
    have hrest := rest.reading hrest hnodup' hitem.placed (hitem.fresh hfresh hdisjoint)
      (hitem.known ▸ hfits) hrun
    refine hitem.trans hrest (fun ρ r hr => ?_) hdisjoint
    exact mem_append.2 ((mem_append.1 hr).imp (key.mem_nodes_of_mem_reads ρ r)
      (value.mem_nodes_of_mem_reads ρ r))
end

end FlowTyping

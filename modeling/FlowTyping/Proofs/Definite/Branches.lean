import FlowTyping.Proofs.Definite.Expressions

/-!
# Names bound by branches

What the check of statements leaves behind: where a path leaves them at their end, the verdict is
that control falls through, and the names that are bound are reached by such a path; where a path
leaves them by a jump, the scope recorded for the jump is.
-/

namespace FlowTyping

open Analysis Evaluator List Outcome State

/-- The scopes at the places that leave the innermost loop or switch early. -/
def State.frame (st : State) : List Scope :=
  st.breaks.headD []

/-- The names that are bound at such a place. -/
def State.Leaves (st : State) (stop : Set String) : Prop :=
  ∃ s ∈ st.frame, s.names = stop

namespace Definite

variable {cx : Context} {v : String} {st st1 st2 st' : State} {id : NodeId} {n : Nat}
  {ids : List NodeId}

/-! ## Statements that have been checked -/

/-- Loops around the code have more scopes in their frames at most, and expressions around it are the
same. -/
structure Kept (st st' : State) : Prop where
  grows : breaksGrow.rel st st'
  depth : st'.depth = st.depth

namespace Kept

lemma refl (st : State) : Kept st st :=
  ⟨breaksGrow.refl st, rfl⟩

lemma trans (h : Kept st st1) (h' : Kept st1 st') : Kept st st' :=
  ⟨breaksGrow.trans h.grows h'.grows, h'.depth.trans h.depth⟩

lemma of_quiet (h : Quiet st st') : Kept st st' := by
  refine ⟨?_, h.depth⟩
  show Grown 0 st.breaks st'.breaks
  rw [h.breaks]
  exact .refl 0 _

lemma leaves (h : Kept st st') {stop : Set String} (hstop : st.Leaves stop) : st'.Leaves stop := by
  obtain ⟨s, hs, hnames⟩ := hstop
  refine ⟨s, ?_, hnames⟩
  have hgrown : Grown 0 st.breaks st'.breaks := h.grows
  unfold frame at hs ⊢
  cases hb : st.breaks with
  | nil =>
    rw [hb] at hs
    cases hs
  | cons frame outer =>
    rw [hb] at hgrown hs
    obtain ⟨new, hnew, -⟩ := hgrown
    rw [hnew]
    exact mem_append_left _ hs

lemma breaks_ne_nil (h : Kept st st') (hst : st.breaks ≠ []) : st'.breaks ≠ [] := by
  have hgrown : Grown 0 st.breaks st'.breaks := h.grows
  cases hb : st.breaks with
  | nil => exact absurd hb hst
  | cons frame outer =>
    rw [hb] at hgrown
    obtain ⟨new, hnew, -⟩ := hgrown
    rw [hnew]
    exact cons_ne_nil _ _

end Kept

lemma kept_infer {type : Option Ty} (h : (evaluator n).infer id cx st = some (type, st')) :
    Kept st st' :=
  ⟨(breaksGrow.evaluator cx n).infer trivial h, depth_infer h⟩

lemma kept_visitAll (h : (evaluator n).visitAll ids cx st = some ((), st')) :
    Kept st st' :=
  ⟨(breaksGrow.evaluator cx n).visitAll (fun _ _ => trivial) h,
    ((stackKept.evaluator cx n).visitAll (fun _ _ => trivial) h).2⟩

/-- If there are paths, one of them leads from where the names `start` are bound to one of the ends. -/
def Arrives (v : String) (paths : Language String) (start : Set String) (ends : Set String → Prop) : Prop :=
  Possible paths → ∃ stop, ends stop ∧ Reached v paths start stop

namespace Arrives

variable {p q : Language String} {N M : Set String} {ends ends' : Set String → Prop}

lemma of_zero : Arrives v 0 N ends :=
  fun hp => absurd hp not_possible_zero

lemma after (hp : Possible p → Reached v p N M) (h : Arrives v q M ends) :
    Arrives v (p * q) N ends := by
  intro hpq
  obtain ⟨stop, hstop, hreached⟩ := h (possible_mul.1 hpq).2
  exact ⟨stop, hstop, (hp (possible_mul.1 hpq).1).mul hreached⟩

lemma add (h : Arrives v p N ends) (h' : Arrives v q N ends) : Arrives v (p + q) N ends := by
  intro hpq
  rcases possible_add.1 hpq with hp | hq
  · obtain ⟨stop, hstop, hreached⟩ := h hp
    exact ⟨stop, hstop, hreached.inl⟩
  · obtain ⟨stop, hstop, hreached⟩ := h' hq
    exact ⟨stop, hstop, hreached.inr⟩

lemma ending (h : Arrives v p N ends) (hends : ∀ stop, ends stop → ∃ stop', ends' stop' ∧ stop ⊆ stop') :
    Arrives v p N ends' := by
  intro hp
  obtain ⟨stop, hstop, hreached⟩ := h hp
  obtain ⟨stop', hstop', hsub⟩ := hends stop hstop
  exact ⟨stop', hstop', hreached.mono subset_rfl hsub⟩

lemma imp (h : Arrives v p N ends) (hends : ∀ stop, ends stop → ends' stop) : Arrives v p N ends' :=
  h.ending fun stop hstop => ⟨stop, hends stop hstop, subset_rfl⟩

lemma mono (h : Arrives v p N ends) (hM : M ⊆ N) : Arrives v p M ends := by
  intro hp
  obtain ⟨stop, hstop, hreached⟩ := h hp
  exact ⟨stop, hstop, hreached.mono hM subset_rfl⟩

end Arrives

/-- What a part of the code leaves behind that was checked from where the names `start` are bound:
the reads in it were passed, and some path that leaves it at its end, or by a jump, reaches an end of
it or a scope recorded for a jump. -/
structure Walked (cx : Context) (v : String) (nodes : List NodeId) (upTo : NodeId → Language String)
    (leaves : Way → Language String) (start : Set String) (ends : Set String → Prop)
    (st st' : State) : Prop where
  ran : Ran cx v nodes nodes upTo start st st'
  kept : Kept st st'
  falls : Arrives v (leaves .normal) start ends
  jumps : ∀ way, way ≠ .normal → st.breaks ≠ [] → Arrives v (leaves way) start st'.Leaves

namespace Walked

variable {nodes nodes' : List NodeId} {upTo upTo' : NodeId → Language String}
  {leaves leaves' : Way → Language String} {N M K : Set String} {ends ends' : Set String → Prop}
  {first : Language String}

lemma atOnce (hquiet : Quiet st st') (hends : ends N) :
    Walked cx v [] (fun _ => 0) Way.atOnce N ends st st' where
  ran := .nothing hquiet
  kept := .of_quiet hquiet
  falls _ := ⟨N, hends, .nothing subset_rfl⟩
  jumps := Way.forall_jumps (fun _ => .of_zero) fun _ => .of_zero

lemma andThen (h : Walked cx v nodes upTo leaves N ends st st1)
    (h' : Walked cx v nodes' upTo' leaves' M ends' st1 st2) (hends : ∀ stop, ends stop → stop = M)
    (hdisjoint : nodes.Disjoint nodes') :
    Walked cx v (nodes ++ nodes') (fun read => upTo read + leaves .normal * upTo' read)
      (Way.andThen leaves leaves') N (fun stop => ends M ∧ ends' stop) st st2 := by
  have hfirst : Possible (leaves .normal) → ends M ∧ Reached v (leaves .normal) N M := by
    intro hp
    obtain ⟨stop, hstop, hreached⟩ := h.falls hp
    obtain rfl := hends stop hstop
    exact ⟨hstop, hreached⟩
  refine ⟨h.ran.andThen h'.ran (fun hp => (hfirst hp).2) hdisjoint, h.kept.trans h'.kept, ?_, ?_⟩
  · intro hp
    have hfalls : Arrives v (leaves' .normal) M fun stop => ends M ∧ ends' stop :=
      h'.falls.imp fun _ hstop => ⟨(hfirst (possible_mul.1 hp).1).1, hstop⟩
    exact hfalls.after (fun hp => (hfirst hp).2) hp
  · intro way hway hbreaks
    rw [Way.andThen_of_ne hway]
    exact ((h.jumps way hway hbreaks).imp fun _ => h'.kept.leaves).add <|
      (h'.jumps way hway (h.kept.breaks_ne_nil hbreaks)).after fun hp => (hfirst hp).2

lemma either {second : Language String} (h : Walked cx v nodes upTo leaves M ends st st1)
    (h' : Walked cx v nodes' upTo' leaves' K ends' st1 st2) (hfirst : Reached v first N M)
    (hsecond : Reached v second N K) (hdisjoint : nodes.Disjoint nodes') :
    Walked cx v (nodes ++ nodes') (fun read => first * upTo read + second * upTo' read)
      (fun way => first * leaves way + second * leaves' way) N (fun stop => ends stop ∨ ends' stop)
      st st2 where
  ran := (h.ran.after fun _ => hfirst).both (h'.ran.after fun _ => hsecond) hdisjoint
  kept := h.kept.trans h'.kept
  falls := ((h.falls.imp fun _ => .inl).after fun _ => hfirst).add
    ((h'.falls.imp fun _ => .inr).after fun _ => hsecond)
  jumps way hway hbreaks :=
    (((h.jumps way hway hbreaks).imp fun _ => h'.kept.leaves).after fun _ => hfirst).add
      ((h'.jumps way hway (h.kept.breaks_ne_nil hbreaks)).after fun _ => hsecond)

lemma behind (hran : Ran cx v nodes nodes upTo N st st1) (hkept : Kept st st1)
    (h : Walked cx v nodes' upTo' leaves N ends st1 st2) (hdisjoint : nodes.Disjoint nodes') :
    Walked cx v (nodes ++ nodes') (fun read => upTo read + upTo' read) leaves N ends st st2 where
  ran := hran.both h.ran hdisjoint
  kept := hkept.trans h.kept
  falls := h.falls
  jumps way hway hbreaks := h.jumps way hway (hkept.breaks_ne_nil hbreaks)

lemma passing (hran : Ran cx v nodes nodes upTo M st st1) (hkept : Kept st st1)
    (h : Walked cx v nodes' upTo' leaves N ends st1 st2) (hdisjoint : nodes.Disjoint nodes') :
    Walked cx v (nodes ++ nodes') upTo' leaves N ends st st2 := by
  simpa only [zero_add] using behind hran.skip hkept h hdisjoint

lemma after (h : Walked cx v nodes upTo leaves M ends st st') (hfirst : Reached v first N M) :
    Walked cx v nodes (fun read => first * upTo read) (fun way => first * leaves way) N ends st st' where
  ran := h.ran.after fun _ => hfirst
  kept := h.kept
  falls := h.falls.after fun _ => hfirst
  jumps way hway hbreaks := (h.jumps way hway hbreaks).after fun _ => hfirst

lemma or (h : Walked cx v nodes upTo leaves N ends st st')
    (h' : Walked cx v nodes upTo' leaves' N ends st st') :
    Walked cx v nodes (fun read => upTo read + upTo' read) (fun way => leaves way + leaves' way) N ends
      st st' where
  ran := h.ran.or h'.ran
  kept := h.kept
  falls := h.falls.add h'.falls
  jumps way hway hbreaks := (h.jumps way hway hbreaks).add (h'.jumps way hway hbreaks)

lemma mono (h : Walked cx v nodes upTo leaves M ends st st') (hN : N ⊆ M) :
    Walked cx v nodes upTo leaves N ends st st' where
  ran := h.ran.mono (fun _ => id) hN
  kept := h.kept
  falls := h.falls.mono hN
  jumps way hway hbreaks := (h.jumps way hway hbreaks).mono hN

lemma congr (h : Walked cx v nodes upTo leaves N ends st1 st2) (hbefore : Quiet st st1)
    (hbehind : Quiet st2 st') : Walked cx v nodes upTo leaves N ends st st' where
  ran := h.ran.congr hbefore hbehind
  kept := ((Kept.of_quiet hbefore).trans h.kept).trans (.of_quiet hbehind)
  falls := h.falls
  jumps way hway hbreaks := (h.jumps way hway ((Kept.of_quiet hbefore).breaks_ne_nil hbreaks)).imp
    fun _ => (Kept.of_quiet hbehind).leaves

lemma ending (h : Walked cx v nodes upTo leaves N ends st st')
    (hends : ∀ stop, ends stop → ∃ stop', ends' stop' ∧ stop ⊆ stop') :
    Walked cx v nodes upTo leaves N ends' st st' where
  ran := h.ran
  kept := h.kept
  falls := h.falls.ending hends
  jumps := h.jumps

end Walked

/-- The step checks statements as the paths through them say. -/
def Walks (cx : Context) (v : String) (levels : Nat) (step : Analysis Flow) (nodes : List NodeId)
    (upTo : NodeId → Language String) (leaves : Way → Language String) : Prop :=
  ∀ ⦃st : State⦄ ⦃flow : Flow⦄ ⦃st' : State⦄, step cx st = some (flow, st') →
    Ready cx nodes levels st →
      Walked cx v nodes upTo leaves st.bound (fun stop => flow = .normal ∧ stop = st'.bound) st st'

/-- The step is a check of the statement. -/
abbrev WalksCmd (cx : Context) (v : String) (order : Order) (c : Cmd) (step : Analysis Flow) : Prop :=
  Walks cx v c.depth step c.nodes (fun read => c.upTo order read) (c.leaves order)

/-- The statements are checked as the paths through them say. -/
abbrev WalksBody (cx : Context) (v : String) (n : Nat) (order : Order) (cs : Cmds) : Prop :=
  Walks cx v cs.depth ((evaluator n).checkAll cs.ids) cs.nodes (fun read => cs.upTo order read)
    (cs.leaves order)

section Rules

variable {nodes : List NodeId} {upTo : NodeId → Language String}
  {leaves : Way → Language String} {N : Set String} {ends : Set String → Prop}
  {levels : Nat} {flow : Flow} {order : Order} {e c : Exp} {es : Exps} {body : Cmds} {rest : Chain}
  {stmt : Stmt} {doc : Option String} {s t f : Scope} {outcomes : List Outcome}

/-! ## Simple statements -/

lemma varName?_of_stmt? (hstmt : cx.arena.stmt? id = some stmt) :
    cx.arena.varName? id = none := by
  rw [Arena.varName?, Arena.expr?_of_stmt? hstmt]

lemma Walks.around (hstmt : cx.arena.stmt? id = some stmt)
    (h : ∀ m, Walks cx v levels ((evaluator m).checkStmt id stmt) nodes upTo leaves) :
    Walks cx v levels ((evaluator n).check id) nodes upTo leaves := by
  intro st flow st' hcheck hready
  obtain ⟨m, st1, -, hrun, rfl⟩ := check_inside hstmt hcheck
  have hquiet : Quiet st (st.enterStmt id) := ⟨rfl, rfl, rfl, rfl⟩
  obtain ⟨hran, hkept, hfalls, hjumps⟩ := h m hrun (hready.quiet hquiet)
  have hran : Ran cx v nodes nodes upTo st.bound st st1 := hran.congr hquiet (.refl _)
  refine ⟨hran.record (.visited (st1.visitOf id none)) rfl ?_ rfl, ⟨hkept.grows, hkept.depth⟩, hfalls,
    hjumps⟩
  rintro visit ⟨⟩
  exact varName?_of_stmt? hstmt

lemma Walked.plain (hran : Ran cx v nodes nodes upTo N st st') (hkept : Kept st st')
    (hleaves : ∀ way, way ≠ .normal → leaves way = 0)
    (hfalls : Arrives v (leaves .normal) N ends) : Walked cx v nodes upTo leaves N ends st st' where
  ran := hran
  kept := hkept
  falls := hfalls
  jumps way hway _ := hleaves way hway ▸ .of_zero

lemma quiet_applyDoc {expr : NodeId}
    (h : applyDoc id expr doc cx st = some ((), st')) : Quiet st st' ∧ st.bound ⊆ st'.bound := by
  cases doc with
  | none =>
    cases h
    exact ⟨.refl _, subset_rfl⟩
  | some doc =>
    rw [applyDoc, applyVarDoc_eq] at h
    obtain ⟨assigned, st1, hassigned, hdeclare⟩ := of_bind h
    obtain rfl : st1 = st := by
      replace hassigned := bind_rest hassigned rfl
      cases hat : cx.arena.expr? expr with
      | none =>
        rw [hat] at hassigned
        exact (of_pure hassigned).2
      | some e =>
        rw [hat] at hassigned
        cases e <;> (cases hassigned; rfl)
    cases hdeclared : Docblock.declared? doc assigned with
    | none =>
      rw [hdeclared] at hdeclare
      cases hdeclare
      exact ⟨.refl _, subset_rfl⟩
    | some declared =>
      rw [hdeclared] at hdeclare
      obtain ⟨type, st2, htype, hrest⟩ := of_bind hdeclare
      obtain rfl : st2 = st1 := by
        replace htype := bind_rest htype rfl
        cases hcls : st1.stack.class? <;> rw [hcls] at htype <;> exact (of_pure htype).2
      have hoverride := bind_rest hrest rfl
      obtain ⟨hquiet, hbound⟩ := quiet_onScope hoverride
      rw [Scope.names_overrideType] at hbound
      exact ⟨hquiet, hbound ▸ Set.subset_insert ..⟩

lemma flowAt_run (hin : e.In cx) (st : State) : flowAt e.id cx st = some (.normal, st) := by
  have hexpr : ∃ expr, cx.arena.expr? e.id = some expr ∧ (∀ c, expr ≠ .exit c) ∧
      ∀ c, expr ≠ .throwExpr c := by
    cases e with
    | var => exact ⟨_, hin, by rintro c ⟨⟩, by rintro c ⟨⟩⟩
    | literal =>
      obtain ⟨expr, he, hliteral⟩ := hin
      exact ⟨expr, he, (by rintro c rfl; cases hliteral), by rintro c rfl; cases hliteral⟩
    | each =>
      obtain ⟨⟨expr, he, heach⟩, -⟩ := hin
      exact ⟨expr, he, (by rintro c rfl; cases heach), by rintro c rfl; cases heach⟩
    | assign | not | choice | short => exact ⟨_, hin.1, by rintro c ⟨⟩, by rintro c ⟨⟩⟩
    | and | or =>
      obtain ⟨⟨op, he, -⟩, -⟩ := hin
      exact ⟨_, he, by rintro c ⟨⟩, by rintro c ⟨⟩⟩
  obtain ⟨expr, he, hexit, hthrow⟩ := hexpr
  unfold flowAt
  rw [bind_run (show exprAt e.id cx st = some (some expr, st) by rw [exprAt, ← he]; rfl)]
  cases expr <;> first | rfl | exact absurd rfl (hexit _) | exact absurd rfl (hthrow _)

lemma Exp.visited (hin : e.In cx) (hready : Ready cx e.nodes e.height st)
    (h : (evaluator n).visit e.id cx st = some ((), st')) :
    Ran cx v e.nodes e.nodes (fun read => e.upTo read) st.bound st st' ∧ Kept st st' ∧
      Reached v e.ends st.bound st'.bound := by
  obtain ⟨type, hinfer⟩ := visit_eq_some.1 h
  obtain ⟨hran, hends, -⟩ := e.traced hin hinfer hready
  exact ⟨hran, kept_infer hinfer, (hends true).inl⟩

lemma walks_expr (hin : e.In cx) :
    WalksCmd cx v order (.expr id e) ((evaluator n).checkExprStmt id e.id doc) := by
  intro st flow st' h hready
  rw [checkExprStmt_eq] at h
  obtain ⟨⟨⟩, st1, hvisit, h⟩ := of_bind h
  obtain ⟨⟨⟩, st2, hdoc, h⟩ := of_bind h
  rw [flowAt_run hin] at h
  cases h
  obtain ⟨hran, hkept, hends⟩ := Exp.visited hin hready hvisit
  obtain ⟨hquiet, hbound⟩ := quiet_applyDoc hdoc
  exact .plain (hran.quiet hquiet) (hkept.trans (.of_quiet hquiet)) (Way.forall_jumps rfl rfl) fun _ =>
    ⟨_, ⟨rfl, rfl⟩, hends.mono subset_rfl hbound⟩

lemma walks_visitAll (hin : es.In cx) (hleaves : ∀ way, way ≠ .normal → leaves way = 0)
    (hnormal : Possible (leaves .normal) → flow = .normal ∧ leaves .normal = es.all) :
    Walks cx v es.height (do (evaluator n).visitAll es.ids; return flow) es.nodes
      (fun read => es.upTo read) leaves := by
  intro st flow' st' h hready
  obtain ⟨⟨⟩, hvisit, rfl⟩ := of_result h
  obtain ⟨hran, hall⟩ := es.traced hin hready hvisit
  refine .plain hran (kept_visitAll hvisit) hleaves fun hp => ?_
  obtain ⟨hflow, hleaves⟩ := hnormal hp
  exact ⟨_, ⟨hflow, rfl⟩, hleaves ▸ hall⟩

lemma walks_echo (hin : es.In cx) :
    Walks cx v es.height (do (evaluator n).visitAll es.ids; return .normal) es.nodes
      (fun read => es.upTo read) (Way.toEnd es.all) :=
  walks_visitAll hin (Way.forall_jumps rfl rfl) fun _ => ⟨rfl, rfl⟩

lemma walks_ret {e : Option NodeId} (he : e.toList = es.ids) (hin : es.In cx) :
    WalksCmd cx v order (.ret id es) (do (evaluator n).visit? e; return .exit) := by
  rw [visit?_eq, he]
  exact walks_visitAll hin (Way.forall_jumps rfl rfl) fun hp => absurd hp not_possible_zero

lemma walks_jump (hnormal : leaves .normal = 0)
    (hjump : ∀ way, Possible (leaves way) → leaves way = 1) :
    Walks cx v levels checkJump [] (fun _ => 0) leaves := by
  intro st flow st' h hready
  have hkept : Kept st st' := ⟨breaksGrow.checkJump h, (stackKept.checkJump h).2⟩
  obtain ⟨s, st1, hfork, h⟩ := of_bind h
  obtain ⟨hquiet, -, hnames⟩ := quiet_forkCurrent hfork
  obtain ⟨⟨⟩, hrecord, -⟩ := of_result h
  have hrecorded : st'.events = st1.events ∧ st'.table = st1.table ∧
      (st1.breaks ≠ [] → s ∈ st'.frame) := by
    rw [recordBreak_run] at hrecord
    split at hrecord <;> cases hrecord
    · next hb => exact ⟨rfl, rfl, absurd hb⟩
    · exact ⟨rfl, rfl, fun _ => by simp [frame]⟩
  obtain ⟨hevents, htable, hframe⟩ := hrecorded
  refine ⟨.silent (hevents.trans hquiet.events) fun _ _ => ?_, hkept, hnormal ▸ .of_zero, ?_⟩
  · rw [htable, hquiet.table]
  · intro way hway hbreaks hp
    refine ⟨_, ⟨s, hframe ((Kept.of_quiet hquiet).breaks_ne_nil hbreaks), hnames⟩, ?_⟩
    rw [hjump way hp]
    exact .nothing subset_rfl

/-! ## Branches -/

lemma Walks.inScope {step : Analysis Flow} {after : Scope}
    (hstep : Walks cx v levels step nodes upTo leaves)
    (h : inScope s step cx st = some ((flow, after), st'))
    (hready : Ready cx nodes levels st) :
    Walked cx v nodes upTo leaves s.names (fun stop => flow = .normal ∧ stop = after.names) st st' ∧
      st'.bound = st.bound := by
  obtain ⟨inner, hrun, rfl, rfl⟩ := inScope_eq_some.1 h
  have hwalked := hstep hrun (hready.quiet (quiet_within s))
  rw [bound_within] at hwalked
  exact ⟨hwalked.congr (quiet_within s) (quiet_within _), bound_within ..⟩

lemma Walks.checkIn {o : Outcome}
    (hbody : Walks cx v levels ((evaluator n).checkAll ids) nodes upTo leaves)
    (h : (evaluator n).checkIn s ids cx st = some (o, st')) (hready : Ready cx nodes levels st) :
    Walked cx v nodes upTo leaves s.names (fun stop => o.flow = .normal ∧ stop = o.scope.names) st st' ∧
      st'.bound = st.bound := by
  obtain ⟨⟨flow, after⟩, hin, rfl⟩ := of_result h
  exact hbody.inScope hin hready

lemma Exp.split (hin : c.In cx) (hready : Ready cx c.nodes c.height st)
    (h : ((evaluator n).visit c.id >>= fun _ => branchScopes c.id) cx st = some ((t, f), st')) :
    Ran cx v c.nodes c.nodes (fun read => c.upTo read) st.bound st st' ∧ Kept st st' ∧
      Reached v (c.on true) st.bound t.names ∧ Reached v (c.on false) st.bound f.names := by
  obtain ⟨⟨⟩, st1, hvisit, hscopes⟩ := of_bind h
  obtain ⟨type, hinfer⟩ := visit_eq_some.1 hvisit
  obtain ⟨hran, -, houtcomes⟩ := c.traced hin hinfer hready
  obtain ⟨hquiet, -, htrue, hfalse⟩ := quiet_branchScopes hscopes
  exact ⟨hran.quiet hquiet, (kept_infer hinfer).trans (.of_quiet hquiet), htrue ▸ houtcomes true,
    hfalse ▸ houtcomes false⟩

lemma quiet_rejoin {paths : List Scope} {dead : List Outcome} {fallback : Flow}
    (h : rejoin paths dead fallback cx st = some (flow, st')) :
    Quiet st st' ∧ ∀ s ∈ paths, flow = .normal ∧ s.names ⊆ st'.bound := by
  refine ⟨?_, fun s hs => ⟨?_, fun x hx => (contains_rejoin h x).2 (.inl ⟨s, hs, hx⟩)⟩⟩
  · cases paths with
    | nil =>
      cases h
      exact ⟨rfl, rfl, rfl, rfl⟩
    | cons first rest =>
      cases h
      exact ⟨rfl, rfl, rfl, rfl⟩
  · cases paths with
    | nil => cases hs
    | cons first rest =>
      cases h
      rfl

/-- The step runs branches from a scope as the paths through them say. -/
def Forks (cx : Context) (v : String) (levels : Nat) (step : Scope → Analysis (List Outcome)) (nodes : List NodeId)
    (upTo : NodeId → Language String) (leaves : Way → Language String) : Prop :=
  ∀ ⦃st : State⦄ ⦃s : Scope⦄ ⦃outcomes : List Outcome⦄ ⦃st' : State⦄,
    step s cx st = some (outcomes, st') → Ready cx nodes levels st →
      Walked cx v nodes upTo leaves s.names
        (fun stop => ∃ o ∈ outcomes, o.flow = .normal ∧ stop = o.scope.names) st st'

abbrev ForksChain (cx : Context) (v : String) (n : Nat) (order : Order) (rest : Chain) : Prop :=
  Forks cx v rest.depth ((evaluator n).chainOutcomes rest.elseIfs rest.elseBranch) rest.nodes
    (fun read => rest.upTo order read) (rest.leaves order)

lemma Walked.branches (hran : Ran cx v c.nodes c.nodes (fun read => c.upTo read) N st st1)
    (hkept : Kept st st1) (htrue : Reached v (c.on true) N t.names)
    (hfalse : Reached v (c.on false) N f.names)
    (hready : Ready cx (c.nodes ++ (body.nodes ++ rest.nodes))
      (max c.height (max body.depth rest.depth)) st) (hbody : WalksBody cx v n order body)
    (hrest : ForksChain cx v n order rest) (h : (do
      let first ← (evaluator n).checkIn t body.ids
      let others ← (evaluator n).chainOutcomes rest.elseIfs rest.elseBranch f
      return first :: others) cx st1 = some (outcomes, st')) :
    Walked cx v (c.nodes ++ (body.nodes ++ rest.nodes))
      (fun read => c.upTo read + (c.on true * body.upTo order read + c.on false * rest.upTo order read))
      (fun way => c.on true * body.leaves order way + c.on false * rest.leaves order way) N
      (fun stop => ∃ o ∈ outcomes, o.flow = .normal ∧ stop = o.scope.names) st st' := by
  obtain ⟨first, st2, hfirst, h⟩ := of_bind h
  obtain ⟨others, hothers, rfl⟩ := of_result h
  have hready1 := hready.after hran hkept.depth
  obtain ⟨hwalked, -⟩ := hbody.checkIn hfirst hready1.left
  have hothers := hrest hothers (hready1.after hwalked.ran hwalked.kept.depth)
  have hboth := hwalked.either hothers htrue hfalse hready1.disjoint
  refine (Walked.behind hran hkept hboth hready.disjoint).ending ?_
  rintro stop (⟨hflow, rfl⟩ | ⟨o, ho, hflow, rfl⟩)
  · exact ⟨_, ⟨first, .head _, hflow, rfl⟩, subset_rfl⟩
  · exact ⟨_, ⟨o, .tail _ ho, hflow, rfl⟩, subset_rfl⟩

lemma Walked.rejoin (h : Walked cx v nodes upTo leaves N
      (fun stop => ∃ o ∈ outcomes, o.flow = .normal ∧ stop = o.scope.names) st st1)
    (hrejoin : rejoinAll outcomes cx st1 = some (flow, st')) :
    Walked cx v nodes upTo leaves N (fun stop => flow = .normal ∧ stop = st'.bound) st st' := by
  obtain ⟨hquiet, hpaths⟩ := quiet_rejoin hrejoin
  refine (h.congr (.refl _) hquiet).ending ?_
  rintro stop ⟨o, ho, hflow, rfl⟩
  have hlive : o.scope ∈ (outcomes.filter isLive).map scope :=
    mem_map_of_mem (mem_filter.2 ⟨ho, by rw [isLive, hflow]; rfl⟩)
  obtain ⟨hflow, hsub⟩ := hpaths _ hlive
  exact ⟨_, ⟨hflow, rfl⟩, hsub⟩

lemma walks_branch (hin : c.In cx) (hbody : WalksBody cx v n order body)
    (hrest : ForksChain cx v n order rest) :
    WalksCmd cx v order (.branch id c body rest)
      ((evaluator n).checkIf c.id body.ids rest.elseIfs rest.elseBranch) := by
  intro st flow st' h hready
  rw [checkIf_eq, ifOutcomes_eq] at h
  obtain ⟨outcomes, st2, houtcomes, hrejoin⟩ := of_bind h
  obtain ⟨⟨t, f⟩, st1, hsplit, houtcomes⟩ := of_bind houtcomes
  obtain ⟨hran, hkept, htrue, hfalse⟩ := Exp.split hin hready.left hsplit
  exact (Walked.branches hran hkept htrue hfalse hready hbody hrest houtcomes).rejoin hrejoin

lemma forks_none : ForksChain cx v n order .none := by
  intro st s outcomes st' h hready
  cases h
  exact .atOnce (.refl _) ⟨_, .head _, rfl, rfl⟩

lemma forks_otherwise (hbody : WalksBody cx v n order body) :
    ForksChain cx v n order (.otherwise body) := by
  intro st s outcomes st' h hready
  replace h := bind_rest h rfl
  obtain ⟨o, hcheck, rfl⟩ := of_result h
  obtain ⟨hwalked, -⟩ := hbody.checkIn hcheck hready
  refine hwalked.ending ?_
  rintro stop ⟨hflow, rfl⟩
  exact ⟨_, ⟨o, .head _, hflow, rfl⟩, subset_rfl⟩

lemma forks_elseIf (hin : c.In cx) (hbody : WalksBody cx v n order body)
    (hrest : ForksChain cx v n order rest) : ForksChain cx v n order (.elseIf c body rest) := by
  intro st s outcomes st' h hready
  rw [Chain.elseIfs, Chain.elseBranch, chainOutcomes_cons] at h
  obtain ⟨⟨⟨t, f⟩, after⟩, st1, hscope, h⟩ := of_bind h
  obtain ⟨inner, hsplit, -, rfl⟩ := inScope_eq_some.1 hscope
  obtain ⟨hran, hkept, htrue, hfalse⟩ := Exp.split hin (hready.left.quiet (quiet_within s)) hsplit
  rw [bound_within] at hran htrue hfalse
  have hkept : Kept st (inner.within st.stack.current) :=
    ((Kept.of_quiet (quiet_within s)).trans hkept).trans (.of_quiet (quiet_within _))
  exact Walked.branches (hran.congr (quiet_within s) (quiet_within _)) hkept htrue hfalse hready hbody
    hrest h

end Rules

end Definite

end FlowTyping

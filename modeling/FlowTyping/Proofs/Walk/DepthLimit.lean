import FlowTyping.Proofs.Walk.Engine

/-!
# References in cycles

The references between expressions may lead in a circle: evaluation goes round it until the limit of
depth is reached, and nothing is known of what is nested deeper.  Not every reference counts as a
level, though.  The container of an element, the elements of a list that is assigned to, and the parts
of a statement are turned to on the level of the node itself, and where these lead in a circle nothing
stops the evaluation.

**Levels.**  `EndsAt cx k` is about the states of depth `k`.  What is evaluated ends on a level where
its parts end on the next one (`EndsAt.inferNode`); what is turned to on the level itself ends by
induction on how far it leads (`traverser_of_infer`).
-/

namespace FlowTyping

open Analysis Arena Context Evaluator Judgement State

variable {α : Type} {cx : Context} {k n : Nat} {m : Analysis α} {a : α}

/-- The step has a result in every state of depth `k`, and keeps the depth. -/
def EndsAt {α : Type} (cx : Context) (k : Nat) (m : Analysis α) : Prop :=
  ∀ ⦃st : State⦄, st.depth = k → ∃ a st', m cx st = some (a, st') ∧ st'.depth = k

namespace EndsAt

variable {β : Type} {f : α → Analysis β}

lemma quiet (h : Quiet cx m) : EndsAt cx k m := by
  rintro st rfl
  obtain ⟨a, st', hrun, hdepth, -⟩ := @h st
  exact ⟨a, st', hrun, hdepth⟩

lemma pure : EndsAt cx k (Pure.pure a : Analysis α) :=
  quiet fun _ => ⟨_, _, rfl, rfl, rfl⟩

lemma bind (hm : EndsAt cx k m) (hf : ∀ a, EndsAt cx k (f a)) : EndsAt cx k (m >>= f) := by
  intro st hst
  obtain ⟨a, st1, h1, hst1⟩ := hm hst
  obtain ⟨b, st2, h2, hst2⟩ := hf a hst1
  exact ⟨b, st2, (bind_run h1).trans h2, hst2⟩

lemma looking (h : ∀ st, m cx st = some (a, st)) (hf : EndsAt cx k (f a)) :
    EndsAt cx k (m >>= f) := by
  intro st hst
  rw [bind_run (h st)]
  exact hf hst

end EndsAt

variable {ev : Evaluator} {id : NodeId}

lemma endsAt_cumulative : Cumulative cx fun _ _ m => EndsAt cx k m where
  mono hm _ := hm
  bind := EndsAt.bind
  reads hm hf st hst := hm st ▸ hf st hst
  quiet := EndsAt.quiet

/-! ## Nodes -/

namespace EndsAt

lemma recordVisit (id : NodeId) (type : Option Ty) : EndsAt cx k (recordVisit id type) := by
  refine looking (fun _ => rfl) ?_
  split
  · rintro st rfl
    exact ⟨_, _, rfl, rfl⟩
  · exact .pure

lemma inferNode (h : k < cx.options.maxDepth.toNat → ∀ e, cx.arena.expr? id = some e →
      EndsAt cx (k + 1) (ev.inferExpr id e)) : EndsAt cx k (ev.inferNode id) := by
  rintro st rfl
  by_cases hcut : id = NodeId.absent ∨ cx.options.maxDepth.toNat ≤ st.depth
  · exact ⟨_, _, inferNode_of_depth_le hcut, rfl⟩
  rw [not_or, Nat.not_le] at hcut
  cases he : cx.arena.expr? id with
  | some e =>
    obtain ⟨type, st', hrun, hdepth⟩ := @h hcut.2 e he (st.enterNode id) rfl
    refine ⟨type, st'.leaveNode id type, ?_, ?_⟩
    · rw [inferNode_run he hcut.2, hrun]
      rfl
    · show st'.depth - 1 = st.depth
      rw [hdepth, Nat.add_sub_cancel]
  | none =>
    obtain hrun | hrun : ev.inferNode id cx st = some (none, st) ∨ _ :=
      inferNode_of_expr?_none he
    · exact ⟨_, _, hrun, rfl⟩
    · exact ⟨_, _, hrun, rfl⟩

lemma checkNode (hself : EndsAt cx k (ev.infer id)) (h : ∀ stmt, cx.arena.stmt? id = some stmt →
      EndsAt cx k (ev.checkStmt id stmt)) : EndsAt cx k (ev.checkNode id) := by
  refine looking (fun _ => rfl) ?_
  split
  · exact (hself.bind fun _ => .pure).bind fun _ => .pure
  · next stmt hstmt =>
    exact (quiet (.modifyStack _)).bind fun _ => (h stmt hstmt).bind fun _ =>
      (recordVisit ..).bind fun _ => (quiet (.modifyStack _)).bind fun _ => .pure

lemma checkFile (hself : EndsAt cx k (ev.check id)) (hall : ∀ file stmts,
      cx.arena.stmt? id = some (.sourceFile file stmts) → EndsAt cx k (ev.checkAll stmts)) :
    EndsAt cx k (ev.checkFile id) := by
  refine looking (fun _ => rfl) ?_
  split
  · next hfile =>
    exact (quiet (.modifyStack _)).bind fun _ => (hall _ _ hfile).bind fun _ => .quiet (.modifyStack _)
  · exact hself.bind fun _ => .pure
  · exact .pure

end EndsAt

/-! ## Levels -/

/-- What is turned to on one level ends where its expressions end there. -/
lemma traverser_of_infer {b h : Nat} (hsize : h ≤ cx.arena.size + 1)
    (hinfer : ∀ n, b ≤ n → ∀ id, EndsAt cx k ((evaluator n).infer id)) (hn : b + h ≤ n) :
    Traverser (fun _ => True) cx (fun _ => True) (fun id => cx.arena.endsLoosely h id = true)
      (evaluator n) (held fun _ _ m => EndsAt cx k m) := by
  have hall := hinfer n (by omega)
  induction h generalizing n with
  | zero =>
    exact
      { toHolding := endsAt_cumulative.structural.holding
        declares := declaresIn_true _
        read_of_ok := nofun
        see := fun _ => hall _
        check := nofun
        assign := nofun
        writeInto := nofun
        compact := nofun
        recordWriteAt := nofun
        parts := nofun }
  | succ h ih =>
    obtain ⟨m, rfl⟩ : ∃ m, n = m + 1 := ⟨n - 1, by omega⟩
    have hlevel := hinfer m (by omega)
    have hev := ih (n := m) (by omega) (by omega) hlevel
    have hloose {id : NodeId} {e : Expr} (hid : cx.arena.endsLoosely (h + 1) id = true)
        (he : cx.arena.expr? id = some e) (c : NodeId) (hc : c ∈ e.looseParts) :
        cx.arena.endsLoosely h c = true :=
      endsLoosely_of_looseParts hid (looseParts_of_expr? he ▸ hc)
    exact
      { toHolding := endsAt_cumulative.structural.holding
        declares := declaresIn_true _
        read_of_ok := fun _ => trivial
        see := fun _ => hall _
        check := fun hid => EndsAt.checkNode (hlevel _) fun stmt hstmt => by
          have hparts : ∀ c ∈ stmt.allParts, cx.arena.endsLoosely h c = true := fun c hc =>
            endsLoosely_of_looseParts hid (looseParts_of_stmt? hstmt ▸ hc)
          exact hev.checkStmt hev endsAt_cumulative.encloses.held _ (Ty.closed_true.nodeDeclaresIn _)
            (fun c hc => hparts c (Stmt.mem_allParts hc)) hparts fun _ => .quiet .checkJump
        assign := fun hid _ ht line => hev.stepwise.assignTo
          (fun he _ hm => hm (fun _ _ => trivial) (hloose hid he)) (hlevel _) ht line
        writeInto := fun hid => hev.stepwise.writeIntoBase
          (fun he _ hm => hm (fun _ _ => trivial) (hloose hid he)) (hlevel _)
        compact := fun hid => hev.stepwise.compactArg fun _ he => hloose hid he
        recordWriteAt := fun hid _ ht line => endsAt_cumulative.sequential.typed.recordWrite
          (fun _ _ => trivial) ht line fun _ _ he hnone =>
            absurd hnone (container?_ne_none hsize hid he)
        parts := fun _ _ hm => hm fun c _ => hall c }

/-- What an expression may write to or run leads to an end on its level. -/
def Arena.LooselyNested (arena : Arena) : Prop :=
  ∀ id, ∀ part ∈ arena.partsOf id, part ∈ arena.targetsOf id →
    arena.endsLoosely (arena.size + 1) part = true

instance {arena : Arena} : Decidable arena.LooselyNested :=
  decidablePartsOf

/-- Expressions end on a level where `j` levels are left at most. -/
lemma endsAt_infer (hnest : cx.arena.LooselyNested) {j : Nat}
    (hk : cx.options.maxDepth.toNat ≤ k + j) (hn : j * (cx.arena.size + 2) + 1 ≤ n) (id : NodeId) :
    EndsAt cx k ((evaluator n).infer id) := by
  induction j generalizing k n id with
  | zero =>
    obtain ⟨m, rfl⟩ : ∃ m, n = m + 1 := ⟨n - 1, by omega⟩
    exact EndsAt.inferNode fun hlt => absurd hk (by omega)
  | succ j ih =>
    rw [Nat.add_mul] at hn
    obtain ⟨m, rfl⟩ : ∃ m, n = m + 1 := ⟨n - 1, by omega⟩
    refine EndsAt.inferNode fun _ e he => ?_
    have hev := traverser_of_infer le_rfl
      (fun n hn => ih (k := k + 1) (n := n) (by omega) hn) (n := m) (by omega)
    have hends (c : NodeId) (hc : c ∈ e.children) (htarget : c ∈ e.args ++ e.places) :
        cx.arena.endsLoosely (cx.arena.size + 1) c = true :=
      hnest id c (partsOf_of_expr? he ▸ hc) (by rwa [targetsOf, he])
    exact hev.inferExpr id (Ty.closed_true.nodeDeclaresIn _) (fun _ _ => trivial)
      (fun c hc => hends c (Expr.forall_args (fun _ hc => hc) c hc) (List.mem_append_left _ hc))
      fun c hc => hends c (Expr.forall_places (fun _ hc => hc) c hc) (List.mem_append_right _ hc)

lemma EndsAt.isSome (h : ∀ k, EndsAt cx k m) (st : State) : (m cx st).isSome = true := by
  obtain ⟨a, st', hrun, -⟩ := h st.depth rfl
  rw [hrun]
  rfl

/-- References between expressions may lead in circles, and whatever the limit of depth and the state,
the evaluation of an expression comes to an end, where what expressions write to or run leads to an
end on its level.  So do writes to such targets and containers, the marks of names that are packed,
and the checks of such statements, and there is an analysis of the whole file. -/
theorem SourceUnit.ends_of_looselyNested {unit : SourceUnit} (hnest : unit.arena.LooselyNested)
    (index : Index) (options : Options) {n : Nat}
    (hn : (options.maxDepth.toNat + 1) * (unit.arena.size + 2) ≤ n) :
    (∀ id st, ((evaluator n).infer id ⟨unit.arena, index, options⟩ st).isSome = true) ∧
    (∀ id, unit.arena.endsLoosely (unit.arena.size + 1) id = true → ∀ type line st,
      ((evaluator n).assign id type line ⟨unit.arena, index, options⟩ st).isSome = true ∧
      ((evaluator n).writeInto id line ⟨unit.arena, index, options⟩ st).isSome = true ∧
      ((evaluator n).compact id ⟨unit.arena, index, options⟩ st).isSome = true ∧
      (recordWrite id type line ⟨unit.arena, index, options⟩ st).isSome = true ∧
      ((evaluator n).check id ⟨unit.arena, index, options⟩ st).isSome = true) ∧
    (unit.arena.endsLoosely (unit.arena.size + 1) unit.root = true →
      (unit.analyze index options).isSome = true) := by
  have hinfer (n : Nat) (hn : options.maxDepth.toNat * (unit.arena.size + 2) + 1 ≤ n) (id : NodeId)
      (k : Nat) : EndsAt ⟨unit.arena, index, options⟩ k ((evaluator n).infer id) :=
    endsAt_infer hnest (Nat.le_add_left ..) hn id
  have hev {h n : Nat} (hsize : h ≤ unit.arena.size + 1)
      (hn : (options.maxDepth.toNat + 1) * (unit.arena.size + 2) ≤ n) (k : Nat) :=
    traverser_of_infer hsize (fun n hn id => hinfer n hn id k) (n := n) (by
      rw [Nat.add_mul] at hn
      omega)
  refine ⟨fun id st => ?_, fun id hid type line st => ?_, fun hroot => ?_⟩
  · rw [Nat.add_mul] at hn
    exact EndsAt.isSome (hinfer n (by omega) id) st
  · have hev := hev (Nat.le_refl _) hn
    exact ⟨EndsAt.isSome (fun k => (hev k).assign hid (fun _ _ => trivial) line) st,
      EndsAt.isSome (fun k => (hev k).writeInto hid line) st,
      EndsAt.isSome (fun k => (hev k).compact hid) st,
      EndsAt.isSome (fun k => (hev k).recordWriteAt hid (fun _ _ => trivial) line) st,
      EndsAt.isSome (fun k => (hev k).check hid) st⟩
  · have hbudget : (options.maxDepth.toNat + 1) * (unit.arena.size + 2) ≤ unit.budget options :=
      Nat.mul_le_mul_left _ (by omega)
    rw [analyze, analyzeUpTo, Option.isSome_map]
    refine EndsAt.isSome (fun k => .checkFile ((hev (Nat.le_refl _) hbudget k).check hroot) ?_) _
    intro file stmts hstmt
    refine (hev (Nat.le_succ _) hbudget k).checkAll fun c hc => ?_
    exact endsLoosely_of_looseParts hroot (looseParts_of_stmt? hstmt ▸ hc)

/-- A sign before itself, an array that is its own item, an element that is its own container and is
only read, and an assignment of itself to an element whose index has no end. -/
def circularReaders : SourceUnit where
  file := "circles.php"
  arena := ⟨#[⟨1, .expr (.unary .minus 0)⟩, ⟨1, .expr (.array [{ value := 1 }])⟩,
    ⟨1, .expr (.dim 2 (some 1))⟩, ⟨1, .expr (.binary .concat 0 2)⟩, ⟨1, .expr (.var "x")⟩,
    ⟨1, .expr (.dim 4 (some 3))⟩, ⟨1, .expr (.assign 5 6)⟩, ⟨1, .stmt (.exprStmt 6 none)⟩,
    ⟨1, .stmt (.sourceFile "circles.php" [7])⟩]⟩
  root := 8

theorem SourceUnit.ends_of_circularReaders :
    circularReaders.arena.LooselyNested ∧ circularReaders.arena.endsLoosely 10 5 = true ∧
      circularReaders.arena.endsLoosely 10 8 = true ∧
      ((evaluator 5511).infer 3 ⟨circularReaders.arena, {}, {}⟩ (initial {})).isSome = true ∧
      ((evaluator 5511).assign 5 none 1 ⟨circularReaders.arena, {}, {}⟩
        (initial {})).isSome = true ∧
      (circularReaders.analyze {} {}).isSome = true := by
  have hnest : circularReaders.arena.LooselyNested := by decide +kernel
  have htarget : circularReaders.arena.endsLoosely 10 5 = true := by decide +kernel
  have hroot : circularReaders.arena.endsLoosely 10 8 = true := by decide +kernel
  have h := SourceUnit.ends_of_looselyNested hnest {} {} (n := 5511) (Nat.le_refl _)
  exact ⟨hnest, htarget, hroot, h.1 3 _, (h.2.1 5 htarget none 1 _).1, h.2.2 hroot⟩

/-! ## Containers in a circle -/

/-- `$x[] .= 1`, where the element is its own container. -/
def circularElement : Arena :=
  ⟨#[⟨1, .expr (.int 1)⟩, ⟨1, .expr (.dim 1 none)⟩, ⟨1, .expr (.compoundAssign .concat 1 0)⟩]⟩

/-- The search for the container of such an element does not end, and no number of steps is enough for
the assignment. -/
theorem circularElement_never_ends :
    (∀ n, circularElement.containerUpTo n 1 = none) ∧
      ∀ index n,
        (evaluator n).infer 2 ⟨circularElement, index, {}⟩ (initial {}) = none := by
  have htarget : circularElement.expr? 1 = some (.dim 1 none) := rfl
  have hdepth : 0 < (500 : UInt32).toNat := by decide
  refine ⟨fun n => ?_, fun index n => ?_⟩
  · induction n with
    | zero => rfl
    | succ n ih => rwa [containerUpTo, htarget]
  · rw [Option.eq_none_iff_forall_ne_some]
    rintro ⟨type, st'⟩ hrun
    obtain ⟨m, st1, -, hrun, -⟩ := infer_inside (e := .compoundAssign .concat 1 0) rfl hdepth hrun
    replace hrun := bind_rest hrun rfl
    replace hrun := bind_rest hrun rfl
    obtain ⟨current, st2, -, hrun⟩ := of_bind hrun
    obtain ⟨value, st3, -, hrun⟩ := of_bind hrun
    replace hrun := bind_rest hrun rfl
    obtain ⟨_, st4, hwrite, -⟩ := of_bind hrun
    cases hwrite

end FlowTyping

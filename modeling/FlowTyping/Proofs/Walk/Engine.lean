import FlowTyping.Proofs.Analysis.Engine
import FlowTyping.Proofs.Analysis.FunctionRules
import FlowTyping.Proofs.Analysis.StatementRules
import FlowTyping.Proofs.Ast.Paths

/-!
# Files whose paths end

An analysis turns from a node to its parts.  What a step costs is therefore known beforehand: the
nodes that it evaluates are among those below the parts that it turns to.  Where the paths of parts
end, evaluation does.  A node takes at most two nested steps, since a target may be evaluated as a whole
after it was looked at, so paths of `h` nodes need a budget of `2 * h`.

`Walker`: what is evaluated at nodes of some kind comes to an end and stays below them; so does then
the rule of each kind of expression and statement.
-/

namespace FlowTyping

open Analysis Arena Context Judgement List

variable {arena : Arena} {id : NodeId} {h n : Nat} {cx : Context} {α β : Type}
  {below : NodeId → List NodeId} {m : Analysis α} {f : α → Analysis β} {parts : List NodeId}
  {ok : NodeId → Prop}

namespace Arena

lemma containerUpTo_isSome (hid : arena.endsLoosely h id = true) (hn : h ≤ n) :
    (arena.containerUpTo n id).isSome = true := by
  induction h generalizing n id with
  | zero => cases hid
  | succ h ih =>
    obtain ⟨k, rfl⟩ : ∃ k, n = k + 1 := ⟨n - 1, by omega⟩
    unfold containerUpTo
    split
    · next base index he =>
      refine ih (endsLoosely_of_looseParts hid ?_) (by omega)
      rw [looseParts, he]
      exact mem_singleton_self base
    · rfl

lemma EndsWithin.containerUpTo (hid : arena.EndsWithin h id) (hn : h ≤ n) :
    (arena.containerUpTo n id).isSome = true :=
  containerUpTo_isSome hid.endsLoosely hn

/-- What is written to is found in an element whose containers end. -/
lemma container?_ne_none {base : NodeId} {index : Option NodeId} (hsize : h ≤ arena.size + 1)
    (hid : arena.endsLoosely h id = true) (he : arena.expr? id = some (.dim base index)) :
    arena.container? base ≠ none := by
  have hsome := containerUpTo_isSome hid (Nat.le_trans hsize (Nat.le_succ _))
  rw [containerUpTo, he] at hsome
  exact Option.isSome_iff_ne_none.1 hsome

end Arena

/-- The node whose evaluation the event is about. -/
def Event.evaluated? : Event → Option NodeId
  | .visited visit => some visit.node
  | .left .. => none

/-- The nodes that were evaluated, the latest first. -/
def State.visited (st : State) : List NodeId :=
  st.events.filterMap Event.evaluated?

/-- The step has a result, keeps the depth and evaluates no node. -/
def Quiet {α : Type} (cx : Context) (m : Analysis α) : Prop :=
  ∀ ⦃st⦄, ∃ a st', m cx st = some (a, st') ∧ st'.depth = st.depth ∧ st'.visited = st.visited

namespace Quiet

lemma modifyStack (f : Stack → Stack) : Quiet cx (modifyStack f) :=
  fun st => ⟨(), { st with stack := f st.stack }, rfl, rfl, rfl⟩

lemma swapScope (s : Scope) : Quiet cx (swapScope s) :=
  fun st => ⟨_, { st with stack := st.stack.setCurrent s }, rfl, rfl, rfl⟩

lemma enterLoop : Quiet cx enterLoop :=
  fun st => ⟨(), { st with breaks := [] :: st.breaks }, rfl, rfl, rfl⟩

lemma leaveLoop : Quiet cx leaveLoop :=
  fun st => ⟨_, { st with breaks := st.breaks.tail }, rfl, rfl, rfl⟩

lemma leaveFunction (function : NodeId) : Quiet cx (leaveFunction function) := by
  intro st
  cases hpop : st.stack.pop? with
  | none => exact ⟨_, _, leaveFunction_of_none hpop cx function, rfl, rfl⟩
  | some popped => exact ⟨_, _, leaveFunction_run hpop cx function, rfl, rfl⟩

lemma checkJump : Quiet cx Evaluator.checkJump := by
  refine fun st => ⟨.jump, _, rfl, ?_⟩
  dsimp only
  split <;> exact ⟨rfl, rfl⟩

end Quiet

/-- The judgement holds of quiet steps, and of steps one after the other. -/
structure Judgement.Cumulative (cx : Context) (R : Judgement) : Prop where
  mono : ∀ {α nodes nodes'} {m : Analysis α}, R nodes m → List.Subperm nodes nodes' → R nodes' m
  bind : ∀ {α β nodes nodes'} {m : Analysis α} {f : α → Analysis β},
    R nodes m → (∀ a, R nodes' (f a)) → R (nodes ++ nodes') (m >>= f)
  reads : ∀ {α nodes} {m : Analysis α} {f : State → Analysis α},
    (∀ st, m cx st = f st cx st) → (∀ st, R nodes (f st)) → R nodes m
  quiet : ∀ {α} {m : Analysis α}, Quiet cx m → R [] m

namespace Judgement.Cumulative

variable {R : Judgement} (hR : R.Cumulative cx)

include hR

lemma sequential : R.Sequential cx where
  mono := hR.mono
  pure := hR.quiet fun _ => ⟨_, _, rfl, rfl, rfl⟩
  bind := hR.bind
  reads := hR.reads
  onScope _ := hR.quiet fun _ => ⟨_, _, rfl, rfl, rfl⟩

lemma structural : R.Structural cx where
  toSequential := hR.sequential
  update _ := hR.quiet fun _ => ⟨_, _, rfl, rfl, rfl⟩
  onStore _ := hR.quiet fun _ => ⟨_, _, rfl, rfl, rfl⟩
  modifyTable _ := hR.quiet fun _ => ⟨_, _, rfl, rfl, rfl⟩
  setCurrent _ := hR.quiet (.modifyStack _)
  inScope s hm := hR.bind (hR.quiet (.swapScope s)) fun _ =>
    hR.sequential.andThen hm fun _ => hR.sequential.result (hR.quiet (.swapScope _)) _
  inFunction _ function hm hf := hR.bind (hR.quiet (.modifyStack _)) fun _ =>
    hR.sequential.andThen hm fun _ => hR.bind (hR.quiet (.leaveFunction function)) hf
  inClass _ _ hm := hR.bind (hR.quiet (.modifyStack _)) fun _ =>
    hR.sequential.andThen hm fun _ => hR.sequential.result (hR.quiet (.modifyStack _)) _

lemma encloses : R.Encloses R where
  loop hm hf := hR.bind (hR.quiet .enterLoop) fun _ =>
    hR.sequential.andThen hm fun a => hR.bind (hR.quiet .leaveLoop) (hf a)
  function s function hm := hR.bind (hR.quiet fun _ => ⟨_, _, rfl, rfl, rfl⟩) fun _ =>
    hR.bind (hR.quiet fun st =>
      ⟨(), { st with breaks := [], stack := st.stack.push s }, rfl, rfl, rfl⟩) fun _ =>
    hR.sequential.andThen hm fun _ => hR.bind (hR.quiet (.leaveFunction function)) fun _ =>
    hR.quiet fun _ => ⟨_, _, rfl, rfl, rfl⟩

end Judgement.Cumulative

/-- The step has a result, and evaluates only what is below the nodes, each node at most as often as
it occurs there. -/
def Walks {α : Type} (cx : Context) (below : NodeId → List NodeId) (nodes : List NodeId)
    (m : Analysis α) : Prop :=
  ∀ ⦃st⦄, ∃ a st', m cx st = some (a, st') ∧
    ∀ id, st'.visited.count id ≤ st.visited.count id + (nodes.flatMap below).count id

namespace Walks

variable {nodes nodes' : List NodeId}

lemma mono (hm : Walks cx below nodes m) (hle : nodes.Subperm nodes') :
    Walks cx below nodes' m := by
  intro st
  obtain ⟨a, st', h, hvisited⟩ := @hm st
  refine ⟨a, st', h, fun id => ?_⟩
  have hcount := count_flatMap_le (f := below) hle id
  have := hvisited id
  omega

lemma skip (hm : Walks cx below [] m) : Walks cx below nodes m :=
  hm.mono (nil_subperm ..)

lemma quiet (h : Quiet cx m) : Walks cx below [] m := by
  intro st
  obtain ⟨a, st', h, -, hvisited⟩ := @h st
  refine ⟨a, st', h, fun id => ?_⟩
  rw [hvisited]
  exact Nat.le_add_right ..

lemma pure {a : α} : Walks cx below [] (Pure.pure a : Analysis α) :=
  quiet fun _ => ⟨_, _, rfl, rfl, rfl⟩

lemma bind (hm : Walks cx below nodes m) (hf : ∀ a, Walks cx below nodes' (f a)) :
    Walks cx below (nodes ++ nodes') (m >>= f) := by
  intro st
  obtain ⟨a, st1, h1, hvisited1⟩ := @hm st
  obtain ⟨b, st2, h2, hvisited2⟩ := @hf a st1
  refine ⟨b, st2, ?_, fun id => ?_⟩
  · rw [bind_run h1, h2]
  · rw [flatMap_append, count_append]
    have := hvisited1 id
    have := hvisited2 id
    omega

lemma andThen (hm : Walks cx below nodes m) (hf : ∀ a, Walks cx below [] (f a)) :
    Walks cx below nodes (m >>= f) := by
  have h := hm.bind hf
  rwa [append_nil] at h

end Walks

lemma walks_cumulative : Cumulative cx fun _ => Walks cx below where
  mono := Walks.mono
  bind := Walks.bind
  reads hm hf st := hm st ▸ @hf st st
  quiet := Walks.quiet

/-- What is evaluated at the nodes `ok` comes to an end, and evaluates what is below them. -/
structure Walker (cx : Context) (below : NodeId → List NodeId) (ok : NodeId → Prop)
    (ev : Evaluator) : Prop extends
    Traverser (fun _ => True) cx ok ok ev (held fun _ => Walks cx below) where
  part : ∀ {id}, ok id → ∀ c ∈ cx.arena.partsOf id, ok c
  below_eq : ∀ {id}, ok id → below id = id :: (cx.arena.partsOf id).flatMap below

lemma Walks.of_parts (hbelow : below id = id :: parts.flatMap below) (hm : Walks cx below parts m) :
    Walks cx below [id] m := by
  intro st
  obtain ⟨a, st', h, hvisited⟩ := @hm st
  refine ⟨a, st', h, fun c => ?_⟩
  have hcount : (parts.flatMap below).count c ≤ (below id).count c := by
    rw [hbelow]
    exact count_le_count_cons
  have := hvisited c
  rw [flatMap_singleton]
  omega

lemma Walks.of_expr {e : Expr} (he : cx.arena.expr? id = some e)
    (hparts : ∀ c ∈ cx.arena.partsOf id, ok c)
    (hbelow : below id = id :: (cx.arena.partsOf id).flatMap below)
    (hm : (∀ c ∈ e.children, ok c) → Walks cx below e.children m) : Walks cx below [id] m := by
  rw [partsOf_of_expr? he] at hparts hbelow
  exact .of_parts hbelow (hm hparts)

open Analysis List Evaluator Arena

namespace Arena

variable {h' : Nat}

lemma EndsWithin.pathsBelow_eq (hid : arena.EndsWithin h id) (hle : h ≤ h') :
    arena.pathsBelow h' id = arena.pathsBelow h id := by
  induction h generalizing h' id with
  | zero => cases hid
  | succ h ih =>
    obtain ⟨k, rfl⟩ : ∃ k, h' = k + 1 := ⟨h' - 1, by omega⟩
    rw [pathsBelow, pathsBelow]
    congr 1
    exact flatMap_congr fun part hpart => ih (hid part hpart) (by omega)

/-- The ends of the paths from a node are the node and the ends of the paths from its parts. -/
lemma EndsWithin.pathsBelow_parts (hid : arena.EndsWithin h id) :
    arena.pathsBelow h id = id :: (arena.partsOf id).flatMap (arena.pathsBelow h) := by
  cases h with
  | zero => cases hid
  | succ h =>
    rw [pathsBelow]
    congr 1
    exact flatMap_congr fun part hpart =>
      ((hid part hpart).pathsBelow_eq (Nat.le_succ h)).symm

end Arena

section Nodes

variable {ev : Evaluator}

lemma walks_recordVisit (id : NodeId) (type : Option Ty) :
    Walks cx (fun c => [c]) [id] (recordVisit id type) := by
  refine walks_cumulative.sequential.looking (fun _ => rfl) ?_
  split
  · intro st
    refine ⟨(), _, rfl, fun c => ?_⟩
    show (id :: st.visited).count c ≤ st.visited.count c + [id].count c
    exact Nat.le_of_eq (by rw [count_cons, count_singleton])
  · exact Walks.pure.skip

lemma Walks.node (hbelow : below id = id :: parts.flatMap below) (hm : Walks cx below parts m)
    (hf : ∀ a, Walks cx (fun c => [c]) [id] (f a)) : Walks cx below [id] (m >>= f) := by
  intro st
  obtain ⟨a, st1, h1, hvisited1⟩ := @hm st
  obtain ⟨b, st2, h2, hvisited2⟩ := @hf a st1
  refine ⟨b, st2, by rw [bind_run h1, h2], fun c => ?_⟩
  have hle1 := hvisited1 c
  have hle2 := hvisited2 c
  rw [flatMap_singleton] at hle2
  rw [flatMap_singleton, hbelow, count_cons]
  rw [count_singleton] at hle2
  omega

namespace Walker

variable (hev : Walker cx below ok ev)

include hev

lemma inferNode (hparts : ∀ c ∈ cx.arena.partsOf id, ok c)
    (hbelow : below id = id :: (cx.arena.partsOf id).flatMap below) :
    Walks cx below [id] (ev.inferNode id) := by
  have hrecord (type : Option Ty) : Walks cx (fun c => [c]) [id] (recordInferred id type) := by
    cases type with
    | some t =>
      exact (walks_cumulative.structural.modifyTable _).bind fun _ => (walks_recordVisit ..).andThen fun _ => .pure
    | none => exact (walks_recordVisit ..).andThen fun _ => .pure
  have hinside : Walks cx below [id] (ev.inferInside id) := by
    refine walks_cumulative.sequential.looking (fun _ => rfl) ?_
    cases he : cx.arena.expr? id with
    | some e =>
      rw [partsOf_of_expr? he] at hparts hbelow
      have hrule := hev.inferExpr id (Ty.closed_true.nodeDeclaresIn _) hparts
        (Expr.forall_args hparts) (Expr.forall_places hparts)
      exact Walks.node hbelow hrule hrecord
    | none => exact Walks.node hbelow Walks.pure.skip hrecord
  intro st
  by_cases hcut : id = NodeId.absent ∨ cx.options.maxDepth.toNat ≤ st.depth
  · exact ⟨_, _, inferNode_of_depth_le hcut, fun _ => Nat.le_add_right ..⟩
  · rw [not_or, Nat.not_le] at hcut
    obtain ⟨type, st', hrun, hvisited⟩ := @hinside (st.enterNode id)
    rw [inferNode_inside hcut.1 hcut.2, hrun]
    exact ⟨_, _, rfl, hvisited⟩

lemma checkNode (hparts : ∀ c ∈ cx.arena.partsOf id, ok c)
    (hbelow : below id = id :: (cx.arena.partsOf id).flatMap below)
    (hself : Walks cx below [id] (ev.infer id)) : Walks cx below [id] (ev.checkNode id) := by
  refine walks_cumulative.sequential.looking (fun _ => rfl) ?_
  split
  · exact (hself.andThen fun _ => .pure).andThen fun _ => .pure
  · next stmt hstmt =>
    rw [partsOf_of_stmt? hstmt] at hparts hbelow
    have hrule := hev.checkStmt hev.toTraverser walks_cumulative.encloses.held id
      (Ty.closed_true.nodeDeclaresIn _) (fun c hc => hparts c (Stmt.mem_allParts hc)) hparts fun _ => .quiet .checkJump
    refine (Walks.quiet (.modifyStack _)).bind fun _ => Walks.node hbelow hrule fun _ => ?_
    exact (walks_recordVisit ..).andThen fun _ => (Walks.quiet (.modifyStack _)).andThen fun _ => .pure

lemma checkFile {root : NodeId} (h : ok root) : Walks cx below [root] (ev.checkFile root) := by
  refine walks_cumulative.sequential.looking (fun _ => rfl) ?_
  split
  · next hroot =>
    have hparts := hev.part h
    have hbelow := hev.below_eq h
    rw [partsOf_of_stmt? hroot] at hparts hbelow
    exact .of_parts hbelow ((Walks.quiet (.modifyStack _)).bind fun _ =>
      Walks.andThen (hev.checkAll hparts) fun _ => .quiet (.modifyStack _))
  · exact Walks.andThen (hev.check h) fun _ => .pure
  · exact Walks.pure.skip

end Walker

end Nodes

/-! ## Levels -/

lemma walker_evaluator (cx : Context) (hsize : h ≤ cx.arena.size + 1) (hn : 2 * h ≤ n) :
    Walker cx (cx.arena.pathsBelow (cx.arena.size + 1)) (cx.arena.EndsWithin h)
      (evaluator n) := by
  have hbelow {id : NodeId} (hid : cx.arena.EndsWithin h id) :=
    (hid.mono hsize).pathsBelow_parts
  induction h generalizing n with
  | zero =>
    exact
      { toHolding := walks_cumulative.structural.holding
        declares := declaresIn_true _
        read_of_ok := id
        see := nofun
        check := nofun
        assign := nofun
        writeInto := nofun
        compact := nofun
        recordWriteAt := nofun
        parts := nofun
        part := nofun
        below_eq := nofun }
  | succ h ih =>
    obtain ⟨k, rfl⟩ : ∃ k, n = k + 2 := ⟨n - 2, by omega⟩
    have hlower {m : Nat} (hm : 2 * h ≤ m) := ih (n := m) (by omega) hm fun hid =>
      hbelow (hid.mono (Nat.le_succ h))
    -- A target may be evaluated on the level below, and that level still has budget for its parts.
    have hself {id : NodeId} (hid : cx.arena.EndsWithin (h + 1) id) :=
      (hlower (m := k) (by omega)).inferNode hid (hbelow hid)
    have hev := hlower (m := k + 1) (by omega)
    exact
      { toHolding := walks_cumulative.structural.holding
        declares := declaresIn_true _
        read_of_ok := id
        see := fun hid => hev.inferNode hid (hbelow hid)
        check := fun hid => hev.checkNode hid (hbelow hid) (hself hid)
        assign := fun hid _ _ line => hev.stepwise.assignTo
          (fun he _ hm => .of_expr he hid (hbelow hid) fun hok => hm hok (Expr.forall_looseParts hok))
          (hself hid) (fun _ _ => trivial) line
        writeInto := fun hid => hev.stepwise.writeIntoBase
          (fun he _ hm => .of_expr he hid (hbelow hid) fun hok => hm hok (Expr.forall_looseParts hok))
          (hself hid)
        compact := fun hid => hev.stepwise.compactArg fun items he c hc => hid c (by
          rw [partsOf_of_expr? he]
          exact Expr.mem_children_of_item hc)
        recordWriteAt := fun hid _ _ line => walks_cumulative.sequential.typed.recordWrite (fun _ _ => trivial)
          (fun _ _ => trivial) line fun base index he hnone =>
            absurd hnone (container?_ne_none hsize hid.endsLoosely he)
        parts := fun hid he hm => .of_expr he hid (hbelow hid) fun hok => hm fun c hc =>
          (hlower (m := k + 2) (by omega)).infer (hok c hc)
        part := fun hid c hc => (hid c hc).mono (Nat.le_succ h)
        below_eq := hbelow }

namespace SourceUnit

variable {unit : SourceUnit} (index : Index) (options : Options)

/-- The analysis of a file whose paths end comes to an end too, and evaluates a node at most as often
as there are paths to it. -/
lemma analyzeUpTo_walks (hroot : unit.arena.EndsWithin (unit.arena.size + 1) unit.root)
    (hn : 2 * (unit.arena.size + 1) ≤ n) :
    ∃ st, unit.analyzeUpTo index options n = some st ∧ ∀ id,
      st.visited.count id ≤ (unit.arena.pathsBelow (unit.arena.size + 1) unit.root).count id := by
  have hev := walker_evaluator ⟨unit.arena, index, options⟩ le_rfl hn
  obtain ⟨a, st, hrun, hvisited⟩ := @Walker.checkFile _ _ _ _ hev _ hroot (State.initial options)
  refine ⟨st, ?_, fun id => ?_⟩
  · exact congrArg (Option.map Prod.snd) hrun
  · have hle := hvisited id
    rw [flatMap_singleton] at hle
    have hinitial : (State.initial options).visited = [] := rfl
    rwa [hinitial, count_nil, Nat.zero_add] at hle

lemma le_budget (unit : SourceUnit) :
    2 * (unit.arena.size + 1) ≤ unit.budget options := by
  unfold budget
  have hle : 2 * unit.arena.size + 4 ≤
      (options.maxDepth.toNat + 1) * (2 * unit.arena.size + 4) :=
    Nat.le_mul_of_pos_left _ (Nat.succ_pos _)
  omega

end SourceUnit

end FlowTyping

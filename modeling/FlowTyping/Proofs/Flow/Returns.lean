import FlowTyping.Proofs.Flow.Statements
import FlowTyping.Proofs.Walk.Engine

/-!
# Loop-free programs are checked to the end

A step fails only when it has used up its budget of nested evaluations.  The height of a program is a
budget that is enough for it.
-/

namespace FlowTyping

open Analysis Evaluator Judgement List Option

/-- The step has a result in every state. -/
def Succeeds {α : Type} (cx : Context) (m : Analysis α) : Prop :=
  ∀ ⦃st : State⦄, (m cx st).isSome = true

namespace Succeeds

variable {α β : Type} {cx : Context} {m : Analysis α} {f : α → Analysis β}

lemma exists_eq_some (hm : Succeeds cx m) (st : State) : ∃ a st', m cx st = some (a, st') := by
  obtain ⟨⟨a, st'⟩, h⟩ := isSome_iff_exists.1 (@hm st)
  exact ⟨a, st', h⟩

lemma bind (hm : Succeeds cx m) (hf : ∀ a, Succeeds cx (f a)) : Succeeds cx (m >>= f) := by
  intro st
  obtain ⟨a, st1, h⟩ := hm.exists_eq_some st
  rw [bind_run h]
  exact @hf a st1

end Succeeds

variable {cx : Context} {n : Nat} {id target : NodeId} {x : String} {e : Expr}

lemma succeeds_cumulative : Cumulative cx fun _ _ m => Succeeds cx m where
  mono hm _ := hm
  bind := Succeeds.bind
  reads hm hf st := hm st ▸ @hf st st
  quiet h st := by
    obtain ⟨a, st', h, -⟩ := @h st
    rw [h]
    rfl

lemma succeeds_sequential :
    TypeJudgement.Sequential (fun _ => True) (.of cx) fun _ _ m _ => Succeeds cx m :=
  succeeds_cumulative.sequential.typed

lemma succeeds_encloses :
    Encloses (fun _ _ m => Succeeds cx m) fun _ _ m => Succeeds cx m :=
  succeeds_cumulative.encloses

lemma succeeds_holding :
    (held fun _ _ m => Succeeds cx m).Holding (fun _ => True) cx :=
  succeeds_cumulative.structural.holding

/-! ## Nodes -/

/-- The node can be passed as an argument. -/
structure Passable (cx : Context) (n : Nat) (id : NodeId) : Prop where
  infer : Succeeds cx ((evaluator n).infer id)
  bindByRef : ∀ line, Succeeds cx ((evaluator n).bindByRef id line)
  compact : Succeeds cx ((evaluator n).compact id)

/-- The node can be written to. -/
structure Writable (cx : Context) (n : Nat) (id : NodeId) : Prop where
  assign : ∀ type line, Succeeds cx ((evaluator n).assign id type line)
  writeInto : ∀ line, Succeeds cx ((evaluator n).writeInto id line)
  record : ∀ type line, Succeeds cx (recordWrite id type line)

lemma succeeds_stepwise :
    Stepwise (fun _ => True) (.of cx) (fun id => Succeeds cx ((evaluator n).infer id)) (Passable cx n)
      (Writable cx n) (evaluator n) fun _ _ m _ => Succeeds cx m where
  toSequential := succeeds_sequential
  seen _ := trivial
  infer := id
  read_of_passed := Passable.infer
  bindByRef h := h.bindByRef
  assign h _ _ _ := h.assign _
  writeInto h := h.writeInto
  compact h := h.compact
  recordWriteAt h _ _ _ := h.record _

lemma succeeds_infer (he : cx.arena.expr? id = some e) (hn : 0 < n)
    (hread : ∀ c ∈ e.children, Succeeds cx ((evaluator (n - 1)).infer c))
    (hargs : ∀ c ∈ e.args, Passable cx (n - 1) c := by exact nofun)
    (hplaces : ∀ c ∈ e.places, Writable cx (n - 1) c := by exact nofun)
    (hfn : ∀ fn, e ≠ .closure fn := by exact nofun) : Succeeds cx ((evaluator n).infer id) := by
  obtain ⟨m, rfl⟩ := Nat.exists_eq_add_of_lt hn
  rw [Nat.zero_add] at hread hargs hplaces ⊢
  have hrule : Succeeds cx ((evaluator m).inferExpr id e) :=
    succeeds_holding.inferExpr (Context.declaresIn_true _) succeeds_stepwise id
      (Ty.closed_true.nodeDeclaresIn _) hread hargs hplaces fun fn hclosure => absurd hclosure (hfn fn)
  intro st
  rcases Nat.lt_or_ge st.depth cx.options.maxDepth.toNat with hdepth | hdepth
  · rw [show (evaluator (m + 1)).infer id cx st = _ from inferNode_run he hdepth, isSome_map]
    exact @hrule _
  · rw [show (evaluator (m + 1)).infer id cx st = _ from inferNode_of_depth_le (.inr hdepth)]
    rfl

lemma succeeds_check {stmt : Stmt} (hstmt : cx.arena.stmt? id = some stmt) (hn : 0 < n)
    (h : Succeeds cx ((evaluator (n - 1)).checkStmt id stmt)) :
    Succeeds cx ((evaluator n).check id) := by
  obtain ⟨m, rfl⟩ := Nat.exists_eq_add_of_lt hn
  intro st
  rw [Nat.zero_add] at h ⊢
  rw [show (evaluator (m + 1)).check id cx st = _ from checkNode_run hstmt, isSome_map]
  exact @h _

lemma succeeds_exprStmt {expr : NodeId} {doc : Option String}
    (hstmt : cx.arena.stmt? id = some (.exprStmt expr doc)) (hn : 0 < n)
    (h : Succeeds cx ((evaluator (n - 1)).infer expr)) : Succeeds cx ((evaluator n).check id) :=
  succeeds_check hstmt hn (succeeds_holding.checkExprStmt id
    (Ty.closed_true.nodeDeclaresIn (.stmt (.exprStmt expr doc))).types h)

lemma passable_of_infer (he : cx.arena.expr? id = some e) (hn : 0 < n) (hplace : e.isPlace = false)
    (hinfer : Succeeds cx ((evaluator n).infer id))
    (hitems : ∀ items, e = .array items → ∀ c ∈ items.map ArrayItem.value, Passable cx (n - 1) c :=
      by exact nofun) : Passable cx n id := by
  refine ⟨hinfer, fun line => ?_, ?_⟩
  · refine succeeds_sequential.bindByRef line (fun hassign => ?_) hinfer
    rw [show (Contexts.of cx).arena.expr? id = _ from he, any_some, hplace] at hassign
    cases hassign
  · obtain ⟨m, rfl⟩ := Nat.exists_eq_add_of_lt hn
    exact succeeds_stepwise.compactArg fun items hid => hitems items (some.inj (he.symm.trans hid))

lemma passable_var (hid : cx.IsVar id x) (hn : 0 < n) : Passable cx n id :=
  passable_of_infer hid hn rfl (succeeds_infer hid hn nofun)

lemma writable_var (hid : cx.IsVar id x) (hn : 0 < n) : Writable cx n id := by
  obtain ⟨m, rfl⟩ := Nat.exists_eq_add_of_lt hn
  have hlook {f : Option Expr → Analysis Unit} (hf : Succeeds cx (f (some (.var x)))) :
      Succeeds cx (exprAt id >>= f) := by
    intro st
    rw [bind_run (show exprAt id cx st = some (some (.var x), st) from hid ▸ rfl)]
    exact @hf st
  have hassign (type : Option Ty) (line : Line) : Succeeds cx (assignVar x type line) :=
    succeeds_sequential.assignVar (fun _ => trivial) (fun _ _ => trivial) line
  exact ⟨fun type line => hlook (hassign type line), fun line => hlook fun _ => rfl,
    fun type line => hlook (hassign type line)⟩

/-! ## Values -/

mutual
theorem Source.succeeds (e : Source) {n : Nat} (hin : e.In cx) (hn : e.height ≤ n) :
    Succeeds cx ((evaluator n).infer e.id) := by
  match e with
  | .int id k | .float id d | .string id text | .var id x => exact succeeds_infer hin hn nofun
  | .const id name | .new id cls => exact succeeds_infer hin.1 hn nofun
  | .array id items =>
    rw [Source.height] at hn
    exact succeeds_infer hin.1 (by omega) (items.succeeds hin.2 (by omega))
theorem Items.succeeds (items : Items) {n : Nat} (hin : items.In cx) (hn : items.height ≤ n) :
    ∀ c ∈ items.toList.flatMap ArrayItem.children, Succeeds cx ((evaluator n).infer c) := by
  match items with
  | .nil => exact nofun
  | .item value rest =>
    rw [Items.height, Nat.max_le] at hn
    exact forall_mem_cons.2 ⟨value.succeeds hin.1 hn.1, rest.succeeds hin.2 hn.2⟩
  | .keyed key value rest =>
    rw [Items.height, Nat.max_le, Nat.max_le] at hn
    exact forall_mem_cons.2 ⟨key.succeeds hin.1 hn.1,
      forall_mem_cons.2 ⟨value.succeeds hin.2.1 hn.2.1, rest.succeeds hin.2.2 hn.2.2⟩⟩
end

/-! ## Conditions -/

lemma Test.succeeds {t : Test} (hid : cx.arena.expr? id = some (t.expr target))
    (htarget : cx.IsVar target x) (hproper : t.Proper cx) (hn : 1 < n) :
    Succeeds cx ((evaluator n).infer id) := by
  have hvar := passable_var htarget (Nat.sub_pos_of_lt hn)
  have hone : ∀ c ∈ [target], Succeeds cx ((evaluator (n - 1)).infer c) :=
    forall_mem_singleton.2 hvar.infer
  have hpos : 0 < n := Nat.zero_lt_of_lt hn
  cases t with
  | compare op null nullFirst =>
    obtain ⟨-, name, hnull, -⟩ := hproper
    have hnull : Succeeds cx ((evaluator (n - 1)).infer null) :=
      succeeds_infer hnull (Nat.sub_pos_of_lt hn) nofun
    cases nullFirst with
    | true => exact succeeds_infer hid hpos (forall_mem_cons.2 ⟨hnull, hone⟩)
    | false => exact succeeds_infer hid hpos (forall_mem_cons.2 ⟨hvar.infer, forall_mem_singleton.2 hnull⟩)
  | instanceOf cls | isSet | empty => exact succeeds_infer hid hpos hone
  | predicate function => exact succeeds_infer hid hpos hone (forall_mem_singleton.2 hvar)

lemma Cond.succeeds (c : Cond) (hin : c.In cx) (hn : c.height ≤ n) :
    Succeeds cx ((evaluator n).infer c.id) := by
  induction c generalizing n with
  | test id target x t =>
    exact t.succeeds hin.1 hin.2.1 hin.2.2 hn
  | var id x | call id function => exact succeeds_infer hin hn nofun
  | not id c ih =>
    rw [Cond.height] at hn
    exact succeeds_infer hin.1 (by omega) (forall_mem_singleton.2 (ih hin.2 (by omega)))
  | and id op left right ihl ihr | or id op left right ihl ihr =>
    rw [Cond.height] at hn
    obtain ⟨hexpr, -, hleft, hright⟩ := hin
    exact succeeds_infer hexpr (by omega)
      (forall_mem_cons.2 ⟨ihl hleft (by omega), forall_mem_singleton.2 (ihr hright (by omega))⟩)

/-! ## Statements -/

lemma succeeds_assign {value : NodeId} (hid : cx.arena.expr? id = some (.assign target value))
    (htarget : cx.IsVar target x) (hn : 1 < n) (hvalue : Succeeds cx ((evaluator (n - 1)).infer value)) :
    Succeeds cx ((evaluator n).infer id) := by
  have hpos := Nat.sub_pos_of_lt hn
  exact succeeds_infer hid (Nat.zero_lt_of_lt hn)
    (forall_mem_cons.2 ⟨(passable_var htarget hpos).infer, forall_mem_singleton.2 hvalue⟩) nofun
    (forall_mem_singleton.2 (writable_var htarget hpos))

mutual
theorem Cmd.succeeds (c : Cmd) {n : Nat} (hin : c.In cx) (hn : c.height ≤ n) :
    Succeeds cx ((evaluator n).check c.id) := by
  match c with
  | .assign id assignment target x e =>
    rw [Cmd.height] at hn
    obtain ⟨hstmt, hexpr, htarget, hx, he⟩ := hin
    exact succeeds_exprStmt hstmt (by omega)
      (succeeds_assign hexpr htarget (by omega) (e.succeeds he (by omega)))
  | .block id body =>
    rw [Cmd.height] at hn
    exact succeeds_check hin.1 (by omega) (body.succeeds hin.2 (by omega))
  | .ret id (some e) =>
    rw [Cmd.height] at hn
    exact succeeds_check hin.1 (by omega)
      ((succeeds_stepwise.visit (e.succeeds hin.2 (by omega))).bind fun _ _ => rfl)
  | .ret id none => exact succeeds_check hin hn fun _ => rfl
  | .branch id c body rest =>
    rw [Cmd.height] at hn
    obtain ⟨hstmt, hc, hbody, hrest⟩ := hin
    have hrest := rest.succeeds hrest (n := n - 1) (by omega)
    exact succeeds_check hstmt (by omega) (succeeds_holding.checkIf (c.succeeds hc (by omega))
      (body.succeeds hbody (by omega)) hrest.1 hrest.2)
theorem Cmds.succeeds (cs : Cmds) {n : Nat} (hin : cs.In cx) (hn : cs.height ≤ n) :
    Succeeds cx ((evaluator n).checkAll cs.ids) := by
  match cs with
  | .nil => exact fun _ => rfl
  | .cons c cs =>
    rw [Cmds.height, Nat.max_le] at hn
    exact (c.succeeds hin.1 hn.1).bind fun _ => (cs.succeeds hin.2 hn.2).bind fun _ _ => rfl
theorem Chain.succeeds (chain : Chain) {n : Nat} (hin : chain.In cx) (hn : chain.height ≤ n) :
    (∀ b ∈ chain.elseIfs, Succeeds cx ((evaluator n).infer b.condition) ∧
      Succeeds cx ((evaluator n).checkAll b.body)) ∧
    Succeeds cx ((evaluator n).checkAll (chain.elseBranch.getD [])) := by
  match chain with
  | .none => exact ⟨nofun, fun _ => rfl⟩
  | .otherwise body => exact ⟨nofun, body.succeeds hin hn⟩
  | .elseIf c body rest =>
    rw [Chain.height] at hn
    obtain ⟨hc, hbody, hrest⟩ := hin
    have hrest := rest.succeeds hrest (n := n) (by omega)
    exact ⟨forall_mem_cons.2 ⟨⟨c.succeeds hc (by omega), body.succeeds hbody (by omega)⟩, hrest.1⟩,
      hrest.2⟩
end

end FlowTyping

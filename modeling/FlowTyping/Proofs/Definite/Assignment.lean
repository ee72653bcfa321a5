import FlowTyping.Proofs.Analysis.Boundaries
import FlowTyping.Proofs.Definite.Statements

/-!
# Definite assignment

A read of a variable that is a parameter, or that every path from the start of the function assigns,
is not reported as undefined.  The height of a body is a budget that is enough for its check.
-/

namespace FlowTyping

open Analysis Context Evaluator List

variable {cx : Context} {n : Nat}

namespace Definite

/-! ## Expressions -/

lemma passable_each {id : NodeId} {e : Expr} {ids : List NodeId} (hid : cx.arena.expr? id = some e)
    (he : cx.EvaluatesEach e ids) (hn : 0 < n) (hids : ∀ c ∈ ids, Passable cx (n - 1) c) :
    Passable cx n id := by
  have hinfer : ∀ c ∈ ids, Succeeds cx ((evaluator (n - 1)).infer c) := fun c hc => (hids c hc).infer
  cases he with
  | interpolated => exact passable_of_infer hid hn rfl (succeeds_infer hid hn hinfer)
  | array =>
    refine passable_of_infer hid hn rfl (succeeds_infer hid hn hinfer) ?_
    rintro items ⟨⟩ c hc
    exact hids c (Expr.mem_children_of_item hc)
  | call => exact passable_of_infer hid hn rfl (succeeds_infer hid hn hinfer hids)
  | dynamicCall =>
    exact passable_of_infer hid hn rfl (succeeds_infer hid hn hinfer (forall_mem_cons.1 hids).2)

mutual
theorem Exp.succeeds (e : Exp) {n : Nat} (hin : e.In cx) (hn : e.height ≤ n) : Passable cx n e.id := by
  match e with
  | .var id x => exact passable_var hin hn
  | .literal id =>
    obtain ⟨e, he, hliteral⟩ := hin
    cases hliteral <;> exact passable_of_infer he hn rfl (succeeds_infer he hn nofun)
  | .each id es =>
    rw [Exp.height] at hn
    obtain ⟨⟨e, he, heach⟩, hes⟩ := hin
    exact passable_each he heach (by omega) (es.succeeds hes (by omega))
  | .assign id target x e =>
    rw [Exp.height] at hn
    obtain ⟨he, htarget, -, hin⟩ := hin
    exact passable_of_infer he (by omega) rfl
      (succeeds_assign he htarget (by omega) (e.succeeds hin (by omega)).infer)
  | .not id e =>
    rw [Exp.height] at hn
    exact passable_of_infer hin.1 (by omega) rfl (succeeds_infer hin.1 (by omega)
      (forall_mem_singleton.2 (e.succeeds hin.2 (by omega)).infer))
  | .and id left right | .or id left right =>
    rw [Exp.height] at hn
    obtain ⟨⟨op, he, -⟩, hleft, hright⟩ := hin
    exact passable_of_infer he (by omega) rfl (succeeds_infer he (by omega) (forall_mem_cons.2
      ⟨(left.succeeds hleft (by omega)).infer,
        forall_mem_singleton.2 (right.succeeds hright (by omega)).infer⟩))
  | .choice id c t e =>
    rw [Exp.height] at hn
    obtain ⟨he, hc, ht, hin⟩ := hin
    exact passable_of_infer he (by omega) rfl (succeeds_infer he (by omega) (forall_mem_cons.2
      ⟨(c.succeeds hc (by omega)).infer, forall_mem_cons.2 ⟨(t.succeeds ht (by omega)).infer,
        forall_mem_singleton.2 (e.succeeds hin (by omega)).infer⟩⟩))
  | .short id c e =>
    rw [Exp.height] at hn
    obtain ⟨he, hc, hin⟩ := hin
    exact passable_of_infer he (by omega) rfl (succeeds_infer he (by omega) (forall_mem_cons.2
      ⟨(c.succeeds hc (by omega)).infer, forall_mem_singleton.2 (e.succeeds hin (by omega)).infer⟩))
theorem Exps.succeeds (es : Exps) {n : Nat} (hin : es.In cx) (hn : es.height ≤ n) :
    ∀ id ∈ es.ids, Passable cx n id := by
  match es with
  | .nil => exact nofun
  | .cons e es =>
    rw [Exps.height] at hn
    exact forall_mem_cons.2 ⟨e.succeeds hin.1 (by omega), es.succeeds hin.2 (by omega)⟩
end

lemma Exps.succeeds_visitAll (es : Exps) (hin : es.In cx) (hn : es.height ≤ n) :
    Succeeds cx ((evaluator n).visitAll es.ids) :=
  succeeds_stepwise.visitAll fun id hid => (es.succeeds hin hn id hid).infer

/-! ## Statements -/

lemma succeeds_bindIteration {key : Option NodeId} {value : NodeId} {names : List String}
    (hnames : (key.toList ++ [value]).map cx.arena.varName? = names.map some) (hn : 0 < n)
    (byRef : Bool) (line : Line) :
    Succeeds cx ((evaluator n).bindIteration key value byRef line) := by
  have hassign : ∀ target ∈ key.toList ++ [value], ∀ (type : Option Ty) (line : Line),
      Succeeds cx ((evaluator n).assign target type line) := by
    intro target htarget
    have hname : cx.arena.varName? target ∈ names.map some := hnames ▸ mem_map_of_mem htarget
    obtain ⟨x, -, hx⟩ := mem_map.1 hname
    exact (writable_var (isVar_of_varName? hx.symm) hn).assign
  have hvalue : Succeeds cx (do
      (evaluator n).assign value none line
      if byRef then markReferenceAt value) :=
    (hassign value (by simp) _ _).bind fun _ => by
      split
      · exact succeeds_sequential.markReferenceAt value
      · exact fun _ => rfl
  cases key with
  | none => exact hvalue
  | some key => exact (hassign key (by simp) _ _).bind fun _ => hvalue

mutual
theorem Cmd.succeeds (c : Cmd) {n : Nat} (hin : c.In cx) (hn : c.height ≤ n) :
    Succeeds cx ((evaluator n).check c.id) := by
  match c with
  | .expr id e =>
    rw [Cmd.height] at hn
    obtain ⟨⟨doc, hid⟩, he⟩ := hin
    exact succeeds_exprStmt hid (by omega) (e.succeeds he (by omega)).infer
  | .echo id es =>
    rw [Cmd.height] at hn
    exact succeeds_check hin.1 (by omega) ((es.succeeds_visitAll hin.2 (by omega)).bind fun _ _ => rfl)
  | .ret id es =>
    rw [Cmd.height] at hn
    obtain ⟨⟨e, hid, he⟩, hes⟩ := hin
    refine succeeds_check hid (by omega) ?_
    rw [checkStmt, visit?_eq, he]
    exact (es.succeeds_visitAll hes (by omega)).bind fun _ _ => rfl
  | .block id body =>
    rw [Cmd.height] at hn
    exact succeeds_check hin.1 (by omega) (body.succeeds hin.2 (by omega))
  | .branch id c body rest =>
    rw [Cmd.height] at hn
    obtain ⟨hid, hc, hbody, hrest⟩ := hin
    have hrest := rest.succeeds hrest (n := n - 1) (by omega)
    exact succeeds_check hid (by omega) (succeeds_holding.checkIf (c.succeeds hc (by omega)).infer
      (body.succeeds hbody (by omega)) hrest.1 hrest.2)
  | .whileLoop id c body =>
    rw [Cmd.height] at hn
    obtain ⟨hid, hc, hbody⟩ := hin
    exact succeeds_check hid (by omega) (succeeds_holding.checkWhile succeeds_holding
      succeeds_encloses.held (c.succeeds hc (by omega)).infer (body.succeeds hbody (by omega)))
  | .doWhile id body c =>
    rw [Cmd.height] at hn
    obtain ⟨hid, -, hbody, hc⟩ := hin
    exact succeeds_check hid (by omega) (succeeds_holding.checkDoWhile succeeds_holding
      succeeds_encloses.held (body.succeeds hbody (by omega)) (c.succeeds hc (by omega)).infer)
  | .forLoop id init condition step body =>
    rw [Cmd.height] at hn
    obtain ⟨hid, -, hinit, hcondition, hstep, hbody⟩ := hin
    exact succeeds_check hid (by omega) (succeeds_holding.checkFor succeeds_holding
      succeeds_encloses.held (init.succeeds_visitAll hinit (by omega))
      (condition.succeeds_visitAll hcondition (by omega)) (step.succeeds_visitAll hstep (by omega))
      (body.succeeds hbody (by omega)))
  | .foreach id subject names body =>
    rw [Cmd.height] at hn
    obtain ⟨⟨key, value, byRef, hid, hnames⟩, -, hsubject, hbody⟩ := hin
    exact succeeds_check hid (by omega) (succeeds_holding.checkForeach succeeds_encloses.held id byRef
      (subject.succeeds hsubject (by omega)).infer
      (succeeds_bindIteration hnames (by omega) byRef) (body.succeeds hbody (by omega)))
  | .switch id subject cases =>
    rw [Cmd.height] at hn
    obtain ⟨hid, hsubject, hcases⟩ := hin
    exact succeeds_check hid (by omega) (succeeds_holding.checkSwitch succeeds_encloses.held
      (subject.succeeds hsubject (by omega)).infer
      (succeeds_holding.checkCases none (cases.succeeds hcases (by omega))))
  | .leave id | .next id =>
    exact succeeds_check hin hn (succeeds_cumulative.quiet .checkJump)
theorem Cmds.succeeds (cs : Cmds) {n : Nat} (hin : cs.In cx) (hn : cs.height ≤ n) :
    Succeeds cx ((evaluator n).checkAll cs.ids) := by
  match cs with
  | .nil => exact fun _ => rfl
  | .cons c cs =>
    rw [Cmds.height, Nat.max_le] at hn
    exact (c.succeeds hin.1 hn.1).bind fun _ => (cs.succeeds hin.2 hn.2).bind fun _ _ => rfl
theorem Chain.succeeds (chain : Chain) {n : Nat} (hin : chain.In cx) (hn : chain.height ≤ n) :
    (∀ b ∈ chain.elseIfs, Succeeds cx ((evaluator n).infer b.condition) ∧
      Succeeds cx ((evaluator n).checkAll b.body)) ∧
    Succeeds cx ((evaluator n).checkAll (chain.elseBranch.getD [])) := by
  match chain with
  | .none => exact ⟨nofun, fun _ => rfl⟩
  | .otherwise body => exact ⟨nofun, body.succeeds hin hn⟩
  | .elseIf c body rest =>
    rw [Chain.height] at hn
    obtain ⟨hc, hbody, hrest⟩ := hin
    have hrest := rest.succeeds hrest (n := n) (by omega)
    exact ⟨forall_mem_cons.2 ⟨⟨(c.succeeds hc (by omega)).infer, body.succeeds hbody (by omega)⟩,
      hrest.1⟩, hrest.2⟩
theorem Cases.succeeds (cases : Cases) {n : Nat} (hin : cases.In cx) (hn : cases.height ≤ n) :
    ∀ case ∈ cases.toList, (∀ c ∈ case.test.toList, Succeeds cx ((evaluator n).infer c)) ∧
      Succeeds cx ((evaluator n).checkAll case.body) := by
  match cases with
  | .nil => exact nofun
  | .case test body rest =>
    rw [Cases.height] at hn
    obtain ⟨htest, hbody, hrest⟩ := hin
    exact forall_mem_cons.2 ⟨⟨forall_mem_singleton.2 (test.succeeds htest (by omega)).infer,
      body.succeeds hbody (by omega)⟩, rest.succeeds hrest (by omega)⟩
  | .default body rest =>
    rw [Cases.height] at hn
    exact forall_mem_cons.2 ⟨⟨nofun, body.succeeds hin.1 (by omega)⟩,
      rest.succeeds hin.2 (by omega)⟩
end

end Definite

open Analysis

/-- The statement declares a function or a method with these parameters and this body. -/
inductive Context.Declares (cx : Context) (id : NodeId) : List Param → List NodeId → Prop
  | function {fn : FunctionStmt} (h : cx.arena.stmt? id = some (.function fn)) :
    Declares cx id fn.params fn.body
  | method {fn : MethodStmt} {body : List NodeId} (h : cx.arena.stmt? id = some (.method fn))
    (hbody : fn.body = some body) : Declares cx id fn.params body

namespace Definite

variable {cx : Context} {v : String} {st st1 st' : State} {id : NodeId} {n : Nat} {order : Order}
  {doc : Option String} {s s' : Scope} {params : List Param} {body : Cmds} {line : Line}

/-! ## The scope of a function -/

lemma quiet_addParams {ps : List Param} (h : addParams doc line ps s cx st = some (s', st')) :
    Quiet st st' ∧ s.names ⊆ s'.names ∧ ∀ p ∈ ps, p.name ∈ s'.names := by
  induction ps generalizing s st with
  | nil =>
    obtain ⟨rfl, rfl⟩ := of_pure h
    exact ⟨.refl _, subset_rfl, by simp⟩
  | cons p ps ih =>
    have hrest := bind_rest h rfl
    obtain ⟨declared, st1, hdeclared, hdeclare⟩ := of_bind hrest
    obtain rfl : st1 = st := fixes_declaredParamType doc p hdeclared
    obtain ⟨_, st2, hstore, hparams⟩ := of_bind hdeclare
    obtain ⟨hquiet, -, rfl⟩ := quiet_onStore hstore
    obtain ⟨hquiet', hgrows, hps⟩ := ih hparams
    rw [Scope.names_declare] at hgrows
    refine ⟨hquiet.trans hquiet', (Set.subset_insert ..).trans hgrows, ?_⟩
    rw [forall_mem_cons]
    exact ⟨hgrows (Set.mem_insert ..), hps⟩

lemma quiet_declareThis {this : Option (Option Ty × Line)}
    (h : declareThis this s cx st = some (s', st')) : Quiet st st' := by
  cases this with
  | none =>
    obtain ⟨rfl, rfl⟩ := of_pure h
    exact .refl _
  | some r =>
    cases h
    exact ⟨rfl, rfl, rfl, rfl⟩

lemma Ran.leaveFunction {nodes : List NodeId} {upTo : NodeId → Language String} {N : Set String}
    {left : Option Scope} (h : Ran cx v nodes nodes upTo N st st1)
    (hleave : leaveFunction id cx st1 = some (left, st')) :
    Ran cx v nodes nodes upTo N st st' := by
  cases hpop : st1.stack.pop? with
  | none =>
    rw [leaveFunction_of_none hpop] at hleave
    cases hleave
    exact h
  | some r =>
    rw [leaveFunction_run hpop] at hleave
    cases hleave
    exact h.record (.left id (r.1.view st1.store)) rfl (by rintro visit ⟨⟩) rfl

lemma Ran.functionBody (hin : body.In cx) (hready : Ready cx body.nodes body.depth st)
    (hsettled : order = .asWritten ∨ body.Settled v)
    (h : (evaluator n).functionBody id params body.ids doc line s cx st = some ((), st')) :
    Ran cx v body.nodes body.nodes (fun read => body.upTo order read)
      {x | x ∈ params.map Param.name} st st' := by
  obtain ⟨s', st1, hparams, h⟩ := of_bind h
  obtain ⟨hquiet, -, hnames⟩ := quiet_addParams hparams
  replace h := bind_rest h rfl
  replace h := bind_rest h rfl
  obtain ⟨flow, st2, hbody, h⟩ := of_bind h
  obtain ⟨left, st3, hleave, h⟩ := of_bind h
  cases h
  obtain ⟨hnodup, hclear, hroom⟩ := hready.quiet hquiet
  obtain ⟨hran, -⟩ := body.walks hin hsettled hbody ⟨hnodup, hclear, hroom⟩
  have hran : Ran cx v body.nodes body.nodes (body.upTo order) s'.names st1 st2 :=
    ⟨hran.asserts, hran.reads, hran.visits⟩
  have hstart : {x | x ∈ params.map Param.name} ⊆ s'.names := by
    intro x hx
    obtain ⟨p, hp, rfl⟩ := mem_map.1 hx
    exact hnames p hp
  have hran := ((hran.congr hquiet (.refl _)).mono (fun _ h => h) hstart).leaveFunction hleave
  exact ⟨hran.asserts, hran.reads, hran.visits⟩

lemma Ran.checkFunction {this : Option Ty} {isStatic : Bool} (hin : body.In cx)
    (hready : Ready cx body.nodes body.depth st) (hsettled : order = .asWritten ∨ body.Settled v)
    (h : (evaluator n).checkFunction id params body.ids doc this isStatic cx st = some ((), st')) :
    Ran cx v body.nodes body.nodes (fun read => body.upTo order read)
      {x | x ∈ params.map Param.name} st st' := by
  rw [checkFunction_eq] at h
  replace h := bind_rest h rfl
  replace h := bind_rest h rfl
  replace h := bind_rest h rfl
  obtain ⟨s, st1, hstore, h⟩ := of_bind h
  obtain ⟨hquiet1, -⟩ := quiet_onStore hstore
  obtain ⟨s', st2, hthis, h⟩ := of_bind h
  have hquiet : Quiet st st2 := hquiet1.trans (quiet_declareThis hthis)
  have hran := Ran.functionBody hin (hready.quiet hquiet) hsettled h
  exact hran.congr hquiet (.refl _)

lemma Ran.function {flow : Flow} (hid : cx.Declares id params body.ids) (hin : body.In cx)
    (hready : Ready cx body.nodes body.depth st) (hsettled : order = .asWritten ∨ body.Settled v)
    (h : (evaluator n).check id cx st = some (flow, st')) :
    Ran cx v body.nodes body.nodes (fun read => body.upTo order read)
      {x | x ∈ params.map Param.name} st st' := by
  obtain ⟨stmt, hstmt, m, doc, this, isStatic, st1, hrun, hevents, hasserts⟩ : ∃ stmt,
      cx.arena.stmt? id = some stmt ∧ ∃ m doc this isStatic st1,
        (evaluator m).checkFunction id params body.ids doc this isStatic cx (st.enterStmt id) =
          some ((), st1) ∧
        st'.events = .visited (st1.visitOf id none) :: st1.events ∧
        st'.table.assertions = st1.table.assertions := by
    generalize hids : body.ids = ids at hid
    cases hid with
    | function hstmt =>
      obtain ⟨m, st1, -, hrun, rfl⟩ := check_inside hstmt h
      obtain ⟨⟨⟩, hrun, -⟩ := of_result hrun
      exact ⟨_, hstmt, m, _, _, _, st1, hrun, rfl, rfl⟩
    | method hstmt hbody =>
      obtain ⟨m, st1, -, hrun, rfl⟩ := check_inside hstmt h
      rw [checkStmt, hbody] at hrun
      obtain ⟨this, st2, hthis, hrun⟩ := of_bind hrun
      obtain rfl : st2 = st.enterStmt id := fixes_thisType _ hthis
      obtain ⟨⟨⟩, hrun, -⟩ := of_result hrun
      exact ⟨_, hstmt, m, _, _, _, st1, hrun, rfl, rfl⟩
  have hquiet : Quiet st (st.enterStmt id) := ⟨rfl, rfl, rfl, rfl⟩
  have hran := Ran.checkFunction hin (hready.quiet hquiet) hsettled hrun
  refine (hran.congr hquiet (.refl _)).record _ hevents ?_ hasserts
  rintro visit ⟨⟩
  exact varName?_of_stmt? hstmt

/-! ## Functions are checked to the end -/

lemma succeeds_function (hid : cx.Declares id params body.ids) (hin : body.In cx)
    (hn : body.height < n) : Succeeds cx ((evaluator n).check id) := by
  have hrule {doc : Option String} {this : Option Ty} {isStatic : Bool} (hthis : Ty.KnownIn _ this) :
      Succeeds cx ((evaluator (n - 1)).checkFunction id params body.ids doc this isStatic) :=
    succeeds_holding.checkFunction succeeds_encloses.held id
      (fun _ _ => Ty.closed_true.resolvesIn trivial) hthis isStatic (body.succeeds hin (by omega))
  generalize hids : body.ids = ids at hid
  cases hid with
  | function hstmt =>
    refine succeeds_check hstmt (by omega) ?_
    rw [checkStmt, ← hids]
    exact .bind (hrule .none) fun _ _ => rfl
  | method hstmt hbody =>
    refine succeeds_check hstmt (by omega) ?_
    rw [checkStmt, hbody, ← hids]
    exact .bind (succeeds_holding.thisType _) fun _ =>
      .bind (hrule fun _ _ => trivial) fun _ _ => rfl

/-! ## Reads of assigned variables -/

/-- A variable that is a parameter of a function, or that every path to a read of it assigns, is not
reported as undefined there: the check of the function comes to its end, passes the read, and finds
nothing.  Paths enter a default case behind all tests of its switch, if no test that is written after
the default case assigns the variable, or else where the default case is written. -/
theorem definitely_assigned_not_reported {budget : Nat} {unit : SourceUnit} {cx : Context}
    {id read : NodeId} {params : List Param} {body : Cmds} {v : String} {order : Order} {st : State}
    (hunit : unit.arena = cx.arena) (hid : cx.Declares id params body.ids) (hin : body.In cx)
    (htree : body.nodes.Nodup) (hclear : Clear body.nodes st)
    (hdepth : st.depth + body.depth ≤ cx.options.maxDepth.toNat) (hbudget : body.height < budget)
    (horder : order = .asWritten ∨ body.Settled v) (hread : cx.IsVar read v)
    (hreached : Possible (body.upTo order read))
    (hassigned : v ∈ params.map Param.name ∨ Always v (body.upTo order read)) :
    ∃ flow st' new, (evaluator budget).check id cx st = some (flow, st') ∧
      st'.events = new ++ st.events ∧ (∃ visit, .visited visit ∈ new ∧ visit.node = read) ∧
      ∀ visit, .visited visit ∈ new → visit.node = read →
        Check.undefinedVariable.findings unit (.visited visit) = [] := by
  obtain ⟨flow, st', hcheck⟩ := (succeeds_function hid hin hbudget).exists_eq_some st
  have hran := Ran.function hid hin ⟨htree, hclear, hdepth⟩ horder hcheck
  obtain ⟨new, hnew, hall, hvisits⟩ := hran.visits
  refine ⟨flow, st', new, hcheck, hnew, hall read (hran.reads read hreached), ?_⟩
  rintro visit hvisit rfl
  have hname : cx.arena.varName? visit.node = some v := by rw [Arena.varName?, hread]
  have hreach := (hvisits visit hvisit (by rw [hname]; rfl)).2 hreached
  have hbound : v ∈ visit.names :=
    hreach.mem fun path hpath => hassigned.imp_right fun halways => halways path hpath
  rw [Check.findings, Visit.undefined?_eq_none (hunit ▸ hname) hbound]
  rfl

/-- A function that assigns `$y` in both branches of an `if` in a `do` loop, which may be left behind
the branches, and reads `$y` in the default case of a switch. -/
def loopedAssign : SourceUnit :=
  Build.result do
    let x ← Build.expr (.var "x")
    let one ← Build.expr (.int 1)
    let first ← Build.assignStmt "y" one
    let two ← Build.expr (.int 2)
    let second ← Build.assignStmt "y" two
    let branch ← Build.stmt (.simpleIf x [first] (some [second]))
    let y ← Build.expr (.var "y")
    let leave ← Build.stmt .breakStmt
    let test ← Build.stmt (.simpleIf y [leave] none)
    let again ← Build.expr (.var "x")
    let loop ← Build.stmt (.doWhileStmt [branch, test] again)
    let subject ← Build.expr (.var "x")
    let zero ← Build.expr (.int 0)
    let skip ← Build.stmt .breakStmt
    let read ← Build.expr (.var "y")
    let echo ← Build.stmt (.echoStmt [read])
    let switch ← Build.stmt (.switchStmt subject [⟨some zero, [skip]⟩, ⟨none, [echo]⟩])
    let function ← Build.stmt
      (.function { name := "f", params := [{ name := "x" }], body := [loop, switch] })
    Build.finish "unit" [function]

/-- The loop in `loopedAssign`. -/
def assigningLoop : Cmd :=
  .doWhile 14
    (.cons (.branch 9 (.var 0 "x") (.cons (.expr 4 (.assign 3 2 "y" (.literal 1))) .nil)
        (.otherwise (.cons (.expr 8 (.assign 7 6 "y" (.literal 5))) .nil)))
      (.cons (.branch 12 (.var 10 "y") (.cons (.leave 11) .nil) .none) .nil))
    (.var 13 "x")

/-- The body of the function in `loopedAssign`. -/
def loopedAssignBody : Cmds :=
  .cons assigningLoop
    (.cons (.switch 20 (.var 15 "x")
        (.case (.literal 16) (.cons (.leave 17) .nil)
          (.default (.cons (.echo 19 (.cons (.var 18 "y") .nil)) .nil) .nil)))
      .nil)

lemma loopedAssignBody_in : loopedAssignBody.In ⟨loopedAssign.arena, {}, {}⟩ := by
  refine ⟨⟨rfl, rfl, ⟨⟨rfl, rfl, ⟨⟨⟨none, rfl⟩, ?_⟩, trivial⟩, ⟨⟨none, rfl⟩, ?_⟩, trivial⟩, ?_⟩, rfl⟩,
    ⟨rfl, rfl, ?_⟩, trivial⟩
  · exact ⟨rfl, rfl, by decide, _, rfl, .int 1⟩
  · exact ⟨rfl, rfl, by decide, _, rfl, .int 2⟩
  · exact ⟨⟨rfl, rfl, ⟨rfl, trivial⟩, trivial⟩, trivial⟩
  · exact ⟨⟨_, rfl, .int 0⟩, ⟨rfl, trivial⟩, ⟨⟨rfl, rfl, trivial⟩, trivial⟩, trivial⟩

lemma always_assigningLoop : Always "y" (assigningLoop.leaves .afterTests .normal) := by
  have hround : assigningLoop.leaves .afterTests .normal =
      KStar.kstar ((Exp.assign 3 2 "y" (.literal 1)).ends + (Exp.assign 7 6 "y" (.literal 5)).ends) *
        ((Exp.assign 3 2 "y" (.literal 1)).ends + (Exp.assign 7 6 "y" (.literal 5)).ends) := by
    simp [assigningLoop, Cmd.leaves, Cmds.leaves, Chain.leaves, Way.andThen, Way.atOnce, Exp.on]
  rw [hround]
  exact .mul_left (.add Exp.always_assign Exp.always_assign)

theorem definitely_assigned_not_reported_loopedAssign :
    (mk loopedAssign.arena {} {}).Declares 21 [{ name := "x" }] loopedAssignBody.ids ∧
    loopedAssignBody.Settled "y" ∧ Possible (loopedAssignBody.upTo .afterTests 18) ∧
    Always "y" (loopedAssignBody.upTo .afterTests 18) ∧
    ∃ flow st' new,
      (evaluator 9).check 21 (.mk loopedAssign.arena {} {}) (.initial {}) = some (flow, st') ∧
      st'.events = new ++ (State.initial {}).events ∧
      (∃ visit, .visited visit ∈ new ∧ visit.node = 18) ∧
      ∀ visit, .visited visit ∈ new → visit.node = 18 →
        Check.undefinedVariable.findings loopedAssign (.visited visit) = [] := by
  have hstmt : (mk loopedAssign.arena {} {}).arena.stmt? 21 =
    some (.function { name := "f", params := [{ name := "x" }], body := [14, 20] }) := rfl
  have hdeclares : (mk loopedAssign.arena {} {}).Declares 21 [{ name := "x" }]
    loopedAssignBody.ids := (Declares.function hstmt :)
  have hupTo : loopedAssignBody.upTo .afterTests 18 = assigningLoop.leaves .afterTests .normal := by
    simp [loopedAssignBody, assigningLoop, Cmds.upTo, Cmd.upTo, Exp.upTo, Exps.upTo, Chain.upTo,
      Cases.enterUpTo, Cases.runUpTo, Cases.tests, Order.before, Cmds.leaves, Cmd.leaves, Chain.leaves,
      Way.andThen, Way.atOnce, Exp.ends, Exp.on]
  have hsettled : loopedAssignBody.Settled "y" := by
    simp [loopedAssignBody, assigningLoop, Cmds.Settled, Cmd.Settled, Chain.Settled, Cases.Settled,
      Cases.testWrites]
  have hpossible : Possible (loopedAssignBody.upTo .afterTests 18) := by
    rw [hupTo]
    simp [assigningLoop, Cmds.leaves, Cmd.leaves, Chain.leaves, Way.andThen, Way.atOnce, Exp.ends,
      Exp.on]
  have halways : Always "y" (loopedAssignBody.upTo .afterTests 18) := hupTo ▸ always_assigningLoop
  exact ⟨hdeclares, hsettled, hpossible, halways, definitely_assigned_not_reported rfl hdeclares
    loopedAssignBody_in (by decide +kernel) (fun _ _ => rfl) (by decide +kernel) (by decide +kernel)
    (.inr hsettled) rfl hpossible (.inr halways)⟩

/-- A switch whose default case reads `$y` and stands before a case whose test assigns `$y`. -/
def lateTest : SourceUnit :=
  Build.result do
    let x ← Build.expr (.var "x")
    let read ← Build.expr (.var "y")
    let echo ← Build.stmt (.echoStmt [read])
    let leave ← Build.stmt .breakStmt
    let one ← Build.expr (.int 1)
    let target ← Build.expr (.var "y")
    let test ← Build.expr (.assign target one)
    let again ← Build.expr (.var "y")
    let echoAgain ← Build.stmt (.echoStmt [again])
    let leaveAgain ← Build.stmt .breakStmt
    let switch ← Build.stmt (.switchStmt x [⟨none, [echo, leave]⟩, ⟨some test, [echoAgain, leaveAgain]⟩])
    let function ← Build.stmt (.function { name := "f", params := [{ name := "x" }], body := [switch] })
    Build.finish "unit" [function]

/-- The body of the function in `lateTest`. -/
def lateTestBody : Cmds :=
  .cons (.switch 10 (.var 0 "x")
      (.default (.cons (.echo 2 (.cons (.var 1 "y") .nil)) (.cons (.leave 3) .nil))
        (.case (.assign 6 5 "y" (.literal 4))
          (.cons (.echo 8 (.cons (.var 7 "y") .nil)) (.cons (.leave 9) .nil)) .nil)))
    .nil

/-- A default case is checked where it is written.  Every path to it goes through all tests of the
switch, but a variable that is assigned by a test behind it is reported as undefined in it. -/
theorem late_test_reported :
    (mk lateTest.arena {} {}).Declares 11 [{ name := "x" }] lateTestBody.ids ∧
    lateTestBody.In (.mk lateTest.arena {} {}) ∧ lateTestBody.nodes.Nodup ∧
    Possible (lateTestBody.upTo .afterTests 1) ∧ Always "y" (lateTestBody.upTo .afterTests 1) ∧
    ∃ flow st', (evaluator 9).check 11 (.mk lateTest.arena {} {}) (.initial {}) = some (flow, st') ∧
      ∃ visit, .visited visit ∈ st'.events ∧ visit.node = 1 ∧
        (Check.undefinedVariable.findings lateTest (.visited visit)).map Diagnostic.code = [1001] := by
  have hstmt : (mk lateTest.arena {} {}).arena.stmt? 11 =
    some (.function { name := "f", params := [{ name := "x" }], body := [10] }) := rfl
  have hupTo : lateTestBody.upTo .afterTests 1 = (Exp.assign 6 5 "y" (.literal 4)).ends := by
    simp [lateTestBody, Cmds.upTo, Cmd.upTo, Exp.upTo, Exps.upTo, Cases.enterUpTo, Cases.runUpTo,
      Exp.ends, Exp.on, Order.before, Cases.tests]
  refine ⟨(Declares.function hstmt :), ?_, by decide +kernel, ?_, ?_, ?_⟩
  · exact ⟨⟨rfl, rfl, ⟨⟨rfl, rfl, trivial⟩, rfl, trivial⟩, ⟨rfl, rfl, by decide, _, rfl, .int 1⟩,
      ⟨⟨rfl, rfl, trivial⟩, rfl, trivial⟩, trivial⟩, trivial⟩
  · rw [hupTo]
    exact Exp.possible_ends _
  · rw [hupTo]
    exact Exp.always_assign
  · have hrun : ((evaluator 9).check 11 (.mk lateTest.arena {} {}) (.initial {})).any (fun r =>
        r.2.events.any fun event => event.casesOn
          (fun visit => visit.node == 1 &&
            (Check.undefinedVariable.findings lateTest (.visited visit)).map Diagnostic.code == [1001])
          fun _ _ => false) = true := by
      decide +kernel
    obtain ⟨⟨flow, st'⟩, hrun, hany⟩ := (Option.any_eq_true ..).1 hrun
    obtain ⟨event, hevent, hreport⟩ := any_eq_true.1 hany
    cases event with
    | visited visit =>
      rw [Bool.and_eq_true, beq_iff_eq, beq_iff_eq] at hreport
      exact ⟨flow, st', hrun, visit, hevent, hreport⟩
    | left => cases hreport

end Definite

end FlowTyping

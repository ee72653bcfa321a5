import FlowTyping.Ast.Builder
import FlowTyping.Check.Report
import FlowTyping.Proofs.Check.FileOrder
import FlowTyping.Proofs.Walk.Engine

/-!
# Files that are read to their end

References between nodes may form cycles, and readers of a file therefore have budgets.  Where the parts
of a node come before the node, no reader uses up a budget of the order of the number of nodes: neither
the evaluation of expressions, which has a limit of depth besides, nor the readers without such a limit.

The rules take nodes in several roles: a target is looked at, written to and at times evaluated, an
argument is bound, and read again by name.  Still no two of these evaluate one node twice.  In a tree,
where there is one path to a node, a node is therefore evaluated once at most, and reported once.
-/

namespace FlowTyping

open Index List Option State

variable {α β : Type} {id : NodeId} {h n : Nat}

/-- The event is the evaluation of the node. -/
def Event.isVisitOf (id : NodeId) (e : Event) : Bool :=
  e.evaluated? == some id

lemma State.visited_count (st : State) (id : NodeId) :
    st.visited.count id = (st.history.filter (Event.isVisitOf id)).length := by
  rw [history, filter_reverse, length_reverse, visited, count,
    countP_filterMap, ← countP_eq_length_filter]
  refine countP_congr fun e _ => ?_
  cases e <;> simp [Event.isVisitOf, Event.evaluated?]

lemma Check.length_findings_undefinedVariable (unit : SourceUnit) (e : Event) :
    (Check.undefinedVariable.findings unit e).length ≤ 1 := by
  cases e with
  | visited visit =>
    rw [findings, length_map, length_toList]
    split <;> omega
  | left _ _ => exact Nat.zero_le 1

lemma length_flatMap_le {f : α → List β} (hf : ∀ a, (f a).length ≤ 1) (as : List α) :
    (as.flatMap f).length ≤ as.length := by
  induction as with
  | nil => exact Nat.le_refl 0
  | cons a as ih =>
    rw [flatMap_cons, length_append, length_cons]
    have := hf a
    omega

lemma not_of_length_filter {p : α → Bool} {before after : List α} {a : α}
    (h : ((before ++ a :: after).filter p).length ≤ 1) (ha : p a = true) {b : α}
    (hb : b ∈ before ++ after) : p b = false := by
  rw [filter_append, filter_cons_of_pos ha, length_append, length_cons] at h
  have hnone : (before ++ after).filter p = [] := by
    refine eq_nil_of_length_eq_zero ?_
    rw [filter_append, length_append]
    omega
  exact Bool.eq_false_iff.2 (filter_eq_nil_iff.1 hnone b hb)

/-- In a file whose nodes form a tree, the analysis evaluates every node once at most, whether it is an
expression or a statement.  A variable that is not defined is therefore reported once at most for
every place, and what is recorded at a node comes from the only evaluation of it: no other one stands
before or behind it. -/
theorem SourceUnit.analyze_of_isTree {unit : SourceUnit} (htree : unit.arena.IsTree unit.root)
    (index : Index) (options : Options) :
    ∃ st, unit.analyze index options = some st ∧
      ∀ id, (unit.arena.get? id).isSome = true →
        st.visited.count id ≤ 1 ∧
        ((st.history.filter (Event.isVisitOf id)).flatMap
          (Check.undefinedVariable.findings unit)).length ≤ 1 ∧
        ∀ before e after, st.history = before ++ e :: after → e.isVisitOf id = true →
          ∀ other ∈ before ++ after, other.isVisitOf id = false := by
  obtain ⟨st, hst, hvisited⟩ := analyzeUpTo_walks index options htree.onePath.endsWithin
    (le_budget options unit)
  refine ⟨st, hst, fun id hid => ?_⟩
  have honce : st.visited.count id ≤ 1 :=
    Nat.le_trans (hvisited id) (htree.count_pathsBelow _ hid)
  have hevents := honce
  rw [st.visited_count] at hevents
  refine ⟨honce, ?_, fun before e after hhistory he other hother => ?_⟩
  · exact Nat.le_trans (length_flatMap_le (Check.length_findings_undefinedVariable unit) _) hevents
  · rw [hhistory] at hevents
    exact not_of_length_filter hevents he hother

/-- A file that takes nodes in many roles: a compound assignment to an element of an undefined
variable, an argument that a function gets by reference, and the arguments of `compact`. -/
def manyRoles : SourceUnit := Build.result do
  let grid ← Build.expr (.var "grid")
  let x ← Build.expr (.var "x")
  let cell ← Build.expr (.dim grid (some x))
  let one ← Build.expr (.int 1)
  let add ← Build.expr (.compoundAssign .add cell one)
  let added ← Build.stmt (.exprStmt add none)
  let list ← Build.expr (.var "list")
  let sort ← Build.expr (.callNamed "sort" [list])
  let name ← Build.expr (.string "grid")
  let names ← Build.expr (.arrayOf [name])
  let compact ← Build.expr (.callNamed "compact" [names])
  let echo ← Build.stmt (.echoStmt [sort, compact])
  Build.finish "roles.php" [added, echo]

theorem SourceUnit.analyze_of_manyRoles :
    manyRoles.arena.IsTree manyRoles.root ∧
      ∃ st, manyRoles.analyze builtin {} = some st ∧ st.visited.count 1 ≤ 1 := by
  have htree : manyRoles.arena.IsTree manyRoles.root := by decide +kernel
  obtain ⟨st, hst, h⟩ := SourceUnit.analyze_of_isTree htree builtin {}
  exact ⟨htree, st, hst, (h 1 (by decide +kernel)).1⟩

-- A variable that stands in two places is evaluated in both.
example :
    ((SourceUnit.analyze ⟨"", ⟨#[⟨1, .expr (.var "x")⟩, ⟨1, .stmt (.echoStmt [0, 0])⟩]⟩, 1⟩ {} {}).map
      fun st => st.visited.count 0) = some 2 := by
  decide +kernel

open List Option

/-! ## Readers of declarations -/

lemma Arena.EndsWithin.literalTypeUpTo {arena : Arena} (hid : arena.EndsWithin h id) (hn : h ≤ n) :
    (arena.literalTypeUpTo n id).isSome = true := by
  induction h generalizing n id with
  | zero => cases hid
  | succ h ih =>
    obtain ⟨k, rfl⟩ : ∃ k, n = k + 1 := ⟨n - 1, by omega⟩
    have hoperand {op : UnaryOp} {operand : NodeId}
        (he : arena.expr? id = some (.unary op operand)) :
        (arena.literalTypeUpTo k operand).isSome = true := by
      refine ih (hid operand ?_) (by omega)
      rw [partsOf_of_expr? he]
      exact mem_cons_self
    unfold Arena.literalTypeUpTo
    split
    all_goals first
      | rfl
      | exact hoperand ‹_›

lemma isSome_foldlM {f : β → α → Option β} (h : ∀ b a, (f b a).isSome = true) (b : β)
    (as : List α) :
    (as.foldlM f b).isSome = true := by
  induction as generalizing b with
  | nil => rfl
  | cons a as ih =>
    obtain ⟨b', hb'⟩ := isSome_iff_exists.1 (h b a)
    rw [foldlM_cons, hb']
    exact ih b'

namespace DeclaredIn

variable {cx : DeclaredIn} (hliteral : ∀ id, (cx.arena.literalType id).isSome = true)

include hliteral

lemma classInfo_isSome (cls : ClassStmt) (node : NodeId) :
    (cx.classInfo cls node).isSome = true := by
  refine isSome_foldlM (fun info member => ?_) _ _
  unfold addMember
  split
  · rfl
  · rfl
  · rw [isSome_map]
    exact hliteral _
  · rfl
  · rfl
  · rfl

lemma defined_isSome (expr : NodeId) : (cx.defined expr).isSome = true := by
  unfold defined
  split
  · split
    · split
      · rw [isSome_map]
        exact hliteral _
      · rfl
    · rfl
  · rfl

lemma collectUpTo_isSome (hid : cx.arena.EndsWithin h id) (hn : h ≤ n) :
    (cx.collectUpTo n id).isSome = true := by
  induction h generalizing n id with
  | zero => cases hid
  | succ h ih =>
    obtain ⟨k, rfl⟩ : ∃ k, n = k + 1 := ⟨n - 1, by omega⟩
    have hall {stmt : Stmt} {stmts : List NodeId} (hstmt : cx.arena.stmt? id = some stmt)
        (hsub : stmts ⊆ stmt.allParts) :
        ((stmts.mapM (cx.collectUpTo k)).map flatten).isSome = true := by
      rw [isSome_map]
      refine isSome_mapM_iff.2 fun c hc => ih (hid c ?_) (by omega)
      rw [Arena.partsOf_of_stmt? hstmt]
      exact hsub hc
    unfold collectUpTo
    split
    · next hstmt => exact hall hstmt (Subset.refl _)
    · next hstmt => exact hall hstmt (Subset.refl _)
    · next hstmt =>
      refine hall hstmt fun c hc => ?_
      simp only [mem_append, mem_flatMap] at hc
      simp only [Stmt.allParts, Stmt.children, ElseIf.children, mem_append, mem_cons,
        mem_flatMap]
      rcases hc with (hc | ⟨branch, hbranch, hc⟩) | hc
      · exact .inl (.inl (.inr hc))
      · exact .inl (.inr ⟨branch, hbranch, .inr hc⟩)
      · exact .inr hc
    · rfl
    · rw [isSome_map]
      exact classInfo_isSome hliteral _ _
    · exact defined_isSome hliteral _
    · rfl

end DeclaredIn

/-! ## Files -/

lemma Walks.isSome {cx : Context} {below : NodeId → List NodeId} {nodes : List NodeId}
    {m : Analysis α} (hm : Walks cx below nodes m) (st : State) : (m cx st).isSome = true := by
  obtain ⟨a, st', h, -⟩ := @hm st
  rw [h]
  rfl

/-- In a file whose nodes come after their parts, every reader comes to its end.  A budget of one more
than the number of nodes is enough for those that follow initializers, containers and statements, and
one of twice as much for what evaluates expressions, statements, targets, containers that are written
to, and arguments that name variables, in whatever state it starts.  So the declarations of the file
are found, and there is a report on it. -/
theorem SourceUnit.report_of_grounded {unit : SourceUnit} (hground : unit.arena.Grounded)
    (index : Index) (options : Options) :
    (∀ n, unit.arena.size + 1 ≤ n → ∀ id,
      (unit.arena.literalTypeUpTo n id).isSome = true ∧
      (unit.arena.containerUpTo n id).isSome = true ∧
      (DeclaredIn.collectUpTo ⟨unit.arena, unit.file⟩ n id).isSome = true) ∧
    (∀ n, 2 * (unit.arena.size + 1) ≤ n → ∀ id type line st,
      ((evaluator n).infer id ⟨unit.arena, index, options⟩ st).isSome = true ∧
      ((evaluator n).check id ⟨unit.arena, index, options⟩ st).isSome = true ∧
      ((evaluator n).assign id type line ⟨unit.arena, index, options⟩ st).isSome = true ∧
      ((evaluator n).writeInto id line ⟨unit.arena, index, options⟩ st).isSome = true ∧
      ((evaluator n).compact id ⟨unit.arena, index, options⟩ st).isSome = true) ∧
    (∀ n, 2 * (unit.arena.size + 1) ≤ n → (unit.analyzeUpTo index options n).isSome = true) ∧
    (index.addUnit unit).isSome = true ∧ (unit.report index options).isSome = true := by
  have hends := hground.endsWithin
  have hliteral (id : NodeId) : (unit.arena.literalType id).isSome = true :=
    (hends id).literalTypeUpTo (Nat.le_refl _)
  have hanalyze (n : Nat) (hn : 2 * (unit.arena.size + 1) ≤ n) :
      (unit.analyzeUpTo index options n).isSome = true := by
    obtain ⟨st, hst, -⟩ := analyzeUpTo_walks index options (hends unit.root) hn
    rw [hst]
    rfl
  refine ⟨fun n hn id => ⟨?_, ?_, ?_⟩, fun n hn id type line st => ?_, hanalyze, ?_, ?_⟩
  · exact (hends id).literalTypeUpTo hn
  · exact (hends id).containerUpTo hn
  · exact DeclaredIn.collectUpTo_isSome hliteral (hends id) hn
  · have hev := walker_evaluator ⟨unit.arena, index, options⟩ (Nat.le_refl _) hn
    exact ⟨(hev.infer (hends id)).isSome st, (hev.check (hends id)).isSome st,
      (hev.assign (hends id) (fun _ _ => trivial) line).isSome st, (hev.writeInto (hends id) line).isSome st,
      (hev.compact (hends id)).isSome st⟩
  · rw [addUnit, isSome_map]
    exact DeclaredIn.collectUpTo_isSome hliteral (hends unit.root) (Nat.le_refl _)
  · obtain ⟨st, hst⟩ := isSome_iff_exists.1 (hanalyze _ (le_budget options unit))
    unfold report analyze
    rw [hst]
    rfl

/-- A file with a sign in an initializer, nested element accesses in a destructuring that is assigned
to, and a closure with a statement in it. -/
def nestedReaders : SourceUnit := Build.result do
  let one ← Build.expr (.int 1)
  let minus ← Build.expr (.unary .minus one)
  let const ← Build.stmt (.classConst "UNIT" minus)
  let cls ← Build.stmt (.classDecl { name := "Scale", members := [const] })
  let base ← Build.expr (.var "grid")
  let row ← Build.expr (.dim base none)
  let cell ← Build.expr (.dim row (some minus))
  let rest ← Build.expr (.var "rest")
  let target ← Build.expr (.listOf [cell, rest])
  let x ← Build.expr (.var "x")
  let result ← Build.stmt (.returnStmt (some x))
  let closure ← Build.expr (.closure { params := [], uses := [], body := [result] })
  let call ← Build.expr (.callNamed "array_map" [closure, base])
  let assign ← Build.expr (.assign target call)
  let stmt ← Build.stmt (.exprStmt assign none)
  let block ← Build.stmt (.block [stmt])
  Build.finish "nested.php" [cls, block]

theorem SourceUnit.report_of_nestedReaders :
    nestedReaders.arena.Grounded ∧
      ((evaluator (2 * (nestedReaders.arena.size + 1))).assign 8 none 1
        ⟨nestedReaders.arena, {}, {}⟩ (initial {})).isSome = true ∧
      (nestedReaders.report {} {}).isSome = true := by
  have hground : nestedReaders.arena.Grounded := by decide +kernel
  have h := SourceUnit.report_of_grounded hground {} {}
  exact ⟨hground, (h.2.1 _ (Nat.le_refl _) 8 none 1 _).2.2.1, h.2.2.2.2⟩

-- A block that holds itself is never read to its end.
example : ({ file := "", arena := ⟨#[⟨1, .stmt (.block [0])⟩]⟩, root := 0 } : SourceUnit).report {}
    { maxDepth := 0 } = none := by
  decide +kernel

end FlowTyping

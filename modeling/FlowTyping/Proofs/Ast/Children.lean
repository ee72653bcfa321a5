import FlowTyping.Ast.Node
import Mathlib.Tactic.Lemma

/-!
# Parts of a node

The nodes that the rule of a node turns to, and the nodes below a node.  A loop, a switch and a
declared function shield what they enclose: the nodes inside do not count as parts of the statement
itself.
-/

namespace FlowTyping

open List

variable {arena : Arena} {stmt : Stmt} {e : Expr} {p : NodeId → Prop} {below : NodeId}

/-! ## Kinds of nodes -/

lemma Arena.expr?_of_stmt? {id : NodeId} (h : arena.stmt? id = some stmt) :
    arena.expr? id = none := by
  unfold stmt? at h
  unfold expr?
  split at h
  · next hnode => rw [hnode]
  · cases h

lemma Arena.stmt?_of_expr? {id : NodeId} (h : arena.expr? id = some e) : arena.stmt? id = none := by
  cases hs : arena.stmt? id with
  | none => rfl
  | some stmt =>
    rw [expr?_of_stmt? hs] at h
    cases h

/-! ## Parts -/

/-- The expression that computes a class. -/
def ClassRef.children : ClassRef → List NodeId
  | .named _ => []
  | .dynamic expr => [expr]

/-- The expression that computes a function. -/
def Callee.children : Callee → List NodeId
  | .named _ => []
  | .dynamic expr => [expr]

/-- The expression that computes a member. -/
def MemberName.children : MemberName → List NodeId
  | .identifier _ => []
  | .dynamic expr => [expr]

/-- The key and the value of an item. -/
def ArrayItem.children (item : ArrayItem) : List NodeId :=
  item.key.toList ++ [item.value]

/-- The conditions and the body of an arm. -/
def MatchArm.children (arm : MatchArm) : List NodeId :=
  arm.conditions.getD [] ++ [arm.body]

/-- The condition and the body of a branch. -/
def ElseIf.children (branch : ElseIf) : List NodeId :=
  branch.condition :: branch.body

/-- The parts of an expression.  The body of an anonymous function is among them. -/
def Expr.children : Expr → List NodeId
  | .var _ | .int _ | .float _ | .string _ | .const _ => []
  | .interpolated parts => parts
  | .classConst cls _ | .staticProp cls _ => cls.children
  | .array items => items.flatMap ArrayItem.children
  | .list items => (items.filterMap id).flatMap ArrayItem.children
  | .binary _ left right => [left, right]
  | .assign target value | .assignRef target value | .compoundAssign _ target value =>
    [target, value]
  | .prop object name _ => object :: name.children
  | .dim base index => base :: index.toList
  | .call callee args => callee.children ++ args.map Arg.value
  | .methodCall object name args _ => object :: name.children ++ args.map Arg.value
  | .staticCall cls name args => cls.children ++ name.children ++ args.map Arg.value
  | .new cls args => cls.children ++ args.map Arg.value
  | .closure fn => fn.body
  | .arrow fn => [fn.body]
  | .ternary condition ifTrue ifFalse => condition :: ifTrue.toList ++ [ifFalse]
  | .matchExpr subject arms => subject :: arms.flatMap MatchArm.children
  | .instanceOf expr cls => expr :: cls.children
  | .isSet vars => vars
  | .exit expr => expr.toList
  | .dynamicVar expr | .unary _ expr | .incDec _ expr | .empty expr | .cast _ expr | .clone expr
  | .print expr | .suppress expr | .includeFile expr | .throwExpr expr => [expr]

/-- The arguments of a call. -/
def Expr.args : Expr → List NodeId
  | .call _ args | .new _ args | .methodCall _ _ args _ | .staticCall _ _ args => args.map Arg.value
  | _ => []

/-- What the evaluation of an expression writes to, besides arguments, and what it runs. -/
def Expr.places : Expr → List NodeId
  | .assign target _ | .assignRef target _ | .compoundAssign _ target _ | .incDec _ target => [target]
  | .closure fn => fn.body
  | _ => []

section Roles

variable (h : ∀ c ∈ e.children, p c)

include h

lemma Expr.forall_args : ∀ c ∈ e.args, p c := by
  intro c hc
  apply h
  cases e with
  | call | new | methodCall | staticCall => exact mem_append_right _ hc
  | _ => cases hc

lemma Expr.forall_places : ∀ c ∈ e.places, p c := by
  intro c hc
  apply h
  cases e with
  | assign | assignRef | compoundAssign => exact mem_cons.2 (.inl (mem_singleton.1 hc))
  | incDec | closure => exact hc
  | _ => cases hc

end Roles

/-- The parts of an expression that a write to it turns to: the container of an element, and the
elements of a list. -/
def Expr.looseParts : Expr → List NodeId
  | .dim base _ => [base]
  | .array items => items.map ArrayItem.value
  | .list items => (items.filterMap id).map ArrayItem.value
  | _ => []

lemma Expr.mem_children_of_item {items : List ArrayItem} {value : NodeId}
    (h : value ∈ items.map ArrayItem.value) : value ∈ items.flatMap ArrayItem.children := by
  obtain ⟨item, hitem, rfl⟩ := mem_map.1 h
  exact mem_flatMap.2 ⟨item, hitem, by simp [ArrayItem.children]⟩

lemma Expr.forall_looseParts (h : ∀ c ∈ e.children, p c) : ∀ c ∈ e.looseParts, p c := by
  intro c hc
  apply h
  cases e with
  | dim => exact mem_cons.2 (.inl (mem_singleton.1 hc))
  | array | list => exact mem_children_of_item hc
  | _ => cases hc

/-- The parts of a statement that are not enclosed by it. -/
def Stmt.children : Stmt → List NodeId
  | .sourceFile _ stmts | .block stmts => stmts
  | .exprStmt expr _ => [expr]
  | .echoStmt exprs => exprs
  | .returnStmt expr => expr.toList
  | .ifStmt condition thenBranch elseIfs elseBranch =>
    condition :: thenBranch ++ elseIfs.flatMap ElseIf.children ++ elseBranch.getD []
  | .whileStmt condition _ => [condition]
  | .forStmt init condition _ _ => init ++ condition
  | .foreachStmt subject key value _ _ => subject :: key.toList ++ [value]
  | .switchStmt subject _ => [subject]
  | .tryStmt body catches finallyBody =>
    body ++ catches.flatMap CatchClause.body ++ finallyBody.getD []
  | .staticStmt vars => vars.filterMap StaticVar.default
  | .unsetStmt vars => vars
  | .classDecl cls => cls.members
  | .doWhileStmt .. | .breakStmt | .continueStmt | .globalStmt _ | .declareStmt _ | .function _
  | .method _ | .property _ | .classConst .. | .enumCase .. | .traitUse _ => []

/-- Whether the statement leaves the innermost loop or switch around it. -/
def Stmt.isJump : Stmt → Bool
  | .breakStmt | .continueStmt => true
  | _ => false

/-- A jump that no loop, switch or declared function encloses can be reached from the node. -/
inductive Jumps (arena : Arena) : NodeId → Prop
  | jump {id : NodeId} {stmt : Stmt} (h : arena.stmt? id = some stmt) (hjump : stmt.isJump) :
    Jumps arena id
  | inStmt {id child : NodeId} {stmt : Stmt} (h : arena.stmt? id = some stmt)
    (hchild : child ∈ stmt.children) (hjumps : Jumps arena child) : Jumps arena id
  | inExpr {id child : NodeId} {e : Expr} (h : arena.expr? id = some e)
    (hchild : child ∈ e.children) (hjumps : Jumps arena child) : Jumps arena id

/-- Whether a jump can be reached from the node, or more levels of parts than given. -/
def Arena.reachesJump (arena : Arena) : (levels : Nat) → NodeId → Bool
  | 0, _ => true
  | n + 1, id =>
    ((arena.stmt? id).any fun stmt => stmt.isJump || stmt.children.any (reachesJump arena n)) ||
      (arena.expr? id).any fun e => e.children.any (reachesJump arena n)

lemma Jumps.reachesJump {id : NodeId} (h : Jumps arena id) (n : Nat) :
    arena.reachesJump n id = true := by
  induction h generalizing n with
  | jump h hjump =>
    cases n with
    | zero => rfl
    | succ n => simp [Arena.reachesJump, h, hjump]
  | inStmt h hchild _ ih | inExpr h hchild _ ih =>
    cases n with
    | zero => rfl
    | succ n =>
      have hfound := any_eq_true.2 ⟨_, hchild, ih n⟩
      simp [Arena.reachesJump, h, hfound]

lemma not_jumps_of_reachesJump {id : NodeId} {n : Nat}
    (h : arena.reachesJump n id = false) : ¬ Jumps arena id :=
  fun hjumps => Bool.false_ne_true (h.symm.trans (hjumps.reachesJump n))

/-- The test and the body of a case. -/
def SwitchCase.children (case : SwitchCase) : List NodeId :=
  case.test.toList ++ case.body

/-- The parts of a statement, with those that it encloses. -/
def Stmt.allParts : Stmt → List NodeId
  | .whileStmt condition body | .doWhileStmt body condition => condition :: body
  | .forStmt init condition step body => init ++ condition ++ (step ++ body)
  | .foreachStmt subject key value _ body => subject :: key.toList ++ value :: body
  | .switchStmt subject cases => subject :: cases.flatMap SwitchCase.children
  | .function fn => fn.body
  | .method fn => fn.body.getD []
  | stmt => stmt.children

lemma Stmt.mem_allParts {c : NodeId} (h : c ∈ stmt.children) :
    c ∈ stmt.allParts := by
  cases stmt with
  | whileStmt _ _ | switchStmt _ _ => exact mem_cons.2 (.inl (mem_singleton.1 h))
  | forStmt _ _ _ _ => exact mem_append_left _ h
  | foreachStmt subject key value _ body =>
    rw [allParts, append_cons]
    exact mem_append_left body h
  | function _ | method _ | doWhileStmt _ _ => cases h
  | _ => exact h

/-- The second node is the first one or stands somewhere in it. -/
inductive Arena.Reach (arena : Arena) : NodeId → NodeId → Prop
  | refl (id : NodeId) : Reach arena id id
  | expr {id child below : NodeId} {e : Expr} (h : arena.expr? id = some e)
    (hchild : child ∈ e.children) (hbelow : Reach arena child below) : Reach arena id below
  | stmt {id child below : NodeId} {stmt : Stmt} (h : arena.stmt? id = some stmt)
    (hchild : child ∈ stmt.allParts) (hbelow : Reach arena child below) : Reach arena id below

namespace Arena.Reach

variable {id inner : NodeId}

lemma trans (h : arena.Reach id inner) (h' : arena.Reach inner below) :
    arena.Reach id below := by
  induction h with
  | refl => exact h'
  | expr he hc _ ih => exact .expr he hc (ih h')
  | stmt hs hc _ ih => exact .stmt hs hc (ih h')

lemma child (h : arena.expr? id = some e) (hinner : inner ∈ e.children) :
    arena.Reach id inner :=
  .expr h hinner (.refl inner)

lemma part (h : arena.stmt? id = some stmt) (hinner : inner ∈ stmt.allParts) :
    arena.Reach id inner :=
  .stmt h hinner (.refl inner)

end Arena.Reach

/-- The parts of a node. -/
def Arena.partsOf (arena : Arena) (id : NodeId) : List NodeId :=
  match arena.get? id with
  | some ⟨_, .expr e⟩ => e.children
  | some ⟨_, .stmt stmt⟩ => stmt.allParts
  | none => []

namespace Arena

variable {id : NodeId}

lemma partsOf_of_expr? (h : arena.expr? id = some e) : arena.partsOf id = e.children := by
  unfold expr? at h
  split at h
  · next hget =>
    cases h
    rw [partsOf, hget]
  · cases h

lemma get?_isSome_of_expr? (h : arena.expr? id = some e) :
    (arena.get? id).isSome = true := by
  unfold expr? at h
  split at h
  · next hget =>
    rw [hget]
    rfl
  · cases h

lemma get?_isSome_of_stmt? (h : arena.stmt? id = some stmt) :
    (arena.get? id).isSome = true := by
  unfold stmt? at h
  split at h
  · next hget =>
    rw [hget]
    rfl
  · cases h

lemma expr?_of_varName? {name : String} (h : arena.varName? id = some name) :
    arena.expr? id = some (.var name) := by
  unfold varName? at h
  split at h
  · next he =>
    cases h
    exact he
  · cases h

lemma partsOf_of_stmt? (h : arena.stmt? id = some stmt) :
    arena.partsOf id = stmt.allParts := by
  unfold stmt? at h
  split at h
  · next hget =>
    cases h
    rw [partsOf, hget]
  · cases h

/-- The nodes have all their parts among them. -/
def closedUnder (arena : Arena) (nodes : List NodeId) : Bool :=
  nodes.all fun c => (arena.partsOf c).all nodes.contains

lemma Reach.mem_of_closed (h : arena.Reach id below) (nodes : List NodeId)
    (hclosed : arena.closedUnder nodes = true) (hid : id ∈ nodes) : below ∈ nodes := by
  have hparts : ∀ {c}, c ∈ nodes → ∀ {part}, part ∈ arena.partsOf c → part ∈ nodes := by
    intro c hc part hpart
    exact contains_iff_mem.1 (all_eq_true.1 (all_eq_true.1 hclosed c hc) part hpart)
  induction h with
  | refl => exact hid
  | expr he hchild _ ih => exact ih (hparts hid (partsOf_of_expr? he ▸ hchild))
  | stmt hs hchild _ ih => exact ih (hparts hid (partsOf_of_stmt? hs ▸ hchild))

end Arena

end FlowTyping

import FlowTyping.Analysis.Engine
import FlowTyping.Proofs.Ast.Children
import Mathlib.Computability.Language

/-!
# Paths through a function body

The body of a function with branches, loops, switches and jumps, as a tree whose parts carry the
nodes that they stand at.  A path through it is given by the names that it assigns, in order, so the
paths from one point to another are a language over names: one part after another is a product, a
choice is a sum, and the rounds of a loop are a star.  Conditions may come out either way.

For each kind of tree, `In` says that the nodes of an arena are the tree, and `nodes` lists the
expressions that are evaluated.
-/

namespace FlowTyping

open Language List

open scoped Computability

variable {first : Way → Language String} {way : Way} {p q : Language String} {v : String}

/-- The expression is a literal or a constant. -/
inductive Expr.IsLiteral : Expr → Prop
  | int (value : Int64) : IsLiteral (.int value)
  | float (value : Decimal) : IsLiteral (.float value)
  | string (text : String) : IsLiteral (.string text)
  | const (name : String) : IsLiteral (.const name)

/-- The expression evaluates the given nodes in order and nothing else: a text with parts, an array,
or a call of a function that is not declared. -/
inductive Context.EvaluatesEach (cx : Context) : Expr → List NodeId → Prop
  | interpolated (ids : List NodeId) : EvaluatesEach cx (.interpolated ids) ids
  | array {items : List ArrayItem} (h : ∀ item ∈ items, item.byRef = false) :
    EvaluatesEach cx (.array items) (items.flatMap ArrayItem.children)
  | call {function : String} (args : List Arg) (h : cx.index.function? function = none) :
    EvaluatesEach cx (.call (.named function) args) (args.map Arg.value)
  | dynamicCall (callee : NodeId) (args : List Arg) :
    EvaluatesEach cx (.call (.dynamic callee) args) (callee :: args.map Arg.value)

namespace Definite

/-! ## Expressions -/

mutual
/-- Expressions. -/
inductive Exp where
  | var (id : NodeId) (x : String)
  | literal (id : NodeId)
  /-- Evaluates its parts in order. -/
  | each (id : NodeId) (es : Exps)
  /-- `$x = e`, where `$x` stands at `target`. -/
  | assign (id target : NodeId) (x : String) (e : Exp)
  | not (id : NodeId) (e : Exp)
  | and (id : NodeId) (left right : Exp)
  | or (id : NodeId) (left right : Exp)
  /-- `c ? t : e` -/
  | choice (id : NodeId) (c t e : Exp)
  /-- `c ?: e` -/
  | short (id : NodeId) (c e : Exp)
/-- Lists of expressions. -/
inductive Exps where
  | nil
  | cons (e : Exp) (es : Exps)
end

/-- The node of the expression. -/
def Exp.id : Exp → NodeId
  | .var id _ | .literal id | .each id _ | .assign id .. | .not id _ | .and id .. | .or id ..
  | .choice id .. | .short id .. => id

/-- The nodes of the expressions. -/
def Exps.ids : Exps → List NodeId
  | .nil => []
  | .cons e es => e.id :: es.ids

mutual
/-- The expressions that are evaluated. -/
def Exp.nodes : Exp → List NodeId
  | .var id _ | .literal id => [id]
  | .each id es => id :: es.nodes
  | .assign id _ _ e | .not id e => id :: e.nodes
  | .and id left right | .or id left right | .short id left right =>
    id :: (left.nodes ++ right.nodes)
  | .choice id c t e => id :: (c.nodes ++ (t.nodes ++ e.nodes))
def Exps.nodes : Exps → List NodeId
  | .nil => []
  | .cons e es => e.nodes ++ es.nodes
end

mutual
/-- The expression stands in the arena. -/
def Exp.In (cx : Context) : Exp → Prop
  | .var id x => cx.arena.expr? id = some (.var x)
  | .literal id => ∃ e, cx.arena.expr? id = some e ∧ e.IsLiteral
  | .each id es => (∃ e, cx.arena.expr? id = some e ∧ cx.EvaluatesEach e es.ids) ∧ es.In cx
  | .assign id target x e =>
    cx.arena.expr? id = some (.assign target e.id) ∧ cx.arena.expr? target = some (.var x) ∧
      x ≠ "this" ∧ e.In cx
  | .not id e => cx.arena.expr? id = some (.unary .not e.id) ∧ e.In cx
  | .and id left right =>
    (∃ op, cx.arena.expr? id = some (.binary op left.id right.id) ∧
      (op = .boolAnd ∨ op = .logicalAnd)) ∧ left.In cx ∧ right.In cx
  | .or id left right =>
    (∃ op, cx.arena.expr? id = some (.binary op left.id right.id) ∧
      (op = .boolOr ∨ op = .logicalOr)) ∧ left.In cx ∧ right.In cx
  | .choice id c t e =>
    cx.arena.expr? id = some (.ternary c.id (some t.id) e.id) ∧ c.In cx ∧ t.In cx ∧ e.In cx
  | .short id c e => cx.arena.expr? id = some (.ternary c.id none e.id) ∧ c.In cx ∧ e.In cx
def Exps.In (cx : Context) : Exps → Prop
  | .nil => True
  | .cons e es => e.In cx ∧ es.In cx
end

mutual
/-- The levels of nested expressions. -/
def Exp.height : Exp → Nat
  | .var .. | .literal _ => 1
  | .each _ es => es.height + 1
  | .assign _ _ _ e => max e.height 1 + 1
  | .not _ e => e.height + 1
  | .and _ left right | .or _ left right | .short _ left right => max left.height right.height + 1
  | .choice _ c t e => max c.height (max t.height e.height) + 1
def Exps.height : Exps → Nat
  | .nil => 0
  | .cons e es => max e.height es.height
end

mutual
/-- The names that occur as targets of assignments. -/
def Exp.writes : Exp → List String
  | .var .. | .literal _ => []
  | .each _ es => es.writes
  | .assign _ _ x e => e.writes ++ [x]
  | .not _ e => e.writes
  | .and _ left right | .or _ left right | .short _ left right => left.writes ++ right.writes
  | .choice _ c t e => c.writes ++ (t.writes ++ e.writes)
def Exps.writes : Exps → List String
  | .nil => []
  | .cons e es => e.writes ++ es.writes
end

mutual
/-- The paths through an expression that comes out like this. -/
def Exp.on : Exp → Bool → Language String
  | .var .., _ | .literal _, _ => 1
  | .each _ es, _ => es.all
  | .assign _ _ x e, b => e.on b * {[x]}
  | .not _ e, b => e.on (!b)
  | .and _ left right, true => left.on true * right.on true
  | .and _ left right, false => left.on false + left.on true * right.on false
  | .or _ left right, true => left.on true + left.on false * right.on true
  | .or _ left right, false => left.on false * right.on false
  | .choice _ c t e, b => c.on true * t.on b + c.on false * e.on b
  | .short _ c e, true => c.on true + c.on false * e.on true
  | .short _ c e, false => c.on false * e.on false
def Exps.all : Exps → Language String
  | .nil => 1
  | .cons e es => (e.on true + e.on false) * es.all
end

/-- The paths through an expression. -/
def Exp.ends (e : Exp) : Language String :=
  e.on true + e.on false

/-- The paths through expressions in order, of which the last one comes out like this.  Nothing at
all comes out true. -/
def Exps.decide : Exps → Bool → Language String
  | .nil, true => 1
  | .nil, false => 0
  | .cons e .nil, b => e.on b
  | .cons e es, b => e.ends * es.decide b

mutual
/-- The paths to the read at a node. -/
def Exp.upTo (read : NodeId) : Exp → Language String
  | .var id _ => if read = id then 1 else 0
  | .literal _ => 0
  | .each _ es => es.upTo read
  | .assign _ _ _ e | .not _ e => e.upTo read
  | .and _ left right => left.upTo read + left.on true * right.upTo read
  | .or _ left right => left.upTo read + left.on false * right.upTo read
  | .choice _ c t e => c.upTo read + (c.on true * t.upTo read + c.on false * e.upTo read)
  | .short _ c e => c.upTo read + c.on false * e.upTo read
def Exps.upTo (read : NodeId) : Exps → Language String
  | .nil => 0
  | .cons e es => e.upTo read + (e.on true + e.on false) * es.upTo read
end

/-! ## Statements -/

mutual
/-- Statements. -/
inductive Cmd where
  | expr (id : NodeId) (e : Exp)
  | echo (id : NodeId) (es : Exps)
  | ret (id : NodeId) (es : Exps)
  | block (id : NodeId) (body : Cmds)
  | branch (id : NodeId) (c : Exp) (body : Cmds) (rest : Chain)
  | whileLoop (id : NodeId) (c : Exp) (body : Cmds)
  | doWhile (id : NodeId) (body : Cmds) (c : Exp)
  | forLoop (id : NodeId) (init condition step : Exps) (body : Cmds)
  /-- A loop over `subject` that assigns the names in each round. -/
  | foreach (id : NodeId) (subject : Exp) (names : List String) (body : Cmds)
  | switch (id : NodeId) (subject : Exp) (cases : Cases)
  | leave (id : NodeId)
  | next (id : NodeId)
/-- Lists of statements. -/
inductive Cmds where
  | nil
  | cons (c : Cmd) (cs : Cmds)
/-- What follows the first branch of an `if`: nothing, `else`, or `elseif` with the rest. -/
inductive Chain where
  | none
  | otherwise (body : Cmds)
  | elseIf (c : Exp) (body : Cmds) (rest : Chain)
/-- The cases of a switch. -/
inductive Cases where
  | nil
  | case (test : Exp) (body : Cmds) (rest : Cases)
  | default (body : Cmds) (rest : Cases)
end

/-- The node of the statement. -/
def Cmd.id : Cmd → NodeId
  | .expr id _ | .echo id _ | .ret id _ | .block id _ | .branch id .. | .whileLoop id ..
  | .doWhile id .. | .forLoop id .. | .foreach id .. | .switch id .. | .leave id | .next id => id

/-- The nodes of the statements. -/
def Cmds.ids : Cmds → List NodeId
  | .nil => []
  | .cons c cs => c.id :: cs.ids

namespace Chain

/-- The `elseif` branches as the arena has them. -/
def elseIfs : Chain → List ElseIf
  | none | otherwise _ => []
  | elseIf c body rest => ⟨c.id, body.ids⟩ :: rest.elseIfs

/-- The `else` branch as the arena has it. -/
def elseBranch : Chain → Option (List NodeId)
  | none => .none
  | otherwise body => some body.ids
  | elseIf _ _ rest => rest.elseBranch

end Chain

namespace Cases

/-- The cases as the arena has them. -/
def toList : Cases → List SwitchCase
  | nil => []
  | case test body rest => ⟨some test.id, body.ids⟩ :: rest.toList
  | default body rest => ⟨none, body.ids⟩ :: rest.toList

/-- Whether there is a default case. -/
def hasDefault : Cases → Bool
  | nil => false
  | case _ _ rest => rest.hasDefault
  | default .. => true

/-- The names that occur in tests as targets of assignments. -/
def testWrites : Cases → List String
  | nil => []
  | case test _ rest => test.writes ++ rest.testWrites
  | default _ rest => rest.testWrites

/-- The paths through all tests. -/
def tests : Cases → Language String
  | nil => 1
  | case test _ rest => test.ends * rest.tests
  | default _ rest => rest.tests

end Cases

mutual
/-- The expressions that are evaluated. -/
def Cmd.nodes : Cmd → List NodeId
  | .expr _ e => e.nodes
  | .echo _ es | .ret _ es => es.nodes
  | .block _ body => body.nodes
  | .branch _ c body rest => c.nodes ++ (body.nodes ++ rest.nodes)
  | .whileLoop _ c body => c.nodes ++ body.nodes
  | .doWhile _ body c => body.nodes ++ c.nodes
  | .forLoop _ init condition step body =>
    init.nodes ++ (condition.nodes ++ (body.nodes ++ step.nodes))
  | .foreach _ subject _ body => subject.nodes ++ body.nodes
  | .switch _ subject cases => subject.nodes ++ cases.nodes
  | .leave _ | .next _ => []
def Cmds.nodes : Cmds → List NodeId
  | .nil => []
  | .cons c cs => c.nodes ++ cs.nodes
def Chain.nodes : Chain → List NodeId
  | .none => []
  | .otherwise body => body.nodes
  | .elseIf c body rest => c.nodes ++ (body.nodes ++ rest.nodes)
def Cases.nodes : Cases → List NodeId
  | .nil => []
  | .case test body rest => test.nodes ++ (body.nodes ++ rest.nodes)
  | .default body rest => body.nodes ++ rest.nodes
end

mutual
/-- Whether a `continue` in the statement belongs to a loop or switch around it. -/
def Cmd.continues : Cmd → Bool
  | .next _ => true
  | .block _ body => body.continues
  | .branch _ _ body rest => body.continues || rest.continues
  | _ => false
def Cmds.continues : Cmds → Bool
  | .nil => false
  | .cons c cs => c.continues || cs.continues
def Chain.continues : Chain → Bool
  | .none => false
  | .otherwise body => body.continues
  | .elseIf _ body rest => body.continues || rest.continues
end

mutual
/-- The statement stands in the arena.  A `continue` does not belong to a `for` or a `do`. -/
def Cmd.In (cx : Context) : Cmd → Prop
  | .expr id e => (∃ doc, cx.arena.stmt? id = some (.exprStmt e.id doc)) ∧ e.In cx
  | .echo id es => cx.arena.stmt? id = some (.echoStmt es.ids) ∧ es.In cx
  | .ret id es => (∃ e, cx.arena.stmt? id = some (.returnStmt e) ∧ e.toList = es.ids) ∧ es.In cx
  | .block id body => cx.arena.stmt? id = some (.block body.ids) ∧ body.In cx
  | .branch id c body rest =>
    cx.arena.stmt? id = some (.ifStmt c.id body.ids rest.elseIfs rest.elseBranch) ∧ c.In cx ∧
      body.In cx ∧ rest.In cx
  | .whileLoop id c body =>
    cx.arena.stmt? id = some (.whileStmt c.id body.ids) ∧ c.In cx ∧ body.In cx
  | .doWhile id body c =>
    cx.arena.stmt? id = some (.doWhileStmt body.ids c.id) ∧ body.continues = false ∧ body.In cx ∧
      c.In cx
  | .forLoop id init condition step body =>
    cx.arena.stmt? id = some (.forStmt init.ids condition.ids step.ids body.ids) ∧
      body.continues = false ∧ init.In cx ∧ condition.In cx ∧ step.In cx ∧ body.In cx
  | .foreach id subject names body =>
    (∃ key value byRef, cx.arena.stmt? id = some (.foreachStmt subject.id key value byRef body.ids) ∧
      (key.toList ++ [value]).map cx.arena.varName? = names.map some) ∧ "this" ∉ names ∧
      subject.In cx ∧ body.In cx
  | .switch id subject cases =>
    cx.arena.stmt? id = some (.switchStmt subject.id cases.toList) ∧ subject.In cx ∧ cases.In cx
  | .leave id => cx.arena.stmt? id = some .breakStmt
  | .next id => cx.arena.stmt? id = some .continueStmt
def Cmds.In (cx : Context) : Cmds → Prop
  | .nil => True
  | .cons c cs => c.In cx ∧ cs.In cx
def Chain.In (cx : Context) : Chain → Prop
  | .none => True
  | .otherwise body => body.In cx
  | .elseIf c body rest => c.In cx ∧ body.In cx ∧ rest.In cx
def Cases.In (cx : Context) : Cases → Prop
  | .nil => True
  | .case test body rest => test.In cx ∧ body.In cx ∧ rest.In cx
  | .default body rest => body.In cx ∧ rest.In cx
end

mutual
/-- The levels of nested expressions. -/
def Cmd.depth : Cmd → Nat
  | .expr _ e => e.height
  | .echo _ es | .ret _ es => es.height
  | .block _ body => body.depth
  | .branch _ c body rest => max c.height (max body.depth rest.depth)
  | .whileLoop _ c body | .doWhile _ body c => max c.height body.depth
  | .forLoop _ init condition step body =>
    max init.height (max condition.height (max step.height body.depth))
  | .foreach _ subject _ body => max subject.height body.depth
  | .switch _ subject cases => max subject.height cases.depth
  | .leave _ | .next _ => 0
def Cmds.depth : Cmds → Nat
  | .nil => 0
  | .cons c cs => max c.depth cs.depth
def Chain.depth : Chain → Nat
  | .none => 0
  | .otherwise body => body.depth
  | .elseIf c body rest => max c.height (max body.depth rest.depth)
def Cases.depth : Cases → Nat
  | .nil => 0
  | .case test body rest => max test.height (max body.depth rest.depth)
  | .default body rest => max body.depth rest.depth
end

mutual
/-- The levels of nested evaluation. -/
def Cmd.height : Cmd → Nat
  | .expr _ e => e.height + 1
  | .echo _ es | .ret _ es => es.height + 1
  | .block _ body => body.height + 1
  | .branch _ c body rest => max c.height (max body.height rest.height) + 1
  | .whileLoop _ c body | .doWhile _ body c => max c.height body.height + 1
  | .forLoop _ init condition step body =>
    max init.height (max condition.height (max step.height body.height)) + 1
  | .foreach _ subject _ body => max 1 (max subject.height body.height) + 1
  | .switch _ subject cases => max subject.height cases.height + 1
  | .leave _ | .next _ => 1
def Cmds.height : Cmds → Nat
  | .nil => 0
  | .cons c cs => max c.height cs.height
def Chain.height : Chain → Nat
  | .none => 0
  | .otherwise body => body.height
  | .elseIf c body rest => max c.height (max body.height rest.height)
def Cases.height : Cases → Nat
  | .nil => 0
  | .case test body rest => max test.height (max body.height rest.height)
  | .default body rest => max body.height rest.height
end

/-! ## Paths through statements -/

/-- How a path leaves a statement, unless it returns. -/
inductive Way where
  /-- At its end. -/
  | normal
  /-- `break` -/
  | leave
  /-- `continue` -/
  | next
  deriving DecidableEq, Repr

namespace Way

lemma forall_jumps {P : Way → Prop} (hleave : P leave) (hnext : P next) : ∀ way, way ≠ normal → P way
  | normal, h => absurd rfl h
  | leave, _ => hleave
  | next, _ => hnext

/-- The paths through nothing. -/
def atOnce : Way → Language String
  | normal => 1
  | _ => 0

/-- Paths that get to the end. -/
def toEnd (paths : Language String) : Way → Language String
  | normal => paths
  | _ => 0

/-- The paths that go on with `second` where they get to the end of `first`. -/
def andThen (first second : Way → Language String) : Way → Language String
  | normal => first normal * second normal
  | way => first way + first normal * second way

lemma andThen_of_ne {second : Way → Language String} (h : way ≠ normal) :
    andThen first second way = first way + first normal * second way := by
  cases way with
  | normal => exact absurd rfl h
  | leave | next => rfl

lemma andThen_toEnd {paths : Language String} (h : way ≠ normal) :
    andThen first (toEnd paths) way = first way := by
  have hzero : toEnd paths way = 0 := by
    cases way with
    | normal => exact absurd rfl h
    | leave | next => rfl
  rw [andThen_of_ne h, hzero, mul_zero, add_zero]

end Way

/-- When the default case of a switch is entered. -/
inductive Order where
  /-- Behind all tests. -/
  | afterTests
  /-- Behind the tests that are written before it. -/
  | asWritten
  deriving DecidableEq, Repr

/-- What is evaluated between the tests before the default case and its body. -/
def Order.before (order : Order) (behind : Cases) : Language String :=
  match order with
  | .afterTests => behind.tests
  | .asWritten => 1

mutual
/-- The paths that leave a statement like this. -/
def Cmd.leaves (order : Order) : Cmd → Way → Language String
  | .expr _ e, .normal => e.ends
  | .echo _ es, .normal => es.all
  | .block _ body, way => body.leaves order way
  | .branch _ c body rest, way =>
    c.on true * body.leaves order way + c.on false * rest.leaves order way
  | .whileLoop _ c body, .normal =>
    (c.on true * (body.leaves order .normal + body.leaves order .next))∗ *
      (c.on false + c.on true * body.leaves order .leave)
  | .doWhile _ body c, .normal =>
    ((body.leaves order .normal + body.leaves order .next) * c.on true)∗ *
      ((body.leaves order .normal + body.leaves order .next) * c.on false +
        body.leaves order .leave)
  | .forLoop _ init condition step body, .normal =>
    init.all *
      ((condition.decide true *
          ((body.leaves order .normal + body.leaves order .next) * step.all))∗ *
        (condition.decide false + condition.decide true * body.leaves order .leave))
  | .foreach _ subject names body, .normal =>
    subject.ends *
      (({names} * (body.leaves order .normal + body.leaves order .next))∗ *
        (1 + {names} * body.leaves order .leave))
  | .switch _ subject cases, .normal =>
    subject.ends *
      (cases.enter order .normal + cases.enter order .leave + cases.enter order .next +
        if cases.hasDefault then 0 else cases.tests)
  | .leave _, .leave => 1
  | .next _, .next => 1
  | _, _ => 0
def Cmds.leaves (order : Order) : Cmds → Way → Language String
  | .nil, way => way.atOnce
  | .cons c cs, way => Way.andThen (c.leaves order) (cs.leaves order) way
def Chain.leaves (order : Order) : Chain → Way → Language String
  | .none, way => way.atOnce
  | .otherwise body, way => body.leaves order way
  | .elseIf c body rest, way =>
    c.on true * body.leaves order way + c.on false * rest.leaves order way
/-- The paths that run the bodies of cases, from the first one on, and leave them like this. -/
def Cases.run (order : Order) : Cases → Way → Language String
  | .nil, way => way.atOnce
  | .case _ body rest, way | .default body rest, way =>
    Way.andThen (body.leaves order) (rest.run order) way
/-- The paths that enter one of the cases, and leave them like this. -/
def Cases.enter (order : Order) : Cases → Way → Language String
  | .nil, _ => 0
  | .case test body rest, way =>
    test.ends * (Way.andThen (body.leaves order) (rest.run order) way + rest.enter order way)
  | .default body rest, way =>
    order.before rest * Way.andThen (body.leaves order) (rest.run order) way +
      rest.enter order way
end

mutual
/-- The paths to the read at a node. -/
def Cmd.upTo (order : Order) (read : NodeId) : Cmd → Language String
  | .expr _ e => e.upTo read
  | .echo _ es | .ret _ es => es.upTo read
  | .block _ body => body.upTo order read
  | .branch _ c body rest =>
    c.upTo read + (c.on true * body.upTo order read + c.on false * rest.upTo order read)
  | .whileLoop _ c body =>
    (c.on true * (body.leaves order .normal + body.leaves order .next))∗ *
      (c.upTo read + c.on true * body.upTo order read)
  | .doWhile _ body c =>
    ((body.leaves order .normal + body.leaves order .next) * c.on true)∗ *
      (body.upTo order read + (body.leaves order .normal + body.leaves order .next) * c.upTo read)
  | .forLoop _ init condition step body =>
    init.upTo read + init.all *
      ((condition.decide true *
          ((body.leaves order .normal + body.leaves order .next) * step.all))∗ *
        (condition.upTo read + condition.decide true *
          (body.upTo order read +
            (body.leaves order .normal + body.leaves order .next) * step.upTo read)))
  | .foreach _ subject names body =>
    subject.upTo read + subject.ends *
      (({names} * (body.leaves order .normal + body.leaves order .next))∗ *
        ({names} * body.upTo order read))
  | .switch _ subject cases => subject.upTo read + subject.ends * cases.enterUpTo order read
  | .leave _ | .next _ => 0
def Cmds.upTo (order : Order) (read : NodeId) : Cmds → Language String
  | .nil => 0
  | .cons c cs => c.upTo order read + c.leaves order .normal * cs.upTo order read
def Chain.upTo (order : Order) (read : NodeId) : Chain → Language String
  | .none => 0
  | .otherwise body => body.upTo order read
  | .elseIf c body rest =>
    c.upTo read + (c.on true * body.upTo order read + c.on false * rest.upTo order read)
/-- The paths to the read at a node that run the bodies of cases from the first one on. -/
def Cases.runUpTo (order : Order) (read : NodeId) : Cases → Language String
  | .nil => 0
  | .case _ body rest | .default body rest =>
    body.upTo order read + body.leaves order .normal * rest.runUpTo order read
def Cases.enterUpTo (order : Order) (read : NodeId) : Cases → Language String
  | .nil => 0
  | .case test body rest =>
    test.upTo read + test.ends *
      (body.upTo order read + body.leaves order .normal * rest.runUpTo order read +
        rest.enterUpTo order read)
  | .default body rest =>
    order.before rest *
        (body.upTo order read + body.leaves order .normal * rest.runUpTo order read) +
      rest.enterUpTo order read
end

lemma Cmd.leaves_echo (order : Order) (id : NodeId) (es : Exps) :
    (Cmd.echo id es).leaves order = Way.toEnd es.all := by
  funext way
  cases way <;> rfl

mutual
/-- No test of a switch that is written after the default case assigns the variable. -/
def Cmd.Settled (v : String) : Cmd → Prop
  | .block _ body | .whileLoop _ _ body | .doWhile _ body _ | .forLoop _ _ _ _ body
  | .foreach _ _ _ body => body.Settled v
  | .branch _ _ body rest => body.Settled v ∧ rest.Settled v
  | .switch _ _ cases => cases.Settled v
  | .expr .. | .echo .. | .ret .. | .leave _ | .next _ => True
def Cmds.Settled (v : String) : Cmds → Prop
  | .nil => True
  | .cons c cs => c.Settled v ∧ cs.Settled v
def Chain.Settled (v : String) : Chain → Prop
  | .none => True
  | .otherwise body => body.Settled v
  | .elseIf _ body rest => body.Settled v ∧ rest.Settled v
def Cases.Settled (v : String) : Cases → Prop
  | .nil => True
  | .case _ body rest => body.Settled v ∧ rest.Settled v
  | .default body rest => v ∉ rest.testWrites ∧ body.Settled v ∧ rest.Settled v
end

/-! ## Possible paths -/

/-- There is such a path. -/
def Possible (paths : Language String) : Prop :=
  ∃ path, path ∈ paths

@[simp]
lemma not_possible_zero : ¬ Possible 0 :=
  fun ⟨path, h⟩ => notMem_zero path h

@[simp]
lemma possible_add : Possible (p + q) ↔ Possible p ∨ Possible q :=
  exists_or

@[simp]
lemma possible_mul : Possible (p * q) ↔ Possible p ∧ Possible q := by
  constructor
  · rintro ⟨path, h⟩
    obtain ⟨a, ha, b, hb, -⟩ := mem_mul.1 h
    exact ⟨⟨a, ha⟩, ⟨b, hb⟩⟩
  · rintro ⟨⟨a, ha⟩, ⟨b, hb⟩⟩
    exact ⟨a ++ b, append_mem_mul ha hb⟩

@[simp]
lemma possible_star : Possible p∗ :=
  ⟨[], nil_mem_kstar p⟩

@[simp]
lemma possible_singleton (path : List String) : Possible {path} :=
  ⟨path, rfl⟩

/-! ## What paths assign -/

/-- Every path assigns the name. -/
def Always (v : String) (paths : Language String) : Prop :=
  ∀ path ∈ paths, v ∈ path

namespace Always

lemma singleton {path : List String} (h : v ∈ path) : Always v {path} := by
  rintro _ rfl
  exact h

lemma add (h : Always v p) (h' : Always v q) : Always v (p + q) :=
  fun path hpath => hpath.elim (h path) (h' path)

lemma mul_left (h : Always v q) : Always v (p * q) := by
  intro path hpath
  obtain ⟨a, ha, b, hb, rfl⟩ := mem_mul.1 hpath
  exact mem_append_right _ (h b hb)

end Always

lemma Exp.always_assign {id target : NodeId} {x : String} {e : Exp} :
    Always x (Exp.assign id target x e).ends :=
  .add (.mul_left (.singleton (.head _)))
    (.mul_left (.singleton (.head _)))

/-- One of the paths assigns names of the list only. -/
def Offers (paths : Language String) (names : List String) : Prop :=
  ∃ path ∈ paths, path ⊆ names

namespace Offers

variable {names names' : List String}

lemma possible (h : Offers p names) : Possible p :=
  let ⟨path, hpath, _⟩ := h
  ⟨path, hpath⟩

lemma one : Offers 1 names :=
  ⟨[], nil_mem_one, nil_subset names⟩

lemma mul (h : Offers p names) (h' : Offers q names') : Offers (p * q) (names ++ names') := by
  obtain ⟨a, ha, hnames⟩ := h
  obtain ⟨b, hb, hnames'⟩ := h'
  exact ⟨a ++ b, append_mem_mul ha hb, append_subset.2
    ⟨subset_append_of_subset_left _ hnames, subset_append_of_subset_right _ hnames'⟩⟩

lemma inl (h : Offers p names) : Offers (p + q) names :=
  let ⟨path, hpath, hnames⟩ := h
  ⟨path, .inl hpath, hnames⟩

lemma left (h : Offers p names) : Offers p (names ++ names') :=
  let ⟨path, hpath, hnames⟩ := h
  ⟨path, hpath, subset_append_of_subset_left _ hnames⟩

end Offers

mutual
theorem Exp.offers (e : Exp) (outcome : Bool) : Offers (e.on outcome) e.writes := by
  match e, outcome with
  | .var .., _ | .literal _, _ => exact .one
  | .each _ es, _ => exact es.offers
  | .assign _ _ x e, b => exact (e.offers b).mul ⟨[x], rfl, List.Subset.refl _⟩
  | .not _ e, b => exact e.offers !b
  | .and _ left right, true => exact (left.offers _).mul (right.offers _)
  | .and _ left right, false => exact (left.offers _).left.inl
  | .or _ left right, true => exact (left.offers _).left.inl
  | .or _ left right, false => exact (left.offers _).mul (right.offers _)
  | .choice _ c t e, b => exact ((c.offers _).mul (t.offers b).left).inl
  | .short _ c e, true => exact (c.offers _).left.inl
  | .short _ c e, false => exact (c.offers _).mul (e.offers _)
theorem Exps.offers (es : Exps) : Offers es.all es.writes := by
  match es with
  | .nil => exact .one
  | .cons e es => exact (e.offers true).inl.mul es.offers
end

lemma Exp.possible_ends (e : Exp) : Possible e.ends :=
  (e.offers true).inl.possible

lemma Cases.offers_tests (cases : Cases) : Offers cases.tests cases.testWrites := by
  match cases with
  | .nil => exact .one
  | .case test _ rest => exact (test.offers true).inl.mul rest.offers_tests
  | .default _ rest => exact rest.offers_tests

/-- A path from the tests before a default case to its body does not assign the variable, if the tests
behind it do not or the default case is entered where it is written. -/
lemma Order.exists_mem_before {order : Order} {behind : Cases}
    (h : order = .asWritten ∨ v ∉ behind.testWrites) : ∃ path ∈ order.before behind, v ∉ path := by
  cases order with
  | asWritten => exact ⟨[], nil_mem_one, not_mem_nil⟩
  | afterTests =>
    rcases h with ⟨⟨⟩⟩ | h
    obtain ⟨path, hpath, hwrites⟩ := behind.offers_tests
    exact ⟨path, hpath, fun hv => h (hwrites hv)⟩

/-! ## Jumps to the next round -/

mutual
/-- Without a `continue` that belongs to the loop around it, no path leaves a statement that way. -/
theorem Cmd.not_possible_next {order : Order} (c : Cmd) (h : c.continues = false) :
    ¬ Possible (c.leaves order .next) := by
  match c with
  | .next _ => cases h
  | .block _ body => exact body.not_possible_next h
  | .branch _ c body rest =>
    rw [Cmd.continues, Bool.or_eq_false_iff] at h
    intro hp
    rcases possible_add.1 hp with hp | hp
    · exact body.not_possible_next h.1 (possible_mul.1 hp).2
    · exact rest.not_possible_next h.2 (possible_mul.1 hp).2
  | .expr .. | .echo .. | .ret .. | .whileLoop .. | .doWhile .. | .forLoop .. | .foreach ..
  | .switch .. | .leave _ => exact not_possible_zero
theorem Cmds.not_possible_next {order : Order} (cs : Cmds) (h : cs.continues = false) :
    ¬ Possible (cs.leaves order .next) := by
  match cs with
  | .nil => exact not_possible_zero
  | .cons c cs =>
    rw [Cmds.continues, Bool.or_eq_false_iff] at h
    intro hp
    rcases possible_add.1 hp with hp | hp
    · exact c.not_possible_next h.1 hp
    · exact cs.not_possible_next h.2 (possible_mul.1 hp).2
theorem Chain.not_possible_next {order : Order} (chain : Chain) (h : chain.continues = false) :
    ¬ Possible (chain.leaves order .next) := by
  match chain with
  | .none => exact not_possible_zero
  | .otherwise body => exact body.not_possible_next h
  | .elseIf c body rest =>
    rw [Chain.continues, Bool.or_eq_false_iff] at h
    intro hp
    rcases possible_add.1 hp with hp | hp
    · exact body.not_possible_next h.1 (possible_mul.1 hp).2
    · exact rest.not_possible_next h.2 (possible_mul.1 hp).2
end

end Definite

end FlowTyping

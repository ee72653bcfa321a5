import FlowTyping.Analysis.Engine
import FlowTyping.Proofs.Ty.Meaning

/-!
# Loop-free programs

The part of the language in which conditions narrow variables: assignments of simple values, blocks,
`if` with any number of `elseif`, and `return`.  A program is a tree whose parts carry the nodes that
they stand at; what it does is given by recursion on the tree, and `In` says that the nodes of an
arena are the tree.

For each of these: `nodes`, the expressions that are evaluated; `reads`, the variables that a run
reads, with their values; and `holds` or `run`, what comes out.
-/

namespace FlowTyping

/-- The values of variables.  A variable that was never given a value has none, and neither has one
that such a variable was assigned to; both read as null. -/
abbrev Env := String → Option Value

namespace Env

/-- The value that a program sees. -/
def read (ρ : Env) (x : String) : Value :=
  (ρ x).getD .null

/-- Assigns a variable. -/
def set (ρ : Env) (x : String) (v : Option Value) : Env := fun y =>
  if y = x then v else ρ y

end Env

/-- The node is a read of the variable. -/
def Context.IsVar (cx : Context) (id : NodeId) (x : String) : Prop :=
  cx.arena.expr? id = some (.var x)

/-- A variable that was read, by its node, with its value. -/
abbrev Reads := List (NodeId × Option Value)

/-- A class named neither by its place nor like a built-in type. -/
structure Name.IsClass (name : String) : Prop where
  not_relative : key name ≠ "self" ∧ key name ≠ "static" ∧ key name ≠ "parent"
  not_primitive : ∀ kind : Primitive, key name ≠ key kind.keyword

/-! ## Values -/

mutual
/-- What can be assigned. -/
inductive Source where
  | int (id : NodeId) (n : Int64)
  | float (id : NodeId) (d : Decimal)
  | string (id : NodeId) (s : String)
  /-- `true`, `false` or `null`, in any spelling. -/
  | const (id : NodeId) (name : String)
  | array (id : NodeId) (items : Items)
  | var (id : NodeId) (x : String)
  | new (id : NodeId) (cls : String)
/-- The items of an array. -/
inductive Items where
  | nil
  | item (value : Source) (rest : Items)
  | keyed (key value : Source) (rest : Items)
end

/-- The constants that are words of the language. -/
def Value.ofConst (name : String) : Option Value :=
  match Name.key name with
  | "true" => some (.bool true)
  | "false" => some (.bool false)
  | "null" => some .null
  | _ => none

namespace Source

/-- The node of the expression. -/
def id : Source → NodeId
  | int id _ | float id _ | string id _ | const id _ | array id _ | var id _ | new id _ => id

/-- The value; none where it is that of a variable without one. -/
def value (ρ : Env) : Source → Option Value
  | int _ n => some (.int n)
  | float _ d => some (.float (d.digits == 0))
  | string _ s => some (.string s)
  | const _ name => Value.ofConst name
  | array _ .nil => some (.array true)
  | array .. => some (.array false)
  | var _ x => ρ x
  | new _ cls => some (.object (Name.key cls))

end Source

mutual
/-- The expressions that are evaluated. -/
def Source.nodes : Source → List NodeId
  | .array id items => id :: items.nodes
  | .int id _ | .float id _ | .string id _ | .const id _ | .var id _ | .new id _ => [id]
def Items.nodes : Items → List NodeId
  | .nil => []
  | .item value rest => value.nodes ++ rest.nodes
  | .keyed key value rest => key.nodes ++ value.nodes ++ rest.nodes
end

mutual
/-- The variables that are read. -/
def Source.reads (ρ : Env) : Source → Reads
  | .var id x => [(id, ρ x)]
  | .array _ items => items.reads ρ
  | _ => []
def Items.reads (ρ : Env) : Items → Reads
  | .nil => []
  | .item value rest => value.reads ρ ++ rest.reads ρ
  | .keyed key value rest => key.reads ρ ++ value.reads ρ ++ rest.reads ρ
end

/-- The items as the arena has them. -/
def Items.toList : Items → List ArrayItem
  | .nil => []
  | .item value rest => { value := value.id } :: rest.toList
  | .keyed key value rest => { key := some key.id, value := value.id } :: rest.toList

mutual
/-- The expression stands in the arena. -/
def Source.In (cx : Context) : Source → Prop
  | .int id n => cx.arena.expr? id = some (.int n)
  | .float id d => cx.arena.expr? id = some (.float d)
  | .string id s => cx.arena.expr? id = some (.string s)
  | .const id name => cx.arena.expr? id = some (.const name) ∧ (Value.ofConst name).isSome = true
  | .array id items => cx.arena.expr? id = some (.array items.toList) ∧ items.In cx
  | .var id x => cx.IsVar id x
  | .new id cls => cx.arena.expr? id = some (.new (.named cls) []) ∧ Name.IsClass cls
def Items.In (cx : Context) : Items → Prop
  | .nil => True
  | .item value rest => value.In cx ∧ rest.In cx
  | .keyed key value rest => key.In cx ∧ value.In cx ∧ rest.In cx
end

mutual
/-- The levels of nested evaluation. -/
def Source.height : Source → Nat
  | .array _ items => items.height + 1
  | _ => 1
def Items.height : Items → Nat
  | .nil => 0
  | .item value rest => max value.height rest.height
  | .keyed key value rest => max key.height (max value.height rest.height)
end

/-! ## Conditions -/

/-- A test on a variable. -/
inductive Test where
  /-- A comparison with null, which stands at `null` and may come first. -/
  | compare (op : BinaryOp) (null : NodeId) (nullFirst : Bool)
  | instanceOf (cls : String)
  /-- A predicate such as `is_int`. -/
  | predicate (function : String)
  | isSet
  | empty

namespace Test

/-- What is tested, and whether the test is negated. -/
def guard? : Test → Option (Guard × Bool)
  | compare op _ _ => Analysis.nullGuard? op
  | instanceOf cls => some (.instanceOf (Name.unqualified cls), false)
  | predicate function => (testedPrimitive? function).map fun kind => (.primitive kind, false)
  | isSet => some (.isSet, false)
  | empty => some (.empty, false)

/-- Whether the test holds of a value. -/
def holds (w : World) (t : Test) (v : Value) : Bool :=
  match t.guard? with
  | some (guard, negated) => guard.test w v != negated
  | none => false

/-- The expressions besides the test and its variable. -/
def nodes : Test → List NodeId
  | compare _ null _ => [null]
  | _ => []

/-- The test as the arena has it, on the variable at `target`. -/
def expr (target : NodeId) : Test → Expr
  | compare op null true => .binary op null target
  | compare op null false => .binary op target null
  | instanceOf cls => .instanceOf target (.named cls)
  | predicate function => .call (.named function) [{ value := target }]
  | isSet => .isSet [target]
  | empty => .empty target

/-- The parts of the test are what they should be: null is compared with, a class is asked for, and
the predicate takes its argument by value. -/
def Proper (cx : Context) : Test → Prop
  | compare op null _ =>
    (Analysis.nullGuard? op).isSome = true ∧
      ∃ name, cx.arena.expr? null = some (.const name) ∧ Name.sameWord name "null" = true
  | instanceOf cls => Name.IsClass cls
  | predicate function => (testedPrimitive? function).isSome = true ∧
      ∀ f, cx.index.function? function = some f → ∀ p, f.paramAt? 0 = some p → p.byRef = false
  | isSet | empty => True

end Test

/-- Conditions. -/
inductive Cond where
  /-- A test on the variable `x`, which is read at `target`. -/
  | test (id target : NodeId) (x : String) (t : Test)
  | var (id : NodeId) (x : String)
  /-- A call without arguments. -/
  | call (id : NodeId) (function : String)
  | not (id : NodeId) (c : Cond)
  | and (id : NodeId) (op : BinaryOp) (left right : Cond)
  | or (id : NodeId) (op : BinaryOp) (left right : Cond)

namespace Cond

/-- The node of the condition. -/
def id : Cond → NodeId
  | test id .. | var id _ | call id _ | not id _ | and id .. | or id .. => id

/-- Whether the condition holds. -/
def holds (w : World) (calls : NodeId → Bool) (ρ : Env) : Cond → Bool
  | test _ _ x t => t.holds w (ρ.read x)
  | var _ x => (ρ.read x).truthy
  | call id _ => calls id
  | not _ c => !c.holds w calls ρ
  | and _ _ left right => left.holds w calls ρ && right.holds w calls ρ
  | or _ _ left right => left.holds w calls ρ || right.holds w calls ρ

/-- The expressions that are evaluated. -/
def nodes : Cond → List NodeId
  | test id target _ t => id :: target :: t.nodes
  | var id _ | call id _ => [id]
  | not id c => id :: c.nodes
  | and id _ left right | or id _ left right => id :: (left.nodes ++ right.nodes)

/-- The variables that are read; the right side of `&&` and `||` is read only where it decides. -/
def reads (w : World) (calls : NodeId → Bool) (ρ : Env) : Cond → Reads
  | test _ target x _ => [(target, ρ x)]
  | var id x => [(id, ρ x)]
  | call .. => []
  | not _ c => c.reads w calls ρ
  | and _ _ left right =>
    left.reads w calls ρ ++ if left.holds w calls ρ then right.reads w calls ρ else []
  | or _ _ left right =>
    left.reads w calls ρ ++ if left.holds w calls ρ then [] else right.reads w calls ρ

/-- The condition stands in the arena. -/
def In (cx : Context) : Cond → Prop
  | test id target x t =>
    cx.arena.expr? id = some (t.expr target) ∧ cx.IsVar target x ∧ t.Proper cx
  | var id x => cx.IsVar id x
  | call id function => cx.arena.expr? id = some (.call (.named function) [])
  | not id c => cx.arena.expr? id = some (.unary .not c.id) ∧ c.In cx
  | and id op left right =>
    cx.arena.expr? id = some (.binary op left.id right.id) ∧ (op = .boolAnd ∨ op = .logicalAnd) ∧
      left.In cx ∧ right.In cx
  | or id op left right =>
    cx.arena.expr? id = some (.binary op left.id right.id) ∧ (op = .boolOr ∨ op = .logicalOr) ∧
      left.In cx ∧ right.In cx

/-- The levels of nested evaluation. -/
def height : Cond → Nat
  | test .. => 2
  | var .. | call .. => 1
  | not _ c => c.height + 1
  | and _ _ left right | or _ _ left right => max left.height right.height + 1

end Cond

/-! ## Statements -/

mutual
/-- Statements. -/
inductive Cmd where
  /-- `$x = e;`, where the assignment stands at `assignment` and `$x` at `target`. -/
  | assign (id assignment target : NodeId) (x : String) (e : Source)
  | block (id : NodeId) (body : Cmds)
  | ret (id : NodeId) (e : Option Source)
  | branch (id : NodeId) (c : Cond) (body : Cmds) (rest : Chain)
/-- Lists of statements. -/
inductive Cmds where
  | nil
  | cons (c : Cmd) (cs : Cmds)
/-- What follows the first branch of an `if`: nothing, `else`, or `elseif` with the rest. -/
inductive Chain where
  | none
  | otherwise (body : Cmds)
  | elseIf (c : Cond) (body : Cmds) (rest : Chain)
end

/-- The node of the statement. -/
def Cmd.id : Cmd → NodeId
  | .assign id .. | .block id _ | .ret id _ | .branch id .. => id

/-- The nodes of the statements. -/
def Cmds.ids : Cmds → List NodeId
  | .nil => []
  | .cons c cs => c.id :: cs.ids

namespace Chain

/-- The `elseif` branches as the arena has them. -/
def elseIfs : Chain → List ElseIf
  | none | otherwise _ => []
  | elseIf c body rest => ⟨c.id, body.ids⟩ :: rest.elseIfs

/-- The `else` branch as the arena has it. -/
def elseBranch : Chain → Option (List NodeId)
  | none => .none
  | otherwise body => some body.ids
  | elseIf _ _ rest => rest.elseBranch

end Chain

mutual
/-- The expressions that are evaluated. -/
def Cmd.nodes : Cmd → List NodeId
  | .assign _ assignment _ _ e => assignment :: e.nodes
  | .block _ body => body.nodes
  | .ret _ (some e) => e.nodes
  | .ret _ none => []
  | .branch _ c body rest => c.nodes ++ (body.nodes ++ rest.nodes)
def Cmds.nodes : Cmds → List NodeId
  | .nil => []
  | .cons c cs => c.nodes ++ cs.nodes
def Chain.nodes : Chain → List NodeId
  | .none => []
  | .otherwise body => body.nodes
  | .elseIf c body rest => c.nodes ++ (body.nodes ++ rest.nodes)
end

mutual
/-- The variables behind a statement; none where it returns. -/
def Cmd.run (w : World) (calls : NodeId → Bool) (ρ : Env) : Cmd → Option Env
  | .assign _ _ _ x e => some (ρ.set x (e.value ρ))
  | .block _ body => body.run w calls ρ
  | .ret .. => none
  | .branch _ c body rest =>
    if c.holds w calls ρ then body.run w calls ρ else rest.run w calls ρ
/-- The variables behind a list of statements; none where one of them returns. -/
def Cmds.run (w : World) (calls : NodeId → Bool) (ρ : Env) : Cmds → Option Env
  | .nil => some ρ
  | .cons c cs =>
    match c.run w calls ρ with
    | some ρ' => cs.run w calls ρ'
    | none => none
def Chain.run (w : World) (calls : NodeId → Bool) (ρ : Env) : Chain → Option Env
  | .none => some ρ
  | .otherwise body => body.run w calls ρ
  | .elseIf c body rest =>
    if c.holds w calls ρ then body.run w calls ρ else rest.run w calls ρ
end

mutual
/-- The variables that a statement reads. -/
def Cmd.reads (w : World) (calls : NodeId → Bool) (ρ : Env) : Cmd → Reads
  | .assign _ _ _ _ e => e.reads ρ
  | .block _ body => body.reads w calls ρ
  | .ret _ (some e) => e.reads ρ
  | .ret _ none => []
  | .branch _ c body rest =>
    c.reads w calls ρ ++
      if c.holds w calls ρ then body.reads w calls ρ else rest.reads w calls ρ
def Cmds.reads (w : World) (calls : NodeId → Bool) (ρ : Env) : Cmds → Reads
  | .nil => []
  | .cons c cs =>
    c.reads w calls ρ ++
      match c.run w calls ρ with
      | some ρ' => cs.reads w calls ρ'
      | none => []
def Chain.reads (w : World) (calls : NodeId → Bool) (ρ : Env) : Chain → Reads
  | .none => []
  | .otherwise body => body.reads w calls ρ
  | .elseIf c body rest =>
    c.reads w calls ρ ++
      if c.holds w calls ρ then body.reads w calls ρ else rest.reads w calls ρ
end

mutual
/-- The statement stands in the arena. -/
def Cmd.In (cx : Context) : Cmd → Prop
  | .assign id assignment target x e =>
    cx.arena.stmt? id = some (.exprStmt assignment none) ∧
      cx.arena.expr? assignment = some (.assign target e.id) ∧ cx.IsVar target x ∧ x ≠ "this" ∧
      e.In cx
  | .block id body => cx.arena.stmt? id = some (.block body.ids) ∧ body.In cx
  | .ret id (some e) => cx.arena.stmt? id = some (.returnStmt (some e.id)) ∧ e.In cx
  | .ret id none => cx.arena.stmt? id = some (.returnStmt none)
  | .branch id c body rest =>
    cx.arena.stmt? id = some (.ifStmt c.id body.ids rest.elseIfs rest.elseBranch) ∧ c.In cx ∧
      body.In cx ∧ rest.In cx
def Cmds.In (cx : Context) : Cmds → Prop
  | .nil => True
  | .cons c cs => c.In cx ∧ cs.In cx
def Chain.In (cx : Context) : Chain → Prop
  | .none => True
  | .otherwise body => body.In cx
  | .elseIf c body rest => c.In cx ∧ body.In cx ∧ rest.In cx
end

mutual
/-- The levels of nested evaluation. -/
def Cmd.height : Cmd → Nat
  | .assign _ _ _ _ e => max e.height 1 + 2
  | .block _ body => body.height + 1
  | .ret _ (some e) => e.height + 1
  | .ret _ none => 1
  | .branch _ c body rest => max c.height (max body.height rest.height) + 1
def Cmds.height : Cmds → Nat
  | .nil => 0
  | .cons c cs => max c.height cs.height
def Chain.height : Chain → Nat
  | .none => 0
  | .otherwise body => body.height
  | .elseIf c body rest => max c.height (max body.height rest.height)
end

end FlowTyping

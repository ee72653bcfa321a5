import FlowTyping.Scope.Join

/-!
# Facts about nodes

What the analysis attaches to nodes instead of changing the tree: the type of each expression, the
scopes that a condition implies on either outcome, and the variable usage of each function.

* `NodeTable`: all facts about the nodes of a file.
-/

namespace FlowTyping

/-- A map from nodes to facts, as the list of what was recorded, the latest first. -/
structure IdMap (α : Type) where
  log : List (NodeId × α) := []
  deriving Inhabited

namespace IdMap

variable {α : Type}

def find (id : NodeId) : List (NodeId × α) → Option α
  | [] => none
  | (key, a) :: rest => if key == id then some a else find id rest

def get? (m : IdMap α) (id : NodeId) : Option α :=
  find id m.log

def insert (m : IdMap α) (id : NodeId) (a : α) : IdMap α :=
  ⟨(id, a) :: m.log⟩

def erase (m : IdMap α) (id : NodeId) : IdMap α :=
  ⟨m.log.filter fun (key, _) => key != id⟩

/-- The first record of each run of records about one node; `last` is the node before. -/
def firsts (last : Option NodeId) : List (NodeId × α) → List (NodeId × α)
  | [] => []
  | r :: rest => if last == some r.1 then firsts last rest else r :: firsts (some r.1) rest

def toList (m : IdMap α) : List (NodeId × α) :=
  firsts none (m.log.mergeSort fun a b => a.1.toNat ≤ b.1.toNat)

end IdMap

/-- The scopes that a condition implies; none where it says nothing more than the current scope. -/
structure Assertions where
  whenTrue : Option Scope := none
  whenFalse : Option Scope := none
  deriving Inhabited

namespace Assertions

def isEmpty (a : Assertions) : Bool :=
  a.whenTrue.isNone && a.whenFalse.isNone

def swapped (a : Assertions) : Assertions :=
  ⟨a.whenFalse, a.whenTrue⟩

def forkScope : Option Scope → Store → Option Scope × Store
  | none, σ => (none, σ)
  | some s, σ =>
    let (s, σ) := s.fork σ
    (some s, σ)

def fork (a : Assertions) (σ : Store) : Assertions × Store :=
  let (whenTrue, σ) := forkScope a.whenTrue σ
  let (whenFalse, σ) := forkScope a.whenFalse σ
  (⟨whenTrue, whenFalse⟩, σ)

end Assertions

/-- Variable usage of a function. -/
structure UsageSummary where
  used : List String
  unused : List String
  deriving DecidableEq, Repr, Inhabited

structure NodeTable where
  types : IdMap Ty := {}
  assertions : IdMap Assertions := {}
  summaries : IdMap UsageSummary := {}
  deriving Inhabited

namespace NodeTable

def setType (t : NodeTable) (id : NodeId) (type : Ty) : NodeTable :=
  { t with types := t.types.insert id type }

/-- Records what a condition implies; a condition that says nothing has no record. -/
def setAssertions (t : NodeTable) (id : NodeId) (a : Assertions) : NodeTable :=
  if a.isEmpty then { t with assertions := t.assertions.erase id }
  else { t with assertions := t.assertions.insert id a }

def dropAssertions (t : NodeTable) (id : NodeId) : NodeTable :=
  { t with assertions := t.assertions.erase id }

/-- The scope where a condition held, where it says something. -/
def whenTrue? (t : NodeTable) (id : NodeId) : Option Scope :=
  (t.assertions.get? id).bind Assertions.whenTrue

/-- The scope where a condition failed, where it says something. -/
def whenFalse? (t : NodeTable) (id : NodeId) : Option Scope :=
  (t.assertions.get? id).bind Assertions.whenFalse

def setSummary (t : NodeTable) (id : NodeId) (summary : UsageSummary) : NodeTable :=
  { t with summaries := t.summaries.insert id summary }

end NodeTable

end FlowTyping

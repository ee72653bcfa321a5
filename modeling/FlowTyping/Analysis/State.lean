import FlowTyping.Analysis.Options
import FlowTyping.Scope.NodeTable
import FlowTyping.Scope.Stack
import FlowTyping.Scope.View
import FlowTyping.Symbol.Index
import FlowTyping.Ty.Relative

/-!
# State of an analysis

An analysis reads a file and an index, which stay as they are, and threads the state of the
traversal.  It also keeps a record of what it passed (`Event`); the record is only ever added to, so
nothing that is computed from it can influence the analysis.

* `Context`: what an analysis reads.
* `State`: what an analysis threads.
-/

namespace FlowTyping

structure Context where
  arena : Arena
  index : Index
  options : Options

/-- A node that was evaluated, with what is known at that moment. -/
structure Visit where
  node : NodeId
  /-- The type of an expression; none for a statement. -/
  type : Option Ty
  ancestors : List NodeId
  cls : Option ClassContext
  scope : ScopeView

inductive Event where
  | visited (visit : Visit)
  | left (function : NodeId) (scope : ScopeView)

structure State where
  store : Store := {}
  stack : Stack
  table : NodeTable := {}
  /-- For each loop and switch around the current code, innermost first, the scopes at the places
  that leave its body early. -/
  breaks : List (List Scope) := []
  /-- The number of expressions around the current one. -/
  depth : Nat := 0
  events : List Event := []

abbrev Analysis := ReaderT Context (StateT State Option)

namespace Analysis

def exhausted {α : Type} : Analysis α :=
  fun _ _ => none

def lineOf (id : NodeId) : Analysis Line := do
  return (← read).arena.line id

def exprAt (id : NodeId) : Analysis (Option Expr) := do
  return (← read).arena.expr? id

def varNameAt (id : NodeId) : Analysis (Option String) := do
  return (← read).arena.varName? id

def getScope : Analysis Scope := do
  return (← get).stack.current

def getStore : Analysis Store := do
  return (← get).store

def getTable : Analysis NodeTable := do
  return (← get).table

def getStack : Analysis Stack := do
  return (← get).stack

def modifyStack (f : Stack → Stack) : Analysis Unit :=
  modify fun st => { st with stack := f st.stack }

def modifyTable (f : NodeTable → NodeTable) : Analysis Unit :=
  modify fun st => { st with table := f st.table }

def onScope (f : Scope → Store → Scope × Store) : Analysis Unit :=
  modify fun st =>
    match st with
    | { store, stack, table, breaks, depth, events } =>
      let (s, store) := f stack.current store
      { store, stack := stack.setCurrent s, table, breaks, depth, events }

def onVars (f : Scope → Store → Store) : Analysis Unit :=
  onScope fun s σ => (s, f s σ)

def onStore {α : Type} (f : Store → α × Store) : Analysis α :=
  modifyGet fun st =>
    match st with
    | { store, stack, table, breaks, depth, events } =>
      let (a, store) := f store
      (a, { store, stack, table, breaks, depth, events })

def forkScope (s : Scope) : Analysis Scope :=
  onStore s.fork

def forkCurrent : Analysis Scope := do
  forkScope (← getScope)

/-- Puts `s` in place of the current scope, which is returned. -/
def swapScope (s : Scope) : Analysis Scope :=
  modifyGet fun st => (st.stack.current, { st with stack := st.stack.setCurrent s })

/-- Runs a step in the scope `s`, and returns the scope it leaves behind. -/
def inScope {α : Type} (s : Scope) (step : Analysis α) : Analysis (α × Scope) := do
  let saved ← swapScope s
  let a ← step
  let after ← swapScope saved
  return (a, after)

/-- Copies of the scopes that hold on either outcome of a condition. -/
def branchScopes (id : NodeId) : Analysis (Scope × Scope) := do
  let table ← getTable
  let current ← getScope
  let whenTrue ← forkScope ((table.whenTrue? id).getD current)
  let whenFalse ← forkScope ((table.whenFalse? id).getD current)
  return (whenTrue, whenFalse)

/-- Joins the scope of another path into the current one. -/
def mergeIntoCurrent (other : Scope) : Analysis Unit :=
  onScope fun s σ => s.merge other σ

def replaceCurrent (replacement : Scope) : Analysis Unit :=
  onScope fun s σ => s.replaceWith replacement σ

/-- Takes over the reads of paths that do not come back. -/
def absorbAll (paths : List Scope) : Analysis Unit :=
  onVars fun s σ => paths.foldl (fun σ path => s.absorbUsage path σ) σ

def enterLoop : Analysis Unit :=
  modify fun st => { st with breaks := [] :: st.breaks }

/-- Ends a loop or switch, and returns the scopes at the places that left it early. -/
def leaveLoop : Analysis (List Scope) :=
  modifyGet fun st => (st.breaks.headD [], { st with breaks := st.breaks.tail })

/-- Records a place that leaves the innermost loop or switch early. -/
def recordBreak (s : Scope) : Analysis Unit :=
  modify fun st =>
    match st.breaks with
    | [] => st
    | frame :: outer => { st with breaks := (frame ++ [s]) :: outer }

def recordVisit (id : NodeId) (type : Option Ty) : Analysis Unit := do
  if ((← read).arena.get? id).isSome then
    modify fun st =>
      let visit : Visit :=
        { node := id, type, ancestors := st.stack.ancestors.tail, cls := st.stack.class?
          scope := st.stack.current.view st.store }
      { st with events := .visited visit :: st.events }

def resolveClass (name : String) : Analysis (Option String) := do
  return (← getStack).resolveClass? name

/-- A declared type as seen from the class around this place. -/
def resolveInClass (t : Ty) : Analysis Ty := do
  match (← getStack).class? with
  | some c => return t.resolveRelative (some c.name) c.parent
  | none => return t.resolveRelative none none

end Analysis

end FlowTyping

import FlowTyping.Analysis.Narrowing

/-!
# Function bodies

The body of a function is analysed in a scope of its own.  A closure takes its captured variables
along: by value as copies, by reference as the variables themselves.  An arrow function takes a copy
of the whole scope around it.

* `Analysis.addParams`: the parameters of a function in its scope.
* `Evaluator.inferClosure`, `Evaluator.inferArrow`, `Evaluator.checkFunction`.
-/

namespace FlowTyping

/-- Declares the variables that exist in every scope. -/
def Scope.addSuperglobals (extra : List String) (s : Scope) (σ : Store) : Scope × Store :=
  (Name.superglobals ++ extra).foldl
    (fun (s, σ) name => s.declare σ name (some .array) .superglobal 0) (s, σ)

/-- The type of a parameter inside its function, from its declared type. -/
def Arena.paramType (arena : Arena) (p : Param) (declared : Option Ty) : Option Ty :=
  if p.variadic then some .array
  else if p.default.any arena.isNullConst then declared.map fun t => t.join .null
  else declared

namespace Analysis

/-- The declared type of a parameter, as seen from the class around it; a hint wins over the
comment. -/
def declaredParamType (doc : Option String) (p : Param) : Analysis (Option Ty) := do
  let declared := (p.typeHint.map Ty.ofHint).or (doc.bind fun d => Docblock.paramType? d p.name)
  match declared with
  | some t => some <$> resolveInClass t
  | none => return none

def addParams (doc : Option String) (line : Line) : List Param → Scope → Analysis Scope
  | [], s => pure s
  | p :: ps, s => do
    let type := (← read).arena.paramType p (← declaredParamType doc p)
    let s ← onStore fun σ =>
      let (s, σ) := s.declare σ p.name type .param line
      (s, if p.byRef then s.markByReference σ p.name else σ)
    addParams doc line ps s

def isStrict : Analysis Bool := do
  let stack ← getStack
  return stack.current.flags.isStrict || stack.isStrict

/-- Leaves the scope of `function`: records the event and the usage of its variables.  The scope is
returned. -/
def leaveFunction (function : NodeId) : Analysis (Option Scope) := do
  match (← getStack).pop? with
  | none => return none
  | some (s, stack) =>
    let view := s.view (← getStore)
    let summary : UsageSummary :=
      { used := view.usedNames, unused := view.unusedVars.map Variable.name }
    modify fun st =>
      { st with
        stack
        events := .left function view :: st.events
        table := st.table.setSummary function summary }
    return some s

/-- Brings the captured variables of a closure into its scope `s`. -/
def capture (line : Line) : List ClosureUse → Scope → Analysis Scope
  | [], s => pure s
  | use :: uses, s => do
    let s ← if use.byRef then do
        let enclosing ← getScope
        let (slot, enclosing) ← onStore fun σ =>
          let (slot, enclosing, σ) := enclosing.ensure σ use.name line
          ((slot, enclosing), σ)
        modifyStack fun st => st.setCurrent enclosing
        onStore fun σ => s.share σ use.name slot
      else do
        let type := (← getScope).typeOf? (← getStore) use.name
        onStore fun σ => s.declare σ use.name type .captured line
    capture line uses s

/-- Marks as read the variables of the current scope whose copies were read, for the names listed. -/
def propagateUsage (names : List String) : Analysis Unit := do
  if (← read).options.propagateClosureUsage then
    onVars fun s σ => names.foldl (fun σ name => s.markUsed σ name) σ

/-- A variable as an arrow function sees it: captured, and not used yet. -/
def capturedCopy (v : Variable) : Variable :=
  { v with
    kind := if v.kind == .superglobal || v.kind == .this then v.kind else .captured
    used := false, written := false, byReference := false }

end Analysis

namespace Evaluator

open Analysis

variable (ev : Evaluator)

def inferClosure (id : NodeId) (fn : ClosureExpr) : Analysis (Option Ty) := do
  let line ← lineOf id
  let extra := (← read).options.superglobals
  let flags : ScopeFlags :=
    { isClosure := true, isStatic := fn.isStatic, isStrict := ← isStrict }
  let s ← onStore (Scope.addSuperglobals extra { flags, function := some id })
  let enclosing ← getScope
  let store ← getStore
  let this := if fn.isStatic then none else enclosing.var? store "this"
  let s ← match this with
    | some v => onStore fun σ => s.declare σ "this" v.type .this v.line
    | none => pure s
  let s ← addParams none line fn.params s
  let s ← capture line fn.uses s
  modifyStack fun st => st.push s
  let _ ← ev.checkAll fn.body
  match ← leaveFunction id with
  | none => return some .closure
  | some s =>
    let store ← getStore
    let byValue := (fn.uses.filter fun use => !use.byRef).map ClosureUse.name
    propagateUsage (byValue.filter fun name => (s.var? store name).any Variable.used)
    return some .closure

def inferArrow (id : NodeId) (fn : ArrowExpr) : Analysis (Option Ty) := do
  let line ← lineOf id
  let flags : ScopeFlags :=
    { isArrow := true, isStatic := fn.isStatic, isStrict := ← isStrict }
  let s := { ← forkCurrent with flags, function := some id }
  let s := if fn.isStatic then s.remove "this" else s
  onStore fun σ =>
    ((), s.vars.entries.foldl (fun σ (_, slot) => σ.update slot capturedCopy) σ)
  let s ← addParams none line fn.params s
  modifyStack fun st => st.push s
  ev.visit fn.body
  match ← leaveFunction id with
  | none => return some .closure
  | some s =>
    let read := (s.view (← getStore)).vars.filter fun (_, v) => v.used && v.kind == .captured
    propagateUsage (read.map Prod.fst)
    return some .closure

def checkFunction (function : NodeId) (params : List Param) (body : List NodeId)
    (doc : Option String) (this : Option Ty) (isStatic : Bool) : Analysis Unit := do
  let line ← lineOf function
  let extra := (← read).options.superglobals
  let flags : ScopeFlags := { isStatic, isStrict := (← getStack).isStrict }
  let s ← onStore (Scope.addSuperglobals extra { flags, function := some function })
  let s ← match this with
    | some t => onStore fun σ => s.declare σ "this" (some t) .this line
    | none => pure s
  let s ← addParams doc line params s
  let breaks := (← get).breaks
  modify fun st => { st with breaks := [], stack := st.stack.push s }
  let _ ← ev.checkAll body
  let _ ← leaveFunction function
  modify fun st => { st with breaks }

end Evaluator

end FlowTyping

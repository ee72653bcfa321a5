import FlowTyping.Analysis.Assignment
import FlowTyping.Analysis.Member

/-!
# Calls

An argument that is bound to a parameter by reference is a write: the variable is created if needed,
nothing is known of it afterwards, and it counts as written.  The type of a call comes from the
declaration of what is called.

* `Evaluator.bindArgs`: evaluates or writes the arguments.
* `Evaluator.inferCall`, `Evaluator.inferMethodCall`, `Evaluator.inferStaticCall`,
  `Evaluator.inferNew`: the call expressions.
-/

namespace FlowTyping

/-- The first method of that name among the classes that a receiver may have. -/
def Index.firstMethod? (index : Index) (receiver : Ty) (method : String) : Option Signature :=
  (receiver.stripNull.members.filterMap Ty.className?).findSome? fun cls =>
    index.method? cls method

/-- The parameter that an argument at a position is bound to. -/
def Signature.paramFor? (f : Signature) (position : Nat) (arg : Arg) : Option ParamInfo :=
  match arg.name with
  | some name => f.paramNamed? name
  | none => f.paramAt? position

/-- What a call of a function means for the current scope, besides its arguments and result. -/
inductive CallEffect where
  | plain
  | namesVariables
  | dynamic
  deriving DecidableEq, Repr

/-- The effect of calling a function with a number of arguments. -/
def CallEffect.ofCall (function : String) (argCount : Nat) : CallEffect :=
  match Name.key function with
  | "compact" => .namesVariables
  | "extract" | "get_defined_vars" | "eval" => .dynamic
  | "parse_str" => if argCount == 1 then .dynamic else .plain
  | _ => .plain

namespace Evaluator

open Analysis

variable (ev : Evaluator)

/-- An argument that is bound to a parameter by reference. -/
def bindByRef (value : NodeId) (line : Line) : Analysis Unit := do
  match ← exprAt value with
  | some (.var name) =>
    onVars fun s σ => s.markUsed σ name
    onScope fun s σ => s.assign σ name none line
  | some (.prop ..) | some (.dim ..) | some (.staticProp ..) | some (.list ..) =>
    ev.assign value none line
  | _ => ev.visit value

def bindArgsFrom (signature : Option Signature) (line : Line) :
    (position : Nat) → List Arg → Analysis Unit
  | _, [] => pure ()
  | position, arg :: args => do
    let param := signature.bind fun f => f.paramFor? position arg
    if !arg.unpack && param.any (·.byRef) then ev.bindByRef arg.value line
    else ev.visit arg.value
    bindArgsFrom signature line (position + 1) args

def bindArgs (call : NodeId) (args : List Arg) (signature : Option Signature) :
    Analysis Unit := do
  ev.bindArgsFrom signature (← lineOf call) 0 args

def compactAll : List NodeId → Analysis Unit
  | [] => pure ()
  | id :: ids => do
    ev.compact id
    compactAll ids

/-- Marks the variables that one argument of `compact` names: a string, or an array of such. -/
def compactArg (arg : NodeId) : Analysis Unit := do
  match ← exprAt arg with
  | some (.string name) => onVars fun s σ => s.markUsed σ name
  | some (.array items) => ev.compactAll (items.map ArrayItem.value)
  | _ => return

/-- A call of a named function other than `compact`. -/
def inferNamedCall (id : NodeId) (name : String) (args : List Arg) : Analysis (Option Ty) := do
  let signature := (← read).index.function? name
  ev.bindArgs id args signature
  if args.all fun arg => !arg.unpack && arg.name.isNone then
    narrowPredicate id name (args.map Arg.value)
  return signature.bind Signature.returnType

def inferCall (id : NodeId) (callee : Callee) (args : List Arg) : Analysis (Option Ty) := do
  match callee with
  | .dynamic expr =>
    ev.visit expr
    ev.bindArgs id args none
    return none
  | .named name =>
    match CallEffect.ofCall name args.length with
    | .namesVariables =>
      ev.bindArgs id args none
      ev.compactAll (args.map Arg.value)
      return some .array
    | .dynamic =>
      onScope fun s σ => (s.markDynamic, σ)
      ev.inferNamedCall id name args
    | .plain => ev.inferNamedCall id name args

def inferMethodCall (id object : NodeId) (name : MemberName) (args : List Arg)
    (nullsafe : Bool) : Analysis (Option Ty) := do
  let objectType ← ev.infer object
  match name with
  | .dynamic name =>
    ev.visit name
    ev.bindArgs id args none
    return none
  | .identifier method =>
    let cx ← read
    ev.bindArgs id args (objectType.bind fun receiver => cx.index.firstMethod? receiver method)
    return Ty.orNull nullsafe (objectType.bind fun receiver =>
      Context.onReceiver? receiver fun cls => cx.returnType? cls method)

/-- A call of a static method.  A method called on the parent class still returns the class around
the call for `static`. -/
def inferStaticCall (id : NodeId) (cls : ClassRef) (name : MemberName) (args : List Arg) :
    Analysis (Option Ty) := do
  let className ← ev.classOf cls
  match name with
  | .dynamic name =>
    ev.visit name
    ev.bindArgs id args none
    return none
  | .identifier method =>
    let cx ← read
    let signature := className.bind fun c => cx.index.method? c method
    ev.bindArgs id args signature
    let around := (← getStack).class?
    let receiver := match cls with
      | .named name =>
        if Name.sameWord name "parent" then (around.map ClassContext.name).or className
        else className
      | .dynamic _ => className
    return do
      let declared ← (← signature).returnType
      return cx.memberType declared (← receiver)

def inferNew (id : NodeId) (cls : ClassRef) (args : List Arg) : Analysis (Option Ty) := do
  let className ← ev.classOf cls
  let index := (← read).index
  ev.bindArgs id args (className.bind fun c => index.method? c "__construct")
  return some (Ty.ofClass? className)

end Evaluator

end FlowTyping

import FlowTyping.Analysis.Narrowing

/-!
# Variables, constants and members
-/

namespace FlowTyping

namespace Context

variable (cx : Context)

/-- The declared type of a member as seen through `receiver`. -/
def memberType (declared : Ty) (receiver : String) : Ty :=
  if declared.hasRelative then
    let parent := (cx.index.class? receiver).bind ClassInfo.parent
    (declared.rebindSelf receiver).resolveRelative (some receiver) parent
  else declared

/-- What `find` gives for one option of a receiver. -/
def onOption? {α : Type} (find : String → Option α) : Ty → Option α
  | .named cls => find cls
  | .primitive .closure => find "Closure"
  | .inter parts => (parts.filterMap Ty.className?).findSome? find
  | _ => none

/-- The union of what `find` gives for every option of a receiver other than null; none where an
option gives nothing. -/
def onReceiver? (receiver : Ty) (find : String → Option Ty) : Option Ty := do
  match ← receiver.stripNull.members.mapM (onOption? find) with
  | [] => none
  | found => some (Ty.unionOf found)

def propertyType? (cls name : String) : Option Ty := do
  let declared ← (← cx.index.property? cls name).type
  return cx.memberType declared cls

def returnType? (cls method : String) : Option Ty := do
  let declared ← (← cx.index.method? cls method).returnType
  return cx.memberType declared cls

def classConstantType? (cls name : String) : Option Ty := do
  let declared ← (← cx.index.classConstant? cls name).type
  return cx.memberType declared cls

def constantType? (name : String) : Option Ty :=
  match Name.key name with
  | "true" | "false" => some .bool
  | "null" => some .null
  | _ => (cx.index.constant? name).bind ConstantInfo.type

end Context

/-- A type, or null where a receiver may be null. -/
def Ty.orNull (nullsafe : Bool) (type : Option Ty) : Option Ty :=
  if nullsafe then type.map fun t => t.join .null else type

namespace Evaluator

open Analysis

variable (ev : Evaluator)

def inferVar (id : NodeId) (name : String) : Analysis (Option Ty) := do
  onVars fun s σ => s.markUsed σ name
  let scope ← getScope
  let type := scope.typeOf? (← getStore) name
  narrowTruthiness id type
  return type

def inferDynamicVar (name : NodeId) : Analysis (Option Ty) := do
  ev.visit name
  onScope fun s σ => (s.markDynamic, σ)
  return none

/-- The class that a class reference means, evaluated where it is computed. -/
def classOf (cls : ClassRef) : Analysis (Option String) := do
  match cls with
  | .named name => resolveClass name
  | .dynamic expr => return (← ev.infer expr).bind Ty.className?

def inferClassConst (cls : ClassRef) (name : String) : Analysis (Option Ty) := do
  let className ← ev.classOf cls
  if Name.sameWord name "class" then return some .string
  let cx ← read
  return className.bind fun c => cx.classConstantType? c name

def inferProp (id object : NodeId) (name : MemberName) (nullsafe : Bool) :
    Analysis (Option Ty) := do
  let objectType ← ev.infer object
  let type ← match name with
    | .dynamic name => do
      ev.visit name
      pure none
    | .identifier property => do
      let cx ← read
      let scope ← getScope
      let recorded := (cx.arena.chainKey? id).bind scope.chain?
      pure (recorded.or (objectType.bind fun receiver =>
        Context.onReceiver? receiver fun cls => cx.propertyType? cls property))
  let type := Ty.orNull nullsafe type
  narrowTruthiness id type
  return type

def inferStaticProp (cls : ClassRef) (name : String) : Analysis (Option Ty) := do
  let className ← ev.classOf cls
  let cx ← read
  let property := String.ofList (name.toList.dropWhile (· == '$'))
  return className.bind fun c => cx.propertyType? c property

/-- `$base[index]`: element types are not tracked, but a piece of a string is a string. -/
def inferDim (base : NodeId) (index : Option NodeId) : Analysis (Option Ty) := do
  let type ← ev.infer base
  ev.visit? index
  match type with
  | some (.primitive .string) => return some .string
  | _ => return none

end Evaluator

end FlowTyping

import FlowTyping.Dict
import FlowTyping.Scope.Store

/-!
# Scopes

A scope maps the names of one function body, or of the file body, to their variables, and records
types of property chains such as `$a->b->c`.

* `Scope`: names, chains, flags, and the function that owns the scope.

An operation that may touch a variable takes the store and returns the new one.
-/

namespace FlowTyping

/-- Properties of a scope as a whole. -/
structure ScopeFlags where
  isGlobal : Bool := false
  isStatic : Bool := false
  isStrict : Bool := false
  isClosure : Bool := false
  isArrow : Bool := false
  isDynamic : Bool := false
  deriving DecidableEq, Repr, Inhabited

def ScopeFlags.union (a b : ScopeFlags) : ScopeFlags where
  isGlobal := a.isGlobal || b.isGlobal
  isStatic := a.isStatic || b.isStatic
  isStrict := a.isStrict || b.isStrict
  isClosure := a.isClosure || b.isClosure
  isArrow := a.isArrow || b.isArrow
  isDynamic := a.isDynamic || b.isDynamic

structure Scope where
  vars : Dict Slot := {}
  /-- Types recorded for property chains, under keys such as `a->b->c`. -/
  chains : Dict Ty := {}
  flags : ScopeFlags := {}
  /-- The function that owns the scope; none for the file body. -/
  function : Option NodeId := none
  deriving Inhabited

namespace Scope

def slot? (s : Scope) (name : String) : Option Slot :=
  s.vars.get? name

def contains (s : Scope) (name : String) : Bool :=
  s.vars.contains name

def var? (s : Scope) (σ : Store) (name : String) : Option Variable :=
  (s.slot? name).map σ.read

/-- The type of a name; none where it is not bound or nothing is known. -/
def typeOf? (s : Scope) (σ : Store) (name : String) : Option Ty :=
  (s.var? σ name).bind Variable.type

def chain? (s : Scope) (key : String) : Option Ty :=
  s.chains.get? key

/-- Records that the set of variables is not known. -/
def markDynamic (s : Scope) : Scope :=
  { s with flags := { s.flags with isDynamic := true } }

/-- Whether the chain `key` extends the chain or variable `base`. -/
def isExtension (base key : String) : Bool :=
  Name.startsWith (base ++ "->") key

def forgetChains (s : Scope) (base : String) : Scope :=
  { s with chains := s.chains.filter fun key _ => !isExtension base key }

/-- Records, or forgets, the type of a chain; longer chains are forgotten either way. -/
def setChain (s : Scope) (key : String) (type : Option Ty) : Scope :=
  let s := s.forgetChains key
  match type with
  | some t => { s with chains := s.chains.insert key t }
  | none => { s with chains := s.chains.erase key }

/-- Binds `name` to a new variable, in place of any variable it is bound to. -/
def bindNew (s : Scope) (σ : Store) (name : String) (v : Variable) : Scope × Store :=
  let (slot, σ) := σ.alloc v
  ({ s with vars := s.vars.insert name slot }, σ)

def declare (s : Scope) (σ : Store) (name : String) (type : Option Ty) (kind : VarKind)
    (line : Line) : Scope × Store :=
  s.bindNew σ name { name, type, kind, line }

/-- Changes the variable of a name, if the name is bound. -/
def updateVar (s : Scope) (σ : Store) (name : String) (f : Variable → Variable) : Store :=
  match s.slot? name with
  | some slot => σ.update slot f
  | none => σ

/-- Records an assignment: the variable takes the type, counts as written and changed, and chains
that start at it are forgotten. -/
def assign (s : Scope) (σ : Store) (name : String) (type : Option Ty) (line : Line) :
    Scope × Store :=
  match s.slot? name with
  | some slot =>
    (s.forgetChains name,
     σ.update slot fun v => { v with type, written := true, typeChanged := true, line })
  | none =>
    let (s, σ) := s.bindNew σ name { name, type, line, written := true, typeChanged := true }
    (s.forgetChains name, σ)

/-- Narrows a variable without recording a write; a name that is not bound is introduced. -/
def narrow (s : Scope) (σ : Store) (name : String) (type : Ty) (line : Line) : Scope × Store :=
  match s.slot? name with
  | some slot => (s, σ.update slot fun v => { v with type := some type })
  | none => s.declare σ name (some type) .ordinary line

/-- Replaces the type of a variable; a name that is not bound is assigned. -/
def overrideType (s : Scope) (σ : Store) (name : String) (type : Ty) (line : Line) :
    Scope × Store :=
  match s.slot? name with
  | some slot => (s, σ.update slot fun v => { v with type := some type })
  | none => s.assign σ name (some type) line

/-- Makes sure that a name is bound, and returns its slot. -/
def ensure (s : Scope) (σ : Store) (name : String) (line : Line) : Slot × Scope × Store :=
  match s.slot? name with
  | some slot => (slot, s, σ)
  | none =>
    let (slot, σ) := σ.alloc { name, line }
    (slot, { s with vars := s.vars.insert name slot }, σ)

def markUsed (s : Scope) (σ : Store) (name : String) : Store :=
  s.updateVar σ name fun v => { v with used := true }

/-- Records a write that keeps the value's type, such as `$a[] = 1`. -/
def markWritten (s : Scope) (σ : Store) (name : String) (line : Line) : Store :=
  s.updateVar σ name fun v => { v with written := true, line }

/-- Marks a variable that may be written through another name. -/
def markByReference (s : Scope) (σ : Store) (name : String) : Store :=
  s.updateVar σ name fun v => { v with byReference := true }

/-- Binds a name to a variable that another scope holds. -/
def share (s : Scope) (σ : Store) (name : String) (slot : Slot) : Scope × Store :=
  ({ s with vars := s.vars.insert name slot }, σ.update slot fun v => { v with byReference := true })

/-- Unbinds a name and forgets the chains that start at it. -/
def remove (s : Scope) (name : String) : Scope :=
  let s := s.forgetChains name
  { s with vars := s.vars.erase name }

end Scope

end FlowTyping

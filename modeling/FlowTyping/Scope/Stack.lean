import FlowTyping.Scope.Basic

/-!
# Where the analysis stands

The scopes, classes and nodes around the code that is being analysed.

* `Stack.current`, `Stack.enclosing?`: the innermost scopes.
-/

namespace FlowTyping

/-- A class whose body is being analysed. -/
structure ClassContext where
  name : String
  parent : Option String
  deriving DecidableEq, Repr, Inhabited

/-- The scopes, classes and nodes around the current code, each list innermost first. -/
structure Stack where
  root : Scope
  nested : List Scope := []
  classes : List ClassContext := []
  ancestors : List NodeId := []
  deriving Inhabited

namespace Stack

def current (st : Stack) : Scope :=
  st.nested.headD st.root

def setCurrent (st : Stack) (s : Scope) : Stack :=
  match st.nested with
  | [] => { st with root := s }
  | _ :: outer => { st with nested := s :: outer }

def enclosing? (st : Stack) : Option Scope :=
  match st.nested with
  | [] => none
  | [_] => some st.root
  | _ :: outer :: _ => some outer

/-- Puts another scope in place of the one around the innermost one. -/
def setEnclosing (st : Stack) (s : Scope) : Stack :=
  match st.nested with
  | [] => st
  | [inner] => { st with root := s, nested := [inner] }
  | inner :: _ :: outer => { st with nested := inner :: s :: outer }

def push (st : Stack) (s : Scope) : Stack :=
  { st with nested := s :: st.nested }

/-- Leaves the innermost scope; the file scope is never left. -/
def pop? (st : Stack) : Option (Scope × Stack) :=
  match st.nested with
  | [] => none
  | inner :: outer => some (inner, { st with nested := outer })

def depth (st : Stack) : Nat :=
  st.nested.length

def isStrict (st : Stack) : Bool :=
  st.root.flags.isStrict

def pushClass (st : Stack) (c : ClassContext) : Stack :=
  { st with classes := c :: st.classes }

def popClass (st : Stack) : Stack :=
  { st with classes := st.classes.tail }

def class? (st : Stack) : Option ClassContext :=
  st.classes.head?

/-- The class that a name means at this place; none where there is no such class around. -/
def resolveClass? (st : Stack) (name : String) : Option String :=
  let name := Name.unqualified name
  if Name.sameWord name "self" || Name.sameWord name "static" then
    st.class?.map ClassContext.name
  else if Name.sameWord name "parent" then st.class?.bind ClassContext.parent
  else some name

def pushNode (st : Stack) (id : NodeId) : Stack :=
  { st with ancestors := id :: st.ancestors }

def popNode (st : Stack) : Stack :=
  { st with ancestors := st.ancestors.tail }

def parent? (st : Stack) : Option NodeId :=
  st.ancestors[1]?

end Stack

end FlowTyping

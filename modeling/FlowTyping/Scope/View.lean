import FlowTyping.Scope.Basic

/-!
# Views of scopes

What a scope says at one moment, with the variables themselves in place of their slots.  Checks and
reports look at views, which no later step of the analysis changes.

* `ScopeView.unusedVars`, `ScopeView.usedNames`: usage of the variables.
-/

namespace FlowTyping

/-- A scope with its variables. -/
structure ScopeView where
  /-- The name under which each variable is bound, and the variable. -/
  vars : List (String × Variable)
  chains : Dict Ty
  flags : ScopeFlags
  function : Option NodeId
  deriving Inhabited

/-- What the scope says with the variables of `σ`. -/
def Scope.view (s : Scope) (σ : Store) : ScopeView where
  vars := s.vars.entries.map fun (name, slot) => (name, σ.read slot)
  chains := s.chains
  flags := s.flags
  function := s.function

namespace ScopeView

def contains (view : ScopeView) (name : String) : Bool :=
  view.vars.any fun (key, _) => key == name

/-- Whether a variable is written and never read. -/
def isUnused (v : Variable) : Bool :=
  v.kind == .ordinary && v.written && !v.used && !v.byReference

/-- The variables that are written and never read. -/
def unusedVars (view : ScopeView) : List Variable :=
  (view.vars.map Prod.snd).filter isUnused

def usedNames (view : ScopeView) : List String :=
  (view.vars.filter fun (_, v) => v.used).map Prod.fst

end ScopeView

end FlowTyping

import FlowTyping.Scope.Basic

/-!
# Forking and joining scopes

Branches of code are analysed in forks of the current scope, and the scopes at their ends are joined
where control flow meets again.

* `Scope.merge`, `Scope.merged`: the join of two paths.
-/

namespace FlowTyping

namespace Scope

/-- Copies variables into new slots, with the change marks cleared. -/
def forkVars : List (String × Slot) → Store → List (String × Slot) × Store
  | [], σ => ([], σ)
  | (name, slot) :: rest, σ =>
    let (copy, σ) := σ.alloc { σ.read slot with typeChanged := false }
    let (rest, σ) := forkVars rest σ
    ((name, copy) :: rest, σ)

/-- A copy of the scope with variables of its own. -/
def fork (s : Scope) (σ : Store) : Scope × Store :=
  let (entries, σ) := forkVars s.vars.entries σ
  ({ s with vars := ⟨entries⟩ }, σ)

/-- The variable on both of two paths: either type, and the marks of both. -/
def mergeVar (ours theirs : Variable) : Variable :=
  { ours with
    type := if ours.type == theirs.type then ours.type else Ty.join? ours.type theirs.type
    used := ours.used || theirs.used
    written := ours.written || theirs.written
    typeChanged := ours.typeChanged || theirs.typeChanged
    byReference := ours.byReference || theirs.byReference
    line := max ours.line theirs.line }

/-- Joins variables of another path into `vars`; one that is on the other path only is copied. -/
def mergeVars : List (String × Slot) → Dict Slot → Store → Dict Slot × Store
  | [], vars, σ => (vars, σ)
  | (name, theirs) :: rest, vars, σ =>
    match vars.get? name with
    | some ours =>
      if ours == theirs then mergeVars rest vars σ
      else
        let other := σ.read theirs
        mergeVars rest vars (σ.update ours fun v => mergeVar v other)
    | none =>
      let (copy, σ) := σ.alloc (σ.read theirs)
      mergeVars rest (vars.insert name copy) σ

/-- The chains recorded on both paths, with either type. -/
def mergeChains (ours theirs : Dict Ty) : Dict Ty :=
  ours.filterMap fun key t => (theirs.get? key).map (Ty.join t)

def merge (s other : Scope) (σ : Store) : Scope × Store :=
  let (vars, σ) := mergeVars other.vars.entries s.vars σ
  ({ s with
      vars
      chains := mergeChains s.chains other.chains
      flags := s.flags.union other.flags }, σ)

/-- The join of two scopes, neither of which is changed. -/
def merged (a b : Scope) (σ : Store) : Scope × Store :=
  let (joined, σ) := a.fork σ
  joined.merge b σ

/-- Moves variables into the slots that `vars` has for their names; other names get the slots of the
variables themselves. -/
def replaceVars : List (String × Slot) → Dict Slot → Store → Dict Slot × Store
  | [], vars, σ => (vars, σ)
  | (name, new) :: rest, vars, σ =>
    match vars.get? name with
    | some ours =>
      if ours == new then replaceVars rest vars σ
      else replaceVars rest vars (σ.write ours (σ.read new))
    | none => replaceVars rest (vars.insert name new) σ

/-- Takes over the contents of `replacement`.  A name that both scopes have keeps its slot, so a
closure that holds the variable sees the new contents. -/
def replaceWith (s replacement : Scope) (σ : Store) : Scope × Store :=
  let kept := s.vars.filter fun name _ => replacement.vars.contains name
  let (vars, σ) := replaceVars replacement.vars.entries kept σ
  ({ s with vars, chains := replacement.chains, flags := replacement.flags }, σ)

/-- Marks as read each variable that is read on a path that does not come back. -/
def absorbVars (s : Scope) : List (String × Slot) → Store → Store
  | [], σ => σ
  | (name, theirs) :: rest, σ =>
    match s.slot? name with
    | some ours =>
      if ours != theirs && (σ.read theirs).used then
        absorbVars s rest (σ.update ours fun v => { v with used := true })
      else absorbVars s rest σ
    | none => absorbVars s rest σ

def absorbUsage (s other : Scope) (σ : Store) : Store :=
  absorbVars s other.vars.entries σ

/-- The join of the paths; none where there is no path. -/
def joinAll : List Scope → Store → Option Scope × Store
  | [], σ => (none, σ)
  | first :: rest, σ =>
    let (joined, σ) := rest.foldl (fun (joined, σ) s => joined.merge s σ) (first, σ)
    (some joined, σ)

end Scope

end FlowTyping

import FlowTyping.Proofs.Analysis.Boundaries

/-!
# Variables captured by reference

A closure that lists `$x` by reference and the scope around it hold one variable under this name, so
what the body writes to it is seen outside.  The variable keeps the type that it has where the check
of the body ends.  A path of the body that returns early writes to a copy, and is not joined in: its
types of `$x` are lost.
-/

namespace FlowTyping

open Analysis Option Scope State

variable {cx : Context} {st st' : State} {s s' : Scope} {line : Line}
  {uses : List ClosureUse} {name : String}

lemma capture_keeps_shared {k : Nat} (hother : ∀ use ∈ uses, use.name ≠ name)
    (hs : s.slot? name = some k) (hcurrent : st.stack.current.slot? name = some k)
    (h : capture line uses s cx st = some (s', st')) :
    s'.slot? name = some k ∧ st'.stack.current.slot? name = some k := by
  induction uses generalizing s st with
  | nil =>
    obtain ⟨rfl, rfl⟩ := of_pure h
    exact ⟨hs, hcurrent⟩
  | cons use uses ih =>
    obtain ⟨other, byRef⟩ := use
    obtain ⟨hne, hrest⟩ := List.forall_mem_cons.1 hother
    -- Binding another name leaves the slot of this one.
    have hinsert : ∀ slot, (s.vars.insert other slot).get? name = some k := fun slot =>
      (Dict.get?_insert_of_ne hne s.vars slot).trans hs
    cases byRef with
    | true =>
      refine ih hrest ?_ ?_ h
      · exact hinsert _
      · rw [Stack.current_setCurrent]
        exact slot?_ensure_of_some hcurrent line
    | false =>
      refine ih hrest ?_ ?_ h
      · exact hinsert _
      · exact hcurrent

/-- The last capture of a name decides: where it is by reference, both scopes hold one variable. -/
lemma capture_shares {before after : List ClosureUse} (hlast : ∀ use ∈ after, use.name ≠ name)
    (h : capture line (before ++ ⟨name, true⟩ :: after) s cx st = some (s', st')) :
    ∃ k, s'.slot? name = some k ∧ st'.stack.current.slot? name = some k := by
  induction before generalizing s st with
  | nil =>
    refine ⟨(st.stack.current.ensure st.store name line).1, capture_keeps_shared hlast ?_ ?_ h⟩
    · exact Dict.get?_insert_self ..
    · rw [Stack.current_setCurrent]
      exact slot?_ensure ..
  | cons use before ih =>
    obtain ⟨other, byRef⟩ := use
    cases byRef with
    | true => exact ih (capture_byRef ▸ h)
    | false => exact ih (capture_byValue ▸ h)

/-- The file body
`$x = 0; $f = function () use (&$x) { if (c()) { $x = "a"; return $x; } $x = true; return $x; $x = 1; }; $x;`
where node 22 is the closure, nodes 9 and 16 are the variables that it returns, and node 26 is the
last variable. -/
def earlyReturns : SourceUnit :=
  Build.result do
    let zero ← Build.expr (.int 0)
    let start ← Build.assignStmt "x" zero
    let condition ← Build.expr (.callNamed "c" [])
    let text ← Build.expr (.string "a")
    let write ← Build.assignStmt "x" text
    let read ← Build.expr (.var "x")
    let leave ← Build.stmt (.returnStmt (some read))
    let branch ← Build.stmt (.simpleIf condition [write, leave] none)
    let truth ← Build.expr (.boolConst true)
    let write' ← Build.assignStmt "x" truth
    let read' ← Build.expr (.var "x")
    let leave' ← Build.stmt (.returnStmt (some read'))
    let one ← Build.expr (.int 1)
    let unreached ← Build.assignStmt "x" one
    let closure ← Build.expr (.closure
      { params := [], uses := [⟨"x", true⟩], body := [branch, write', leave', unreached] })
    let make ← Build.assignStmt "f" closure
    let again ← Build.expr (.var "x")
    let use ← Build.stmt (.exprStmt again none)
    Build.finish "unit" [start, make, use]

end FlowTyping

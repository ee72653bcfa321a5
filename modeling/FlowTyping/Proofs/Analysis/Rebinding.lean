import FlowTyping.Ast.Builder
import FlowTyping.Proofs.Analysis.Engine
import FlowTyping.Proofs.Analysis.Knowledge
import FlowTyping.Proofs.Analysis.Tests
import FlowTyping.Proofs.Scope.Chains
import FlowTyping.Ty.Printer

/-!
# Chains of a variable that is bound anew

What is recorded for `$n->p` is about the object in `$n`.  An operation that writes the variable or
unbinds its name forgets such records; one that binds the name to another variable keeps them.

**Scopes.**  `Rebinding`: the operations.  `Rebinding.chain?_run`: what each of them leaves recorded.
-/

namespace FlowTyping

open Analysis Arena Context Evaluator Option Scope Ty

/-! ## Scopes -/

/-- An operation that gives a name another variable or another value. -/
inductive Rebinding where
  | declare (type : Option Ty) (kind : VarKind) (line : Line)
  /-- A write; without a type it is the write of an argument by reference. -/
  | assign (type : Option Ty) (line : Line)
  | share (slot : Slot)
  | remove

namespace Rebinding

/-- What the operation makes of a scope. -/
def run (r : Rebinding) (name : String) (s : Scope) (σ : Store) : Scope × Store :=
  match r with
  | declare type kind line => s.declare σ name type kind line
  | assign type line => s.assign σ name type line
  | share slot => s.share σ name slot
  | remove => (s.remove name, σ)

/-- Whether the operation forgets the chains of the name. -/
def forgets : Rebinding → Bool
  | assign .. | remove => true
  | declare .. | share _ => false

end Rebinding

/-- Nothing is recorded for properties of the variable. -/
def Scope.Unrefined (s : Scope) (name : String) : Prop :=
  ∀ ⦃key⦄, isExtension name key = true → s.chain? key = none

lemma Rebinding.chain?_run (r : Rebinding) (name : String) (s : Scope) (σ : Store) (key : String) :
    (r.run name s σ).1.chain? key =
      if r.forgets && isExtension name key then none else s.chain? key := by
  cases r with
  | declare type kind line => rfl
  | assign type line => exact s.chain?_assign σ name type line key
  | share slot => rfl
  | remove => exact s.chain?_forgetChains name key

/-! ## Rules -/

/-- Nothing is recorded for properties of the variable behind the step. -/
def Forgets {α : Type} (cx : Context) (name : String) (m : Analysis α) : Prop :=
  ∀ ⦃st : State⦄ ⦃a : α⦄ ⦃st' : State⦄, m cx st = some (a, st') → st'.stack.current.Unrefined name

/-- The step leaves the chains of the current scope as they are. -/
abbrev KeepsChains {α : Type} (cx : Context) (m : Analysis α) : Prop :=
  Fixes cx (fun st => st.stack.current.chains) m

variable {α β : Type} {cx : Context} {name property : String} {m : Analysis α} {f : α → Analysis β}
  {st st' : State} {r : Rebinding} {k : Nat} {type : Option Ty}

namespace Forgets

lemma first (hm : Forgets cx name m) (hf : ∀ a, KeepsChains cx (f a)) :
    Forgets cx name (m >>= f) := by
  intro st b st' h key hkey
  obtain ⟨a, st1, h1, h2⟩ := of_bind h
  exact (congrArg (·.get? key) (hf a h2)).trans (hm h1 hkey)

lemma last (hf : ∀ a, Forgets cx name (f a)) : Forgets cx name (m >>= f) := by
  intro st b st' h
  obtain ⟨a, st1, -, h2⟩ := of_bind h
  exact hf a h2

lemma rebind (hr : r.forgets = true) :
    Forgets cx name (onScope (r.run name)) := by
  intro st a st' h key hkey
  cases h
  rw [Stack.current_setCurrent, r.chain?_run, hr, hkey]
  rfl

end Forgets

lemma keepsChains_rebind (hr : r.forgets = false) :
    KeepsChains cx (onScope (r.run name)) := by
  intro st a st' h
  cases h
  dsimp only
  rw [Stack.current_setCurrent]
  cases r with
  | declare | share => rfl
  | assign | remove => cases hr

namespace Evaluator

variable {id target value : NodeId}

lemma forgets_inferAssign (k : Nat) (htarget : cx.arena.varName? target = some name)
    (hname : name ≠ "this") : Forgets cx name ((evaluator k).inferAssign id target value) := by
  have htarget := expr?_of_varName? htarget
  refine .last fun type => .last fun line => .first ?_ fun _ => ?_
  · cases k with
    | zero =>
      intro st a st' h
      cases h
    | succ k =>
      intro st a st' h
      replace h := bind_rest h rfl
      rw [htarget] at h
      simp only [assignVar, bne_iff_ne, ne_eq, hname, not_false_eq_true, if_true] at h
      exact Forgets.rebind (r := .assign type line) rfl h
  · refine (fixes_parentExpectsBool id).bind fun expects => ?_
    split
    · refine Fixes.bind (.of_run fun _ => rfl) fun _ => ?_
      split
      · exact (fixes_attachNarrowing (fun _ _ => rfl) (fun _ _ => rfl) ..).bind fun _ => .pure
      · exact .pure
    · exact .pure

lemma forgets_bindByRef (ev : Evaluator) (line : Line)
    (hvalue : cx.arena.varName? value = some name) :
    Forgets cx name (ev.bindByRef value line) := by
  intro st a st' h
  replace h := bind_rest h rfl
  rw [expr?_of_varName? hvalue] at h
  exact Forgets.last (fun _ => .rebind (r := .assign none line) rfl) h

lemma forgets_unset (ev : Evaluator) (htarget : cx.arena.varName? target = some name) :
    Forgets cx name (ev.unset target) := by
  intro st a st' h
  replace h := bind_rest h rfl
  rw [expr?_of_varName? htarget] at h
  exact Forgets.rebind (r := .remove) rfl h

end Evaluator

lemma keepsChains_bindGlobals (line : Line) (names : List String) :
    KeepsChains cx (bindGlobals line names) := by
  induction names with
  | nil => exact .pure
  | cons name names ih =>
    refine Fixes.bind (.of_run fun _ => rfl) fun _ => Fixes.bind (.of_run fun _ => rfl) fun _ => ?_
    exact (keepsChains_rebind (r := .declare _ .global line) rfl).bind fun _ => ih

lemma keepsChains_bindStatics (ev : Evaluator) (line : Line) {vars : List StaticVar}
    (hvars : ∀ v ∈ vars, ∀ d ∈ v.default, KeepsChains cx (ev.infer d)) :
    KeepsChains cx (ev.bindStatics line vars) := by
  induction vars with
  | nil => exact .pure
  | cons v vars ih =>
    rw [List.forall_mem_cons] at hvars
    have hdeclare (type : Option Ty) : KeepsChains cx (do
        onScope fun s σ => s.declare σ v.name type .static line
        ev.bindStatics line vars) :=
      (keepsChains_rebind (r := .declare type .static line) rfl).bind fun _ => ih hvars.2
    rw [bindStatics]
    split
    · next d hd => exact (hvars.1 d hd).bind hdeclare
    · exact hdeclare _

lemma chains_catchStart {entry s : Scope} {line : Line} {clause : CatchClause}
    (h : catchStart entry line clause cx st = some (s, st'))
    : s.chains = entry.chains := by
  replace h := bind_rest h rfl
  cases hvar : clause.var with
  | none =>
    simp only [hvar] at h
    cases h
    rfl
  | some name =>
    simp only [hvar] at h
    obtain ⟨type, st2, -, h⟩ := of_bind h
    cases h
    rfl

/-! ## Fetches -/

lemma current_infer_var {object : NodeId} (hobject : cx.arena.varName? object = some name)
    (h : (evaluator k).infer object cx st = some (type, st')) :
    st'.stack.current = st.stack.current := by
  rcases infer_cases (expr?_of_varName? hobject) h with ⟨-, rfl⟩ | ⟨m, st1, -, hrun, rfl⟩
  · rfl
  · have hvar := congrArg Prod.fst (fixes_inferVar object name hrun)
    cases type <;> exact hvar

lemma Arena.chainKey?_prop {arena : Arena} {id object : NodeId}
    (hid : arena.expr? id = some (.prop object (.identifier property) false))
    (hobject : arena.varName? object = some name) :
    arena.chainKey? id = some (name ++ "->" ++ property) := by
  have hobject := expr?_of_varName? hobject
  simp [chainKey?, reference?, maxChain, chainNames?, hid, hobject]

lemma Scope.isExtension_append (name property : String) :
    isExtension name (name ++ "->" ++ property) = true := by
  simp [isExtension, Name.startsWith]

/-- A fetch is answered by the record for its chain, and where there is none by the declarations. -/
lemma inferProp_run {id object : NodeId} {nullsafe : Bool}
    (hobject : cx.arena.varName? object = some name)
    (h : (evaluator k).inferProp id object (.identifier property) nullsafe cx st = some (type, st'))
    :
    ∃ objectType st1, (evaluator k).infer object cx st = some (objectType, st1) ∧
      type = orNull nullsafe (((cx.arena.chainKey? id).bind st.stack.current.chain?).or
        (objectType.bind fun receiver =>
          onReceiver? receiver fun cls => cx.propertyType? cls property)) := by
  obtain ⟨objectType, st1, hinfer, h⟩ := of_bind h
  replace h := bind_rest h rfl
  replace h := bind_rest h rfl
  replace h := bind_rest h rfl
  obtain ⟨⟨⟩, -, rfl⟩ := of_result h
  refine ⟨objectType, st1, hinfer, ?_⟩
  rw [current_infer_var hobject hinfer]

/-- Writing a variable or unbinding its name forgets what is recorded for its properties, and nothing
else; binding the name to another variable forgets nothing.  So nothing is recorded for `$n->p` behind
an assignment, an argument by reference or an `unset`, while behind `global $n` or `static $n`, and
where a handler that binds `$n` starts, it is what was recorded before.  A fetch `$n->p` is answered by
such a record only: where there is none, it is answered by the declarations. -/
theorem chains_of_rebinding (cx : Context) (name : String) :
    (∀ (r : Rebinding) (s : Scope) (σ : Store) (key : String), (r.run name s σ).1.chain? key =
      if r.forgets && isExtension name key then none else s.chain? key) ∧
    (∀ k id target value, cx.arena.varName? target = some name → name ≠ "this" →
      Forgets cx name ((evaluator k).inferAssign id target value)) ∧
    (∀ k value line, cx.arena.varName? value = some name →
      Forgets cx name ((evaluator k).bindByRef value line)) ∧
    (∀ k target, cx.arena.varName? target = some name →
      Forgets cx name ((evaluator k).unset target)) ∧
    (∀ line names, KeepsChains cx (bindGlobals line names)) ∧
    (∀ k line vars, (∀ v ∈ vars, ∀ d ∈ v.default, KeepsChains cx ((evaluator k).infer d)) →
      KeepsChains cx ((evaluator k).bindStatics line vars)) ∧
    (∀ entry line clause st s st', catchStart entry line clause cx st = some (s, st') →
      s.chains = entry.chains) ∧
    ∀ k id object property nullsafe st type st',
      cx.arena.expr? id = some (.prop object (.identifier property) nullsafe) →
      cx.arena.varName? object = some name → st.stack.current.Unrefined name →
      (evaluator k).inferProp id object (.identifier property) nullsafe cx st = some (type, st') →
      ∃ objectType st₁, (evaluator k).infer object cx st = some (objectType, st₁) ∧
        type = orNull nullsafe (objectType.bind fun receiver =>
          onReceiver? receiver fun cls => cx.propertyType? cls property) := by
  refine ⟨fun r s σ key => r.chain?_run name s σ key,
    fun k _ _ _ htarget hname => forgets_inferAssign k htarget hname,
    fun k _ line hvalue => (evaluator k).forgets_bindByRef line hvalue,
    fun k _ htarget => (evaluator k).forgets_unset htarget, keepsChains_bindGlobals,
    fun k line _ hvars => keepsChains_bindStatics (evaluator k) line hvars,
    fun _ _ _ _ _ _ h => chains_catchStart h, ?_⟩
  intro k id object property nullsafe st type st' hid hobject hchains h
  obtain ⟨objectType, st₁, hinfer, rfl⟩ := inferProp_run hobject h
  refine ⟨objectType, st₁, hinfer, ?_⟩
  cases nullsafe with
  | true => rw [show cx.arena.chainKey? id = none by simp [chainKey?, reference?, hid]]; rfl
  | false =>
    rw [chainKey?_prop hid hobject, bind_some,
      hchains (isExtension_append name property)]
    rfl

/-- `$n->p = 1; static $n; $n->p;`, where the statements are the nodes 4, 5 and 8, and the last fetch
is node 7.  With `written`, the second statement is `$n = null;` with the expression 7, and the fetch
is node 10. -/
def fetchBehind (written : Bool) : Arena := Build.result do
  let object ← Build.expr (.var "n")
  let property ← Build.expr (.prop object (.identifier "p") false)
  let one ← Build.expr (.int 1)
  let assign ← Build.expr (.assign property one)
  let _ ← Build.stmt (.exprStmt assign none)
  if written then
    let null ← Build.expr .nullConst
    let _ ← Build.assignStmt "n" null
  else
    let _ ← Build.stmt (.staticStmt [{ name := "n", default := none }])
  let again ← Build.expr (.var "n")
  let fetch ← Build.expr (.prop again (.identifier "p") false)
  let _ ← Build.stmt (.exprStmt fetch none)
  return (← get).arena

theorem chains_of_rebinding_written :
    ∃ st st₁ st₂ t type, (st.stack.current.chain? "n->p").isSome = true ∧
      (evaluator 5).inferAssign 7 6 5 ⟨fetchBehind true, {}, {}⟩ st = some (t, st₁) ∧
      st₁.stack.current.Unrefined "n" ∧
      (evaluator 5).inferProp 10 9 (.identifier "p") false ⟨fetchBehind true, {}, {}⟩ st₁ =
        some (type, st₂) ∧
      ∃ objectType st₃, (evaluator 5).infer 9 ⟨fetchBehind true, {}, {}⟩ st₁ =
          some (objectType, st₃) ∧
        type = objectType.bind fun receiver => onReceiver? receiver fun cls =>
          propertyType? ⟨fetchBehind true, {}, {}⟩ cls "p" := by
  have hrun : (((evaluator 6).checkAll [4] ⟨fetchBehind true, {}, {}⟩ (State.initial {})).any
      fun r => (r.2.stack.current.chain? "n->p").isSome &&
        ((evaluator 5).inferAssign 7 6 5 ⟨fetchBehind true, {}, {}⟩ r.2).any fun r₁ =>
          ((evaluator 5).inferProp 10 9 (.identifier "p") false ⟨fetchBehind true, {}, {}⟩
            r₁.2).isSome) = true := by decide +kernel
  obtain ⟨⟨flow, st⟩, -, hrun⟩ := (any_eq_true ..).1 hrun
  rw [Bool.and_eq_true] at hrun
  obtain ⟨⟨t, st₁⟩, hassign, hfetch⟩ := (any_eq_true ..).1 hrun.2
  obtain ⟨⟨type, st₂⟩, hfetch⟩ := isSome_iff_exists.1 hfetch
  obtain ⟨-, hforgets, -, -, -, -, -, hanswers⟩ :=
    chains_of_rebinding ⟨fetchBehind true, {}, {}⟩ "n"
  have hchains := hforgets 5 7 6 5 (by decide +kernel) (by decide) hassign
  exact ⟨st, st₁, st₂, t, type, hrun.1, hassign, hchains, hfetch,
    hanswers 5 10 9 "p" false st₁ type st₂ (by rfl) (by decide +kernel) hchains hfetch⟩

/-- The variable is bound anew and holds null, and the fetch still has the type that was recorded for
the object before. -/
theorem fetch_answered_behind_static :
    (((evaluator 6).checkAll [4, 5, 8] ⟨fetchBehind false, {}, {}⟩ (State.initial {})).map fun r =>
      (renderOption (r.2.stack.current.typeOf? r.2.store "n"),
        renderOption (r.2.table.types.get? 7))) = some ("null", "int") := by
  decide +kernel

end FlowTyping

import FlowTyping.Ast.Builder
import FlowTyping.Proofs.Analysis.Engine
import FlowTyping.Ty.Printer

/-!
# What scopes keep from each other

The operands of `&&`, `||` and `?:`, the branches of a statement and the bodies of loops run in a
copy of the current scope.  The copy has variables of its own, so whatever runs in it leaves the
scopes on the stack alone.

A function has a scope of its own.  A declared function starts from an empty one, an arrow function
from a copy of the scope around it, and a closure from an empty one to which captured variables are
added: those listed by value as copies, those listed by reference as the variables themselves.
Whatever the body is, it can reach no other variable that was there before.
-/

namespace FlowTyping

open Analysis Dict Evaluator Scope Stack State Store Ty

variable {P : Ty → Prop} {cx : Context} {st st' st1 : State} {s : Scope} {σ σ' : Store} {α : Type}
  {line : Line} {ev : Evaluator} {type : Option Ty} {name : String} {n : Nat}
  {uses : List ClosureUse}

lemma Scope.Wf.view_congr (hs : s.Wf P σ) (h : ∀ k, s.Owns k → σ'.read k = σ.read k) :
    s.view σ' = s.view σ := by
  simp only [Scope.view, ScopeView.mk.injEq, and_true]
  refine List.map_congr_left fun ⟨name, slot⟩ he => ?_
  rw [h slot ⟨name, find_of_mem hs.placed.nodup he⟩]

/-- The scopes on the stack are as they were, and say what they said: the names that they bind in
their order, everything about each variable, the chains and the flags. -/
structure SameScopes (st st' : State) : Prop where
  stack : st'.stack = st.stack
  view : ∀ s ∈ st.stack.scopes, s.view st'.store = s.view st.store

lemma SameScopes.of_read (hst : st.Wf P) (hstack : st'.stack = st.stack)
    (h : ∀ k, k < st.store.size → st'.store.read k = st.store.read k) : SameScopes st st' where
  stack := hstack
  view s hs := (hst.stack s hs).view_congr fun k hk => h k ((hst.stack s hs).lt hk)

/-- The state in which a copy of the current scope has taken its place. -/
def State.copied (st : State) : State :=
  within { st with store := (st.stack.current.fork st.store).2 }
    (st.stack.current.fork st.store).1

lemma State.var?_copied (hst : st.Wf P) (name : String) :
    st.copied.stack.current.var? st.copied.store name =
      (st.stack.current.var? st.store name).map unchanged := by
  rw [copied, within, current_setCurrent]
  exact var?_fork hst.current.placed name

lemma State.Wf.copied (hst : st.Wf P) : st.copied.Wf P := by
  obtain ⟨hstep, hheld⟩ := held_fork (n := 0) hst (Nat.zero_le _) .nil hst.current
  exact hstep.wf.within hheld

lemma State.Fit.copied (hst : st.Fit P) : st.copied.Fit P :=
  hst.of_classes_eq hst.toWf.copied (classes_setCurrent ..)

lemma Step.read_eq_of_copied (h : Step P st.copied.store.size st.copied st1) {k : Nat}
    (hk : k < st.store.size) : st1.store.read k = st.store.read k := by
  have hcopy : ¬ st.copied.stack.current.Owns k := by
    rw [copied, within, current_setCurrent]
    exact fun ho => Nat.not_le_of_lt hk (owns_fork ho).1
  rw [h.read_eq k (Nat.lt_of_lt_of_le hk size_le_size_fork) hcopy]
  exact read_fork_of_lt hk

/-- What runs in a copy of the current scope runs from a state that differs in this copy only, and
leaves the scopes on the stack as they were. -/
lemma sameScopes_of_copy {m : Analysis α} {Q : α → Prop} {a : α} {after : Scope}
    (hm : Keeps P cx m Q) (hst : st.Fit P)
    (h : (forkCurrent >>= fun s => inScope s m) cx st = some ((a, after), st')) :
    SameScopes st st' ∧ st'.Wf P ∧ ∃ st1, m cx st.copied = some (a, st1) ∧
      after = st1.stack.current ∧ st'.store = st1.store := by
  have hwf : st'.Wf P :=
    ((gives_forkCurrent.bind fun s _ => gives_inScope hm) [] hst (Nat.zero_le _) .nil h).1.wf
  replace h := bind_rest h rfl
  obtain ⟨st1, hrun, rfl, rfl⟩ := inScope_eq_some.1 h
  have hstep : Step P st.copied.store.size st.copied st1 := (hm.step hst.copied hrun).1
  refine ⟨.of_read hst.toWf ?_ fun k hk => hstep.read_eq_of_copied hk, hwf, st1, hrun, rfl, rfl⟩
  show st1.stack.setCurrent st.stack.current = st.stack
  rw [hstep.stack]
  simp [copied, within]

/-- What is evaluated or checked in a copy of the current scope leaves every scope on the stack as it
was.  The scope that is returned is the one that the code leaves behind when it runs in the copy,
which says of each name what the current scope says. -/
theorem scopes_kept_by_speculation (budget : Nat) (hst : st.Placed) :
    (∀ id type after st',
      (do inScope (← forkCurrent) ((evaluator budget).infer id)) cx st =
          some ((type, after), st') →
        SameScopes st st' ∧ st'.Placed ∧
          ∃ st₁, (evaluator budget).infer id cx st.copied = some (type, st₁) ∧
            after = st₁.stack.current ∧ st'.store = st₁.store) ∧
    (∀ stmts outcome st',
      (do (evaluator budget).checkIn (← forkCurrent) stmts) cx st = some (outcome, st') →
        SameScopes st st' ∧ st'.Placed ∧
          ∃ st₁, (evaluator budget).checkAll stmts cx st.copied = some (outcome.flow, st₁) ∧
            outcome.scope = st₁.stack.current ∧ st'.store = st₁.store) ∧
    ∀ name, st.copied.stack.current.var? st.copied.store name =
      (st.stack.current.var? st.store name).map unchanged := by
  have hev : (evaluator budget).Keeps (fun _ => True) cx := evaluator_keeps_any budget
  refine ⟨fun id type after st' h => ?_, fun stmts outcome st' h => ?_, var?_copied hst⟩
  · exact sameScopes_of_copy (hev.infer id) hst h
  · obtain ⟨s, st₀, hfork, h⟩ := bind_eq_some.1 h
    obtain ⟨⟨flow, after⟩, hin, rfl⟩ := result_eq_some.1 h
    have hall : (forkCurrent >>= fun s => inScope s ((evaluator budget).checkAll stmts)) cx st =
      some ((flow, after), st') := bind_eq_some.2 ⟨s, st₀, hfork, hin⟩
    exact sameScopes_of_copy (keeps_checkAll hev stmts) hst hall

/-- `function () use (&$x) { $x = 1; }`, where the closure is node 4. -/
def captureUnit : SourceUnit :=
  Build.result do
    let one ← Build.expr (.int 1)
    let write ← Build.assignStmt "x" one
    let closure ← Build.expr (.closure { params := [], uses := [⟨"x", true⟩], body := [write] })
    let statement ← Build.stmt (.exprStmt closure none)
    Build.finish "unit" [statement]

/-- Inside a closure that has captured `$x` of the file by reference. -/
def State.sharing : State :=
  let st := initial {}
  let e := st.stack.current.ensure st.store "x" 1
  let r := ({} : Scope).share e.2.2 "x" e.1
  calling { st with store := r.2, stack := st.stack.setCurrent e.2.1 } r.1

lemma State.placed_sharing : sharing.Placed := by
  have hst : (initial {}).Placed := wf_initial closed_true {}
  have hempty : Captured (fun _ => True) 0 (initial {}) {} :=
    ⟨wf_of_empty rfl rfl, (fun _ _ h => nomatch h), (fun _ h => nomatch h)⟩
  obtain ⟨hstep, hcaptured, -⟩ := Captured.share hst (Nat.zero_le _) hempty .nil "x" 1
  exact hstep.wf.calling hcaptured

theorem scopes_kept_by_speculation_sharing :
    ∃ type after st', (do inScope (← forkCurrent) ((evaluator 9).infer 4))
        ⟨captureUnit.arena, {}, {}⟩ sharing = some ((type, after), st') ∧
      SameScopes sharing st' ∧ renderOption (after.typeOf? st'.store "x") = "int" := by
  have hrun : ((do inScope (← forkCurrent) ((evaluator 9).infer 4) : Analysis _)
      ⟨captureUnit.arena, {}, {}⟩ sharing).any
        (fun r => renderOption (r.1.2.typeOf? r.2.store "x") == "int") = true := by decide +kernel
  obtain ⟨⟨⟨type, after⟩, st'⟩, hrun, htype⟩ := (Option.any_eq_true ..).1 hrun
  have hsame := (scopes_kept_by_speculation 9 placed_sharing).1 4 type after st' hrun
  exact ⟨type, after, st', hrun, hsame.1, by simpa using htype⟩

open Analysis List Option

variable {s' : Scope} {doc : Option String}

/-! ## The scope of a function -/

lemma Scope.not_owns_of_vars (h : s.vars = {}) (k : Nat) : ¬ s.Owns k := by
  rintro ⟨name, hname⟩
  rw [slot?, h] at hname
  cases hname

/-- A scope of new variables was made, and the rest of the state is as it was. -/
structure Made (P : Ty → Prop) (st : State) (s : Scope) (st' : State) : Prop where
  change : Change P st.store.size {} st.store s st'.store
  rest : st' = { st with store := st'.store }

namespace Made

lemma read_eq (h : Made P st s st') {k : Nat} (hk : k < st.store.size) :
    st'.store.read k = st.store.read k :=
  h.change.read_eq k hk (not_owns_of_vars rfl k)

lemma ge (h : Made P st s st') {k : Nat} (hk : s.Owns k) : st.store.size ≤ k :=
  (h.change.owns k hk).resolve_left (not_owns_of_vars rfl k)

lemma trans (h : Made P st s st1) (hchange : Change P st1.store.size s st1.store s' σ') :
    Made P st s' { st1 with store := σ' } where
  change := h.change.trans (hchange.anti h.change.size_le)
  rest := by rw [h.rest]

lemma captured (hst : st.Wf P) (h : Made P st s st') :
    st'.Wf P ∧ Captured P st.store.size st' s := by
  have hstack : st'.stack = st.stack := by rw [h.rest]
  have hbreaks : st'.breaks = st.breaks := by rw [h.rest]
  have hstep : Step P st.store.size st st' := by
    rw [h.rest]
    exact .of_store hst h.change.types h.change.size_le fun k hk _ => h.read_eq hk
  refine ⟨hstep.wf, h.change.wf, fun a k ha => .inr ⟨h.ge ⟨a, ha⟩, fun ho => ?_⟩, ?_⟩
  · rw [hstack] at ho
    exact Nat.not_le_of_lt (hst.current.lt ho) (h.ge ⟨a, ha⟩)
  · intro b hb k hk hk'
    rw [hbreaks] at hb
    exact Nat.not_le_of_lt ((hst.breaks b hb).lt hk') (h.ge hk)

end Made

lemma made_addSuperglobals (hP : Closed P) (hst : st.Wf P) {extra : List String}
    (hvars : s.vars = {}) (hchains : s.chains = {})
    (h : onStore (s.addSuperglobals extra) cx st = some (s', st')) : Made P st s' st' := by
  rw [onStore_run, some.injEq, Prod.mk.injEq] at h
  obtain ⟨rfl, rfl⟩ := h
  have hempty : Change P st.store.size {} st.store s st.store :=
    .of_vars_eq (wf_of_empty rfl rfl) hvars (by simp [hchains]) hst.types le_rfl
      fun _ _ _ => rfl
  exact ⟨hempty.trans (change_addSuperglobals hP.toStable extra hempty.wf hempty.types
    le_rfl), rfl⟩

lemma made_declareThis (hmade : Made P st s st1) {this : Option (Option Ty × Line)}
    (hthis : ∀ r, this = some r → KnownIn P r.1)
    (h : declareThis this s cx st1 = some (s', st')) : Made P st s' st' := by
  cases this with
  | none =>
    obtain ⟨rfl, rfl⟩ := of_pure h
    exact hmade
  | some r =>
    cases h
    exact hmade.trans (change_declare hmade.change.wf hmade.change.types le_rfl "this"
      (hthis r rfl) .this r.2)

lemma made_copy (hst : st.Wf P) :
    Made P st (st.stack.current.fork st.store).1
      { st with store := (st.stack.current.fork st.store).2 } :=
  ⟨change_fork hst.current hst.types le_rfl, rfl⟩

lemma fixes_declaredParamType (doc : Option String) (p : Param) :
    Fixes cx id (declaredParamType doc p) := by
  have hresolve : ∀ t, Fixes cx id (resolveInClass t) := fun t =>
    Fixes.bind (.of_run (r := stack) fun _ => rfl) fun stack => by split <;> exact .pure
  unfold declaredParamType
  dsimp only
  split
  · rw [map_eq_pure_bind]
    exact (hresolve _).bind fun _ => .pure
  · exact .pure

lemma fixes_thisType (isStatic : Bool) : Fixes cx id (thisType isStatic) := by
  intro st this st' h
  unfold thisType at h
  split at h <;> cases h <;> rfl

lemma made_addParams (hP : Closed P) (hst : st.Wf P) {ps : List Param} (h : Made P st s st1)
    (hrun : addParams doc line ps s cx st1 = some (s', st')) :
    Made P st s' st' := by
  induction ps generalizing s st1 with
  | nil =>
    obtain ⟨rfl, rfl⟩ := of_pure hrun
    exact h
  | cons p ps ih =>
    have hrest := bind_rest hrun rfl
    obtain ⟨declared, st2, hdeclared, hdeclare⟩ := of_bind hrest
    have htype : KnownIn P declared :=
      (Keeps.step ((giving_holding hP.toStable).declaredParamType fun t ht =>
        hP.resolvesIn (hP.declared p.typeHint doc p.name t ht))
        ((h.captured hst).1.fit hP.ofName) hdeclared).2
    obtain rfl : st2 = st1 := fixes_declaredParamType doc p hdeclared
    obtain ⟨_, _, hstore, hparams⟩ := of_bind hdeclare
    rw [onStore_run, some.injEq, Prod.mk.injEq] at hstore
    obtain ⟨rfl, rfl⟩ := hstore
    refine ih (h.trans ?_) hparams
    have hchange := change_declare (n := st2.store.size) h.change.wf h.change.types
      le_rfl p.name (hP.paramType cx.arena p htype) .param line
    dsimp only
    split
    · exact hchange.trans (change_markByReference hchange.wf hchange.types p.name)
    · exact hchange

lemma Made.read_eq_of_body {st2 : State} (h : Made P st s st1)
    (hbody : Step P st1.store.size (st1.calling s) st2) {k : Nat} (hk : k < st.store.size) :
    st2.store.read k = st.store.read k := by
  have howns : ¬ s.Owns k := fun ho => Nat.not_le_of_lt hk (h.ge ho)
  rw [hbody.read_eq k (Nat.lt_of_lt_of_le hk h.change.size_le) howns]
  exact h.read_eq hk

/-! ## Declared functions -/

namespace Evaluator

variable {function : NodeId} {params : List Param} {body : List NodeId}

/-- The body of a declared function writes to new variables only, and leaves the stack as it was. -/
lemma functionBody_effect (hP : Closed P) (hev : ev.Keeps P cx) (hst : st.Wf P)
    (hmade : Made P st s st1)
    (h : ev.functionBody function params body doc line s cx st1 = some ((), st')) :
    st'.stack = st.stack ∧ ∀ k < st.store.size, st'.store.read k = st.store.read k := by
  obtain ⟨s, st2, hparams, h⟩ := of_bind h
  have hmade := made_addParams hP hst hmade hparams
  replace h := bind_rest h rfl
  replace h := bind_rest h rfl
  obtain ⟨_, st3, hbody, h⟩ := of_bind h
  -- The body runs without the break frames of the loops around the function.
  have hmade2 : Made P st.withoutLoops s st2.withoutLoops :=
    ⟨hmade.change, by rw [hmade.rest]; rfl⟩
  obtain ⟨hst2, hcaptured⟩ := hmade2.captured hst.withoutLoops
  have hstep : Step P st2.withoutLoops.store.size (st2.withoutLoops.calling s) st3 :=
    ((keeps_checkAll hev body).step ((hst2.calling hcaptured).fit hP.ofName) hbody).1
  obtain ⟨_, _, he, h⟩ := of_bind h
  rw [leaveFunction_run hstep.pop?_eq, some.injEq, Prod.mk.injEq] at he
  obtain ⟨rfl, rfl⟩ := he
  cases h
  refine ⟨?_, fun k hk => hmade2.read_eq_of_body hstep hk⟩
  show st2.stack = st.stack
  rw [hmade.rest]

lemma checkFunction_effect (hP : Closed P) (hev : ev.Keeps P cx) (hst : st.Wf P)
    {this : Option Ty} (hthis : KnownIn P this) {isStatic : Bool}
    (h : ev.checkFunction function params body doc this isStatic cx st = some ((), st')) :
    st'.stack = st.stack ∧ ∀ k < st.store.size, st'.store.read k = st.store.read k := by
  rw [checkFunction_eq] at h
  replace h := bind_rest h rfl
  replace h := bind_rest h rfl
  replace h := bind_rest h rfl
  obtain ⟨s, st1, hglobals, h⟩ := of_bind h
  obtain ⟨s, st2, hdeclare, h⟩ := of_bind h
  have hmade := made_declareThis (made_addSuperglobals hP hst rfl rfl hglobals) (fun r hr => by
    obtain ⟨t, rfl, rfl⟩ := map_eq_some_iff.1 hr
    exact hthis) hdeclare
  exact functionBody_effect hP hev hst hmade h

end Evaluator

/-! ## Marks of reads -/

lemma Scope.read_markUsed (s : Scope) (σ : Store) (name : String) (k : Nat) :
    (s.markUsed σ name).read k = σ.read k ∨
      s.slot? name = some k ∧ (s.markUsed σ name).read k = { σ.read k with used := true } := by
  unfold markUsed updateVar
  split
  · next slot hslot =>
    by_cases heq : slot = k
    · subst heq
      rcases Nat.lt_or_ge slot σ.size with hlt | hge
      · exact .inr ⟨hslot, read_update_self hlt _⟩
      · exact .inl (read_update_of_size_le hge _ _)
    · exact .inl (read_update_of_ne heq ..)
  · exact .inl rfl

lemma Scope.read_foldl_markUsed (s : Scope) (names : List String) (σ : Store) (k : Nat) :
    (names.foldl (fun σ name => s.markUsed σ name) σ).read k = σ.read k ∨
      ∃ name ∈ names, s.slot? name = some k ∧
        (names.foldl (fun σ name => s.markUsed σ name) σ).read k =
          { σ.read k with used := true } := by
  induction names generalizing σ with
  | nil => exact .inl rfl
  | cons name names ih =>
    rw [foldl_cons]
    rcases ih (s.markUsed σ name) with h | ⟨other, hother, hslot, h⟩ <;> rw [h]
    · rcases s.read_markUsed σ name k with h | ⟨hslot, h⟩ <;> rw [h]
      · exact .inl rfl
      · exact .inr ⟨name, .head _, hslot, rfl⟩
    · refine .inr ⟨other, .tail _ hother, hslot, ?_⟩
      rcases s.read_markUsed σ name k with h | ⟨-, h⟩ <;> rw [h]

lemma propagateUsage_effect {names : List String}
    (h : propagateUsage names cx st = some ((), st')) :
    st'.stack = st.stack ∧ ∀ k, st'.store.read k = st.store.read k ∨
      ∃ name ∈ names, st.stack.current.slot? name = some k ∧
        st'.store.read k = { st.store.read k with used := true } := by
  replace h := bind_rest h rfl
  split at h
  · rw [onVars_run, some.injEq, Prod.mk.injEq] at h
    obtain ⟨-, rfl⟩ := h
    exact ⟨setCurrent_current _, st.stack.current.read_foldl_markUsed names st.store⟩
  · obtain ⟨-, rfl⟩ := of_pure h
    exact ⟨rfl, fun k => .inl rfl⟩

/-! ## Arrow functions -/

/-- The evaluation of an arrow function in stages: `entered` is the scope in which the body starts,
in the state `around`, and `ended` is the state in which it ends. -/
structure ArrowRun (P : Ty → Prop) (cx : Context) (ev : Evaluator) (id : NodeId) (fn : ArrowExpr)
    (st st' : State) (entered : Scope) (around ended : State) : Prop where
  made : Made P st entered around
  visit : ev.visit fn.body cx (around.calling entered) = some ((), ended)
  body : Step P around.store.size (around.calling entered) ended
  marks : ∃ names, propagateUsage names cx (ended.left id ended.stack.current around.stack) =
    some ((), st')

namespace Evaluator

variable {id : NodeId} {fn : ArrowExpr}

lemma inferArrow_stages (hP : Closed P) (hev : ev.Keeps P cx) (hst : st.Wf P)
    (h : ev.inferArrow id fn cx st = some (type, st')) :
    ∃ entered around ended, ArrowRun P cx ev id fn st st' entered around ended := by
  replace h := bind_rest h rfl
  replace h := bind_rest h rfl
  replace h := bind_rest h rfl
  replace h := bind_rest h rfl
  obtain ⟨entered, around, hparams, h⟩ := of_bind h
  have hcopy := made_copy hst
  have hmade := made_addParams hP hst (hcopy.trans
    (change_captureAll hcopy.change.wf hcopy.change.types _ id fn.isStatic)) hparams
  obtain ⟨haround, hcaptured⟩ := hmade.captured hst
  obtain ⟨⟨⟩, ended, hvisit, hbody, h⟩ :=
    body_of_leave (haround.fit hP.ofName) hcaptured (keeps_visit hev fn.body) h
  replace h := bind_rest h rfl
  obtain ⟨⟨⟩, hmarks, -⟩ := of_result h
  exact ⟨entered, around, ended, hmade, hvisit, hbody, _, hmarks⟩

/-- An arrow function marks variables of the scope around it as read, and does nothing else to
variables that were there. -/
lemma inferArrow_effect (hP : Closed P) (hev : ev.Keeps P cx) (hst : st.Wf P)
    (h : ev.inferArrow id fn cx st = some (type, st')) :
    st'.stack = st.stack ∧ ∀ k < st.store.size, st'.store.read k = st.store.read k ∨
      st.stack.current.Owns k ∧ st'.store.read k = { st.store.read k with used := true } := by
  obtain ⟨entered, around, ended, hrun⟩ := inferArrow_stages hP hev hst h
  obtain ⟨names, hmarks⟩ := hrun.marks
  obtain ⟨hstack, hread⟩ := propagateUsage_effect hmarks
  have hstack1 : around.stack = st.stack := by rw [hrun.made.rest]
  refine ⟨hstack.trans hstack1, fun k hk => ?_⟩
  have hold : (ended.left id ended.stack.current around.stack).store.read k = st.store.read k :=
    hrun.made.read_eq_of_body hrun.body hk
  rw [← hold]
  refine (hread k).imp_right fun ⟨name, _, hslot, hmarked⟩ => ⟨⟨name, ?_⟩, hmarked⟩
  rw [← hstack1]
  exact hslot

end Evaluator

/-! ## Closures -/

lemma Dict.put_of_find_eq_none {entries : List (String × α)} (h : find name entries = none)
    (a : α) :
    put name a entries = entries ++ [(name, a)] := by
  induction entries with
  | nil => rfl
  | cons e entries ih =>
    simp only [find] at h
    split at h
    · cases h
    · next hne =>
      simp only [put, hne, cons_append]
      rw [if_neg (by simp), ih h]

lemma Dict.find_append (name : String) (a b : List (String × α)) :
    find name (a ++ b) = (find name a).or (find name b) := by
  induction a with
  | nil => rfl
  | cons e a ih =>
    simp only [cons_append, find]
    split
    · rfl
    · exact ih

/-- The scope has gained variables for names that were listed by reference and not bound; all else
is as it was. -/
structure Gained (n : Nat) (uses : List ClosureUse) (s s' : Scope) : Prop where
  entries : ∃ new, s'.vars.entries = s.vars.entries ++ new ∧
    ∀ e ∈ new, ⟨e.1, true⟩ ∈ uses ∧ s.slot? e.1 = none ∧ n ≤ e.2
  chains : s'.chains = s.chains
  flags : s'.flags = s.flags
  function : s'.function = s.function

namespace Gained

variable {uses' : List ClosureUse} {s'' : Scope}

lemma refl (s : Scope) : Gained n uses s s :=
  ⟨⟨[], by simp, by simp⟩, rfl, rfl, rfl⟩

lemma mono (h : Gained n uses s s') (hsub : ∀ use ∈ uses, use ∈ uses') : Gained n uses' s s' := by
  obtain ⟨new, hentries, hnew⟩ := h.entries
  exact ⟨⟨new, hentries, fun e he => ⟨hsub _ (hnew e he).1, (hnew e he).2⟩⟩, h.chains, h.flags,
    h.function⟩

lemma slot?_eq (h : Gained n uses s s') :
    ∃ new, (∀ e ∈ new, n ≤ e.2) ∧ ∀ a, s'.slot? a = (s.slot? a).or (find a new) := by
  obtain ⟨new, hentries, hnew⟩ := h.entries
  refine ⟨new, fun e he => (hnew e he).2.2, fun a => ?_⟩
  rw [slot?, get?, hentries, find_append]
  rfl

lemma slot?_of_lt (h : Gained n uses s s') {a : String} {k : Nat} (ha : s'.slot? a = some k)
    (hk : k < n) : s.slot? a = some k := by
  obtain ⟨new, hge, hslot⟩ := h.slot?_eq
  rw [hslot, or_eq_some_iff] at ha
  refine ha.resolve_right fun ⟨_, hfind⟩ => ?_
  exact Nat.not_le_of_lt hk (hge _ (mem_of_find hfind))

lemma trans (h : Gained n uses s s') (h' : Gained n uses s' s'') : Gained n uses s s'' := by
  obtain ⟨new, hentries, hnew⟩ := h.entries
  obtain ⟨new', hentries', hnew'⟩ := h'.entries
  refine ⟨⟨new ++ new', by rw [hentries', hentries, append_assoc], fun e he => ?_⟩,
    h'.chains.trans h.chains, h'.flags.trans h.flags, h'.function.trans h.function⟩
  rcases mem_append.1 he with he | he
  · exact hnew e he
  · obtain ⟨huse, hnone, hge⟩ := hnew' e he
    refine ⟨huse, ?_, hge⟩
    rw [slot?, get?, hentries, find_append, or_eq_none_iff] at hnone
    exact hnone.1

lemma of_ensure (hn : n ≤ σ.size) (huse : ⟨name, true⟩ ∈ uses) (line : Line) :
    Gained n uses s (s.ensure σ name line).2.1 := by
  unfold ensure
  split
  · exact .refl s
  · next hnone =>
    refine ⟨⟨[(name, σ.size)], put_of_find_eq_none hnone _, fun e he => ?_⟩, rfl, rfl, rfl⟩
    rw [mem_singleton.1 he]
    exact ⟨huse, hnone, hn⟩

end Gained

/-- Binding and sharing a variable writes to no variable that was there, but to the one that is
shared. -/
lemma Scope.read_share_ensure {k : Nat} (hk : k < σ.size) (t : Scope) :
    let e := s.ensure σ name line
    (t.share e.2.2 name e.1).2.read k = σ.read k ∨ s.slot? name = some k := by
  intro e
  unfold e ensure
  split
  · next slot hslot =>
    by_cases heq : slot = k
    · exact .inr (heq ▸ hslot)
    · exact .inl (read_update_of_ne heq ..)
  · refine .inl ?_
    have hne : σ.size ≠ k := fun h => lt_irrefl _ (h ▸ hk)
    exact (read_update_of_ne hne ..).trans (read_alloc_of_lt hk _)

lemma capture_byRef :
    capture line (⟨name, true⟩ :: uses) s cx st =
      let e := st.stack.current.ensure st.store name line
      let r := s.share e.2.2 name e.1
      capture line uses r.1 cx { st with store := r.2, stack := st.stack.setCurrent e.2.1 } := rfl

lemma capture_byValue :
    capture line (⟨name, false⟩ :: uses) s cx st =
      let type := st.stack.current.typeOf? st.store name
      let r := s.declare st.store name type .captured line
      capture line uses r.1 cx { st with store := r.2 } := rfl

/-- Capturing writes to variables that are listed by reference, and gains the missing ones; the scope
of the closure takes over no other variables that were there. -/
lemma capture_effect (hn : n ≤ st.store.size) (h : capture line uses s cx st = some (s', st')) :
    Gained n uses st.stack.current st'.stack.current ∧
      (∀ k < n, st'.store.read k = st.store.read k ∨
        ∃ a, ⟨a, true⟩ ∈ uses ∧ st.stack.current.slot? a = some k) ∧
      ∀ a k, s'.slot? a = some k → s.slot? a = some k ∨ n ≤ k ∨ ⟨a, true⟩ ∈ uses := by
  induction uses generalizing s st with
  | nil =>
    obtain ⟨rfl, rfl⟩ := of_pure h
    exact ⟨.refl _, fun k _ => .inl rfl, fun a k ha => .inl ha⟩
  | cons use uses ih =>
    obtain ⟨name, byRef⟩ := use
    cases byRef with
    | true =>
      rw [capture_byRef] at h
      have hgain : Gained n (⟨name, true⟩ :: uses) st.stack.current
          (st.stack.current.ensure st.store name line).2.1 :=
        .of_ensure hn (.head _) line
      have hsize : n ≤ (s.share (st.stack.current.ensure st.store name line).2.2 name
          (st.stack.current.ensure st.store name line).1).2.size := by
        unfold share ensure
        split <;> simp <;> omega
      obtain ⟨hgain', hread', hslot'⟩ := ih hsize h
      rw [current_setCurrent] at hgain' hread'
      refine ⟨hgain.trans (hgain'.mono fun _ => mem_cons_of_mem _), fun k hk => ?_,
        fun a k ha => ?_⟩
      · rcases hread' k hk with hread | ⟨a, ha, hslot⟩
        · rw [hread]
          refine (read_share_ensure (Nat.lt_of_lt_of_le hk hn) s).imp_right fun hslot => ?_
          exact ⟨name, .head _, hslot⟩
        · exact .inr ⟨a, .tail _ ha, hgain.slot?_of_lt hslot hk⟩
      · rcases hslot' a k ha with ha | hk | ha
        · simp only [slot?, share, get?_insert] at ha
          split at ha
          · next heq => exact .inr (.inr (heq ▸ .head _))
          · exact .inl ha
        · exact .inr (.inl hk)
        · exact .inr (.inr (.tail _ ha))
    | false =>
      rw [capture_byValue] at h
      obtain ⟨hgain', hread', hslot'⟩ :=
        ih (Nat.le_trans hn (by simp [declare, bindNew])) h
      refine ⟨hgain'.mono fun _ => mem_cons_of_mem _, fun k hk => ?_, fun a k ha => ?_⟩
      · rcases hread' k hk with hread | ⟨a, ha, hslot⟩
        · exact .inl (hread.trans (read_alloc_of_lt (Nat.lt_of_lt_of_le hk hn) _))
        · exact .inr ⟨a, .tail _ ha, hslot⟩
      · rcases hslot' a k ha with ha | hk | ha
        · simp only [slot?, declare, bindNew, get?_insert] at ha
          split at ha
          · exact .inr (.inl (some.inj ha ▸ hn))
          · exact .inl ha
        · exact .inr (.inl hk)
        · exact .inr (.inr (.tail _ ha))

/-- The evaluation of a closure in stages: `made` is the scope with its parameters, in the state
`before`; `entered` is the scope with the captured variables, in which the body starts; `inside` is
the state in which it starts, and `ended` the one in which it ends. -/
structure ClosureRun (P : Ty → Prop) (cx : Context) (ev : Evaluator) (id : NodeId)
    (fn : ClosureExpr) (st st' : State) (entered : Scope) (around ended : State) : Prop where
  capture : ∃ made before, Made P st made before ∧
    capture (cx.arena.line id) fn.uses made cx before = some (entered, around)
  captured : Captured P st.store.size around entered
  wf : around.Wf P
  stack : around.stack = st.stack.setCurrent around.stack.current
  size_le : st.store.size ≤ around.store.size
  check : ∃ flow, ev.checkAll fn.body cx (around.calling entered) = some (flow, ended)
  body : Step P around.store.size (around.calling entered) ended
  marks : ∃ names, (∀ name ∈ names, ⟨name, false⟩ ∈ fn.uses) ∧
    propagateUsage names cx (ended.left id ended.stack.current around.stack) = some ((), st')

namespace Evaluator

variable {id : NodeId} {fn : ClosureExpr}

lemma closureBody_stages (hP : Closed P) (hev : ev.Keeps P cx) (hst : st.Wf P)
    (hmade : Made P st s st1)
    (h : ev.closureBody id fn (cx.arena.line id) s cx st1 = some (type, st')) :
    ∃ entered around ended, ClosureRun P cx ev id fn st st' entered around ended := by
  obtain ⟨s, st1, hparams, h⟩ := of_bind h
  have hmade := made_addParams hP hst hmade hparams
  obtain ⟨entered, around, hcapture, h⟩ := of_bind h
  obtain ⟨hst1, hs⟩ := hmade.captured hst
  obtain ⟨hstep, hcaptured, -⟩ :=
    captured_of_capture hst1 hmade.change.size_le hs .nil hcapture
  obtain ⟨flow, ended, hcheck, hbody, h⟩ :=
    body_of_leave (hstep.wf.fit hP.ofName) hcaptured (keeps_checkAll hev fn.body) h
  replace h := bind_rest h rfl
  obtain ⟨_, hmarks, -⟩ := of_result h
  have hstack1 : st1.stack = st.stack := by rw [hmade.rest]
  refine ⟨entered, around, ended, ⟨s, st1, hmade, hcapture⟩, hcaptured, hstep.wf,
    hstack1 ▸ hstep.stack, le_trans hmade.change.size_le hstep.size_le, ⟨flow, hcheck⟩, hbody,
    _, fun name hname => ?_, hmarks⟩
  obtain ⟨⟨_, byRef⟩, huse, rfl⟩ := mem_map.1 (mem_filter.1 hname).1
  obtain ⟨huse, hvalue⟩ := mem_filter.1 huse
  cases byRef with
  | false => exact huse
  | true => cases hvalue

lemma inferClosure_stages (hP : Closed P) (hev : ev.Keeps P cx) (hst : st.Wf P)
    (h : ev.inferClosure id fn cx st = some (type, st')) :
    ∃ entered around ended, ClosureRun P cx ev id fn st st' entered around ended := by
  rw [inferClosure_eq] at h
  replace h := bind_rest h rfl
  replace h := bind_rest h rfl
  replace h := bind_rest h rfl
  obtain ⟨s, st1, hglobals, h⟩ := of_bind h
  have hmade : Made P st s st1 := made_addSuperglobals hP hst rfl rfl hglobals
  replace h := bind_rest h rfl
  replace h := bind_rest h rfl
  obtain ⟨s, st2, hdeclare, h⟩ := of_bind h
  refine closureBody_stages hP hev hst (made_declareThis hmade (fun r hr => ?_) hdeclare) h
  obtain ⟨v, hv, rfl⟩ := map_eq_some_iff.1 hr
  split at hv
  · cases hv
  · obtain ⟨k, -, rfl⟩ := map_eq_some_iff.1 hv
    exact hmade.change.types k

end Evaluator

namespace ClosureRun

variable {id : NodeId} {fn : ClosureExpr} {entered : Scope} {around ended : State} {k : Nat}
  (h : ClosureRun P cx ev id fn st st' entered around ended)

include h

lemma stack_eq : st'.stack = around.stack := by
  obtain ⟨names, -, hmarks⟩ := h.marks
  exact (propagateUsage_effect hmarks).1

lemma gained : Gained st.store.size fn.uses st.stack.current around.stack.current := by
  obtain ⟨made, before, hmade, hcapture⟩ := h.capture
  have hbefore : before.stack = st.stack := by rw [hmade.rest]
  exact hbefore ▸ (capture_effect hmade.change.size_le hcapture).1

lemma shared_of_owns (hk : k < st.store.size) (howns : entered.Owns k) :
    ∃ a, ⟨a, true⟩ ∈ fn.uses ∧ st.stack.current.slot? a = some k := by
  obtain ⟨made, before, hmade, hcapture⟩ := h.capture
  obtain ⟨a, ha⟩ := howns
  have hold : around.stack.current.slot? a = some k :=
    (h.captured.slot? a k ha).resolve_right fun hnew => Nat.not_le_of_lt hk hnew.1
  refine ⟨a, ?_, h.gained.slot?_of_lt hold hk⟩
  rcases (capture_effect hmade.change.size_le hcapture).2.2 a k ha with hmade' | hge | huse
  · exact absurd (hmade.ge ⟨a, hmade'⟩) (Nat.not_le.2 hk)
  · exact absurd hge (Nat.not_le.2 hk)
  · exact huse

lemma read_around (hk : k < st.store.size) :
    around.store.read k = st.store.read k ∨
      ∃ a, ⟨a, true⟩ ∈ fn.uses ∧ st.stack.current.slot? a = some k := by
  obtain ⟨made, before, hmade, hcapture⟩ := h.capture
  have hbefore : before.stack = st.stack := by rw [hmade.rest]
  have hread := (capture_effect hmade.change.size_le hcapture).2.1 k hk
  rwa [hbefore, hmade.read_eq hk] at hread

/-- Of the variables that were there, a closure writes to those listed by reference, and marks as
read those listed by value. -/
lemma effect (hk : k < st.store.size) :
    st'.store.read k = st.store.read k ∨
      (∃ a, ⟨a, true⟩ ∈ fn.uses ∧ st.stack.current.slot? a = some k) ∨
      ∃ a, ⟨a, false⟩ ∈ fn.uses ∧ st.stack.current.slot? a = some k ∧
        st'.store.read k = { st.store.read k with used := true } := by
  by_cases howns : entered.Owns k
  · exact .inr (.inl (h.shared_of_owns hk howns))
  rcases h.read_around hk with haround | hshared
  · obtain ⟨names, hnames, hmarks⟩ := h.marks
    have hended : (ended.left id ended.stack.current around.stack).store.read k =
        st.store.read k :=
      (h.body.read_eq k (Nat.lt_of_lt_of_le hk h.size_le) howns).trans haround
    rcases (propagateUsage_effect hmarks).2 k with hread | ⟨name, hname, hslot, hread⟩
    · exact .inl (hread.trans hended)
    · rw [hended] at hread
      exact .inr (.inr ⟨name, hnames name hname, h.gained.slot?_of_lt hslot hk, hread⟩)
  · exact .inr (.inl hshared)

end ClosureRun

/-! ## All kinds of functions -/

lemma sameScopes_of_check_function {budget : Nat} {id : NodeId} {stmt : Stmt} {flow : Flow}
    (hst : st.Placed) (hstmt : cx.arena.stmt? id = some stmt)
    (hfunction : (∃ fn, stmt = .function fn) ∨ ∃ fn, stmt = .method fn)
    (h : (evaluator budget).check id cx st = some (flow, st')) :
    SameScopes st st' ∧ ∀ k < st.store.size, st'.store.read k = st.store.read k := by
  obtain ⟨n, st1, rfl, hrun, rfl⟩ := check_inside hstmt h
  have hst0 : (st.enterStmt id).Placed := Wf.around hst
  have heffect : st1.stack = (st.enterStmt id).stack ∧
      ∀ k < st.store.size, st1.store.read k = st.store.read k := by
    have hev : (evaluator n).Keeps (fun _ => True) cx := evaluator_keeps_any n
    rcases hfunction with ⟨fn, rfl⟩ | ⟨fn, rfl⟩
    · obtain ⟨_, hbody, -⟩ := of_result hrun
      exact checkFunction_effect closed_true hev hst0 .none hbody
    · cases hdecl : fn.body with
      | none =>
        simp only [checkStmt, hdecl] at hrun
        cases hrun
        exact ⟨rfl, fun _ _ => rfl⟩
      | some body =>
        simp only [checkStmt, hdecl] at hrun
        obtain ⟨this, st2, hthis, hrun⟩ := of_bind hrun
        obtain rfl : st2 = st.enterStmt id := fixes_thisType _ hthis
        obtain ⟨_, hbody, -⟩ := of_result hrun
        exact checkFunction_effect closed_true hev hst0 (fun _ _ => trivial) hbody
  have hstack : (st1.leaveStmt id).stack = st.stack := by
    show st1.stack.popNode = st.stack
    rw [heffect.1]
    rfl
  exact ⟨.of_read hst hstack heffect.2, heffect.2⟩

/-- What a function may do to the variables that were there.  A declared function or method leaves
them and all scopes on the stack as they are.  An arrow function may mark variables of the scope
around it as read.  A closure may write to variables that it lists by reference, which that scope
gains where it does not have them, and may mark as read those that it lists by value. -/
theorem effects_of_functions (budget : Nat) (hst : st.Placed) (id : NodeId) :
    (∀ stmt flow st', cx.arena.stmt? id = some stmt →
      ((∃ fn, stmt = .function fn) ∨ ∃ fn, stmt = .method fn) →
      (evaluator budget).check id cx st = some (flow, st') →
        SameScopes st st' ∧ ∀ k < st.store.size, st'.store.read k = st.store.read k) ∧
    (∀ fn type st', cx.arena.expr? id = some (.arrow fn) →
      (evaluator budget).infer id cx st = some (type, st') →
        st'.stack = st.stack ∧ ∀ k < st.store.size, st'.store.read k = st.store.read k ∨
          st.stack.current.Owns k ∧ st'.store.read k = { st.store.read k with used := true }) ∧
    ∀ fn type st', cx.arena.expr? id = some (.closure fn) →
      (evaluator budget).infer id cx st = some (type, st') →
        st'.stack = st.stack.setCurrent st'.stack.current ∧
        Gained st.store.size fn.uses st.stack.current st'.stack.current ∧
        ∀ k < st.store.size, st'.store.read k = st.store.read k ∨
          (∃ a, ⟨a, true⟩ ∈ fn.uses ∧ st.stack.current.slot? a = some k) ∨
          ∃ a, ⟨a, false⟩ ∈ fn.uses ∧ st.stack.current.slot? a = some k ∧
            st'.store.read k = { st.store.read k with used := true } := by
  have hst₀ : (st.enterNode id).Placed := Wf.around hst
  refine ⟨fun stmt flow st' hstmt hfunction h =>
    sameScopes_of_check_function hst hstmt hfunction h, fun fn type st' he h => ?_,
    fun fn type st' he h => ?_⟩
  · rcases infer_cases he h with ⟨-, rfl⟩ | ⟨n, st₁, rfl, hrun, rfl⟩
    · exact ⟨rfl, fun k _ => .inl rfl⟩
    · obtain ⟨hstack, hread⟩ :=
        inferArrow_effect closed_true (evaluator_keeps_any n) hst₀ hrun
      refine ⟨?_, hread⟩
      show st₁.stack.popNode = st.stack
      rw [hstack]
      rfl
  · rcases infer_cases he h with ⟨-, rfl⟩ | ⟨n, st₁, rfl, hrun, rfl⟩
    · exact ⟨(setCurrent_current _).symm, .refl _, fun k _ => .inl rfl⟩
    · obtain ⟨entered, around, ended, hclosure⟩ :=
        inferClosure_stages closed_true (evaluator_keeps_any n) hst₀ hrun
      have hcurrent : st₁.stack.current = around.stack.current := by rw [hclosure.stack_eq]
      refine ⟨?_, ?_, fun k hk => hclosure.effect hk⟩
      · show st₁.stack.popNode = st.stack.setCurrent st₁.stack.current
        rw [hclosure.stack_eq, hclosure.stack, current_setCurrent]
        exact popNode_setCurrent_pushNode ..
      · show Gained _ _ _ st₁.stack.current
        rw [hcurrent]
        exact hclosure.gained

theorem effects_of_functions_sharing :
    sharing.Placed ∧ ∃ type st',
      (evaluator 9).infer 4 ⟨captureUnit.arena, {}, {}⟩ sharing = some (type, st') ∧
      Gained sharing.store.size [⟨"x", true⟩] sharing.stack.current
        st'.stack.current ∧
      renderOption (sharing.stack.root.typeOf? st'.store "x") = "int" := by
  have hrun : ((evaluator 9).infer 4 ⟨captureUnit.arena, {}, {}⟩ sharing).any
      (fun r => renderOption (sharing.stack.root.typeOf? r.2.store "x") == "int") = true := by
    decide +kernel
  obtain ⟨⟨type, st'⟩, hrun, htype⟩ := (Option.any_eq_true ..).1 hrun
  have hclosure := (effects_of_functions 9 placed_sharing 4).2.2
    { params := [], uses := [⟨"x", true⟩], body := [3] } type st' rfl hrun
  exact ⟨placed_sharing, type, st', hrun, hclosure.2.1, by simpa using htype⟩

end FlowTyping

import FlowTyping.Analysis.Function
import FlowTyping.Proofs.Analysis.Branches

/-!
# Function bodies keep to their scope

The body of a function runs in a scope of its own, which is on the stack above the scope around it.
A closure that captures by reference shares variables with that scope; everything else in its scope
is new.  So a body writes to variables of the scope around it and to new slots at most, and to new
slots only where nothing is captured by reference.
-/

namespace FlowTyping

open List Option Scope

variable {P : Ty → Prop} {cx : Context} {n : Nat} {st st' : State} {s : Scope} {l : List Scope}
  {α β : Type} {m : Analysis α} {Q : α → Prop} {f : Option Scope → Analysis β}

/-! ## Capturing -/

/-- The scope of a function shares a variable with the current scope under the same name only; its
other variables have slots from `n` on. -/
structure Captured (P : Ty → Prop) (n : Nat) (st : State) (s : Scope) : Prop where
  wf : s.Wf P st.store
  slot? : ∀ a k, s.slot? a = some k →
    st.stack.current.slot? a = some k ∨ n ≤ k ∧ ¬ st.stack.current.Owns k
  breaks : ∀ b ∈ st.breaks.flatten, s.Apart b

namespace Captured

lemma of_held (h : Held P n st (s :: l)) : Captured P n st s where
  wf := h.wf s (.head _)
  slot? a k hk := .inr ⟨h.ge s (.head _) k ⟨a, hk⟩,
    h.stack s (.head _) _ st.stack.current_mem_scopes k ⟨a, hk⟩⟩
  breaks := h.breaks s (.head _)

lemma owns (h : Captured P n st s) {k : Nat} (hk : s.Owns k) :
    st.stack.current.Owns k ∨ n ≤ k := by
  obtain ⟨a, ha⟩ := hk
  rcases h.slot? a k ha with h | h
  · exact .inl ⟨a, h⟩
  · exact .inr h.1

/-- Capturing by reference: the scope around the function binds the name, and both scopes hold one
variable. -/
lemma share (hst : st.Wf P) (hn : n ≤ st.store.size) (hs : Captured P n st s)
    (hl : Held P n st l) (name : String) (line : Line) :
    let e := st.stack.current.ensure st.store name line
    let r := s.share e.2.2 name e.1
    let st' := { st with store := r.2, stack := st.stack.setCurrent e.2.1 }
    Step P n st st' ∧ Captured P n st' r.1 ∧ Held P n st' l := by
  intro e r st'
  have hensure := change_ensure hst.current hst.types (Nat.le_refl _) name line
  have hslot : e.2.1.slot? name = some e.1 := slot?_ensure ..
  have hshare : Change P st.store.size e.2.1 e.2.2 e.2.1 r.2 := by
    refine .of_vars_eq hensure.wf rfl hensure.wf.chains
      (hensure.types.update e.1 fun _ hv => hv) (by simp [r, Scope.share]) fun k _ hk => ?_
    exact Store.read_update_of_ne (fun he : e.1 = k => hk ⟨name, he ▸ hslot⟩) ..
  have hchange := hensure.trans hshare
  have hstep : Step P st.store.size st st' :=
    .of_change hst hchange (hst.breaks_apart_of_change hchange)
  -- A variable of the function's scope that the scope around it does not have stays its own.
  have hkeep : ∀ a k, s.slot? a = some k →
      e.2.1.slot? a = some k ∨ n ≤ k ∧ ¬ e.2.1.Owns k := by
    intro a k ha
    rcases hs.slot? a k ha with h | ⟨hk, h⟩
    · exact .inl (slot?_ensure_of_some h line)
    · refine .inr ⟨hk, fun ho => ?_⟩
      rcases hensure.owns k ho with ho | ho
      · exact h ho
      · exact Nat.not_le_of_lt (hs.wf.lt ⟨a, ha⟩) ho
  have hcur : st'.stack.current = e.2.1 := Stack.current_setCurrent ..
  refine ⟨hstep.anti hn, ⟨⟨?_, hs.wf.chains⟩, fun a k ha => ?_, ?_⟩, hstep.held hl⟩
  · refine hs.wf.placed.insert hchange.size_le (hshare.wf.placed.lt hslot) fun a ha => ?_
    rcases hkeep a e.1 ha with h | h
    · exact hensure.wf.placed.inj h hslot
    · exact absurd ⟨name, hslot⟩ h.2
  · rw [hcur]
    simp only [r, Scope.slot?, Scope.share, Dict.get?_insert] at ha
    split at ha
    · rename_i h
      exact .inl (h ▸ hslot.trans ha)
    · exact hkeep a k ha
  · rintro b hb k ⟨a, ha⟩ hk
    simp only [r, Scope.slot?, Scope.share, Dict.get?_insert] at ha
    split at ha
    · have hapart := hst.breaks_apart_of_change hchange b hb
      exact hapart k hk ⟨name, hslot.trans ha⟩
    · exact hs.breaks b hb k ⟨a, ha⟩ hk

lemma declare (hst : st.Wf P) (hn : n ≤ st.store.size) (hs : Captured P n st s)
    (hl : Held P n st l) (name : String) {type : Option Ty} (ht : Ty.KnownIn P type)
    (kind : VarKind) (line : Line) :
    let r := s.declare st.store name type kind line
    let st' := { st with store := r.2 }
    Step P n st st' ∧ Captured P n st' r.1 ∧ Held P n st' l := by
  intro r st'
  have hchange := change_declare hs.wf hst.types le_rfl name ht kind line
  have hstep : Step P st.store.size st st' :=
    .of_store hst hchange.types hchange.size_le fun k hk _ => Store.read_alloc_of_lt hk _
  have hnew : ∀ a k, r.1.slot? a = some k → s.slot? a = some k ∨ k = st.store.size := by
    intro a k ha
    simp only [r, Scope.slot?, Scope.declare, bindNew, Dict.get?_insert] at ha
    split at ha
    · exact .inr (some.inj ha).symm
    · exact .inl ha
  refine ⟨hstep.anti hn, ⟨hchange.wf, fun a k ha => ?_, ?_⟩, hstep.held hl⟩
  · rcases hnew a k ha with ha | rfl
    · exact hs.slot? a k ha
    · exact .inr ⟨hn, fun ho => lt_irrefl _ (hst.current.lt ho)⟩
  · rintro b hb k ⟨a, ha⟩ hk
    rcases hnew a k ha with ha | rfl
    · exact hs.breaks b hb k ⟨a, ha⟩ hk
    · exact lt_irrefl _ ((hst.breaks b hb).lt hk)

end Captured

namespace Analysis

lemma captured_of_capture {line : Line} {uses : List ClosureUse} {s' : Scope} (hst : st.Wf P)
    (hn : n ≤ st.store.size) (hs : Captured P n st s) (hl : Held P n st l)
    (h : capture line uses s cx st = some (s', st')) :
    Step P n st st' ∧ Captured P n st' s' ∧ Held P n st' l := by
  induction uses generalizing s st with
  | nil =>
    obtain ⟨rfl, rfl⟩ := of_pure h
    exact ⟨.refl hst, hs, hl⟩
  | cons use uses ih =>
    by_cases href : use.byRef = true
    · simp only [capture, href, if_true] at h
      have h' : capture line uses _ cx _ = some (s', st') := h
      obtain ⟨hstep, hs1, hl1⟩ := Captured.share hst hn hs hl use.name line
      obtain ⟨hstep', hrest⟩ := ih hstep.wf (Nat.le_trans hn hstep.size_le) hs1 hl1 h'
      exact ⟨hstep.trans hstep', hrest⟩
    · simp only [capture, href] at h
      have h' : capture line uses _ cx _ = some (s', st') := h
      obtain ⟨hstep, hs1, hl1⟩ := Captured.declare hst hn hs hl use.name
        (hst.types.typeOf? st.stack.current use.name) .captured line
      obtain ⟨hstep', hrest⟩ := ih hstep.wf (Nat.le_trans hn hstep.size_le) hs1 hl1 h'
      exact ⟨hstep.trans hstep', hrest⟩

end Analysis

/-! ## Running a body -/

/-- The state in which the body of a function runs. -/
def State.calling (st : State) (s : Scope) : State :=
  { st with stack := st.stack.push s }

section Body

variable {st1 : State}

lemma State.Wf.calling (hst : st.Wf P) (hs : Captured P n st s) : (st.calling s).Wf P := by
  have hscopes : (st.calling s).stack.scopes = s :: st.stack.scopes := rfl
  refine ⟨hst.types, fun t ht => ?_, hst.breaks, fun b hb t ht => ?_, hst.breaks_pairwise,
    hst.table, hst.events⟩
  · rw [hscopes, mem_cons] at ht
    rcases ht with rfl | ht
    · exact hs.wf
    · exact hst.stack t ht
  · rw [hscopes, mem_cons] at ht
    rcases ht with rfl | ht
    · exact (hs.breaks b hb).symm
    · exact hst.breaks_apart b hb t ht

lemma State.Fit.calling (hst : st.Fit P) (hs : Captured P n st s) : (st.calling s).Fit P :=
  ⟨hst.toWf.calling hs, hst.classes⟩

lemma Step.pop?_eq (h : Step P st.store.size (st.calling s) st1) :
    st1.stack.pop? = some (st1.stack.current, st.stack) := by
  rw [h.stack]
  rfl

/-- A body, seen from outside: it writes to variables that are captured by reference and to new
slots.  What is recorded when it is left is added to the state behind it. -/
lemma Step.function (hst : st.Wf P) (hn : n ≤ st.store.size) (hs : Captured P n st s)
    (hl : Held P n st l) (h : Step P st.store.size (st.calling s) st1) {e : Event}
    (he : e.TypesIn P) {table : NodeTable} (ht : table.Wf P st1.store) :
    let st' := { st1 with stack := st.stack, events := e :: st1.events, table }
    Step P n st st' ∧ Held P n st' l := by
  intro st'
  have hnew : ∀ t : Scope, t.Wf P st.store → (∀ b ∈ st.breaks.flatten, t.Apart b) →
      ∀ b ∈ st1.breaks.flatten, t.Apart b := fun t ht => h.breaks.apart fun _ hk => ht.lt hk
  constructor
  · refine ⟨⟨h.wf.types, fun t ht => (hst.stack t ht).mono h.size_le, h.wf.breaks, ?_,
      h.wf.breaks_pairwise, ht, ?_⟩, h.size_le, ?_, fun k hk => .inl hk, ?_, h.breaks.anti hn,
      h.depth, h.events.trans (suffix_cons ..)⟩
    · exact fun b hb t ht =>
        (hnew t (hst.stack t ht) (fun b hb => (hst.breaks_apart b hb t ht).symm) b hb).symm
    · exact forall_mem_cons.2 ⟨he, h.wf.events⟩
    · intro k hk hcur
      refine h.read_eq k (Nat.lt_of_lt_of_le hk hn) fun ho => ?_
      rcases hs.owns ho with ho | ho
      · exact hcur ho
      · omega
    · simp [st']
  · exact ⟨fun t ht => (hl.wf t ht).mono h.size_le, hl.ge, hl.stack,
      fun t ht => hnew t (hl.wf t ht) (hl.breaks t ht), hl.pairwise⟩

/-- The state without the frames of the loops around. -/
def State.withoutLoops (st : State) : State :=
  { st with breaks := [] }

lemma State.Wf.withoutLoops (hst : st.Wf P) : st.withoutLoops.Wf P :=
  ⟨hst.types, hst.stack, by simp [State.withoutLoops], by simp [State.withoutLoops],
    by simp [State.withoutLoops], hst.table, hst.events⟩

lemma Held.withoutLoops (hl : Held P n st l) : Held P n st.withoutLoops l :=
  ⟨hl.wf, hl.ge, hl.stack, by simp [State.withoutLoops], hl.pairwise⟩

/-- The frames of the loops around a function are as they were, so what happened without them is a
step. -/
lemma Step.restoreLoops (hst : st.Wf P) (hl : Held P n st l) (h : Step P n st.withoutLoops st1)
    (hl1 : Held P n st1 l) (hstack : st1.stack = st.stack) :
    let st' := { st1 with breaks := st.breaks }
    Step P n st st' ∧ Held P n st' l := by
  intro st'
  refine ⟨⟨⟨h.wf.types, h.wf.stack, fun b hb => (hst.breaks b hb).mono h.size_le, ?_,
    hst.breaks_pairwise, h.wf.table, h.wf.events⟩, h.size_le, h.read_eq, h.owns, h.stack,
    .refl .., h.depth, h.events⟩, ⟨hl1.wf, hl1.ge, hl1.stack, hl.breaks, hl1.pairwise⟩⟩
  intro b hb t ht
  exact hst.breaks_apart b hb t (hstack ▸ ht)

end Body

/-- The state behind a function whose scope at the end is `s`, with the stack around it. -/
def State.left (st : State) (function : NodeId) (s : Scope) (stack : Stack) : State :=
  { st with
    stack
    events := .left function (s.view st.store) :: st.events
    table := st.table.setSummary function
      { used := (s.view st.store).usedNames
        unused := (s.view st.store).unusedVars.map Variable.name } }

namespace Analysis

lemma leaveFunction_run {stack : Stack} (h : st.stack.pop? = some (s, stack)) (cx : Context)
    (function : NodeId) :
    leaveFunction function cx st = some (some s, st.left function s stack) := by
  unfold leaveFunction
  rw [bind_run (show getStack cx st = some (st.stack, st) from rfl), h]
  rfl

lemma leaveFunction_of_none (h : st.stack.pop? = none) (cx : Context) (function : NodeId) :
    leaveFunction function cx st = some (none, st) := by
  unfold leaveFunction
  rw [bind_run (show getStack cx st = some (st.stack, st) from rfl), h]
  rfl

section Leave

variable {function : NodeId} {b : β}

lemma body_of_leave (hst : st.Fit P) (hs : Captured P n st s) (hm : Keeps P cx m Q)
    (h : (modifyStack (fun st => st.push s) >>= fun _ => m >>= fun _ =>
      leaveFunction function >>= f) cx st = some (b, st')) :
    ∃ a st1, m cx (st.calling s) = some (a, st1) ∧ Step P st.store.size (st.calling s) st1 ∧
      f (some st1.stack.current) cx (st1.left function st1.stack.current st.stack) =
        some (b, st') := by
  replace h := bind_rest h rfl
  obtain ⟨a, st1, h1, h⟩ := of_bind h
  have hstep : Step P st.store.size (st.calling s) st1 := (hm.step (hst.calling hs) h1).1
  obtain ⟨_, _, h2, h⟩ := of_bind h
  rw [leaveFunction_run hstep.pop?_eq, some.injEq, Prod.mk.injEq] at h2
  obtain ⟨rfl, rfl⟩ := h2
  exact ⟨a, st1, h1, hstep, h⟩

lemma leave_of_body (hst : st.Fit P) (hn : n ≤ st.store.size) (hs : Captured P n st s)
    (hl : Held P n st l) (hm : Keeps P cx m Q)
    (h : (modifyStack (fun st => st.push s) >>= fun _ => m >>= fun _ =>
      leaveFunction function >>= f) cx st = some (b, st')) :
    ∃ s' st1, f (some s') cx st1 = some (b, st') ∧ Step P n st st1 ∧ Held P n st1 l := by
  obtain ⟨_, st1, -, hstep, h⟩ := body_of_leave hst hs hm h
  obtain ⟨hstep', hl'⟩ := Step.function hst.toWf hn hs hl hstep
    (e := .left function _) (hstep.wf.current.view hstep.wf.types) (hstep.wf.table.setSummary _)
  exact ⟨_, _, h, hstep', hl'⟩

end Leave

end Analysis

namespace Analysis

section Functions

variable {R : β → Prop}

lemma Gives.inFunction (hm : Keeps P cx m Q) (hf : ∀ o, Keeps P cx (f o) R) (line : Line)
    (uses : List ClosureUse) (s : Scope) (function : NodeId) :
    Gives P cx [s] (capture line uses s >>= fun s => modifyStack (fun st => st.push s) >>= fun _ =>
      m >>= fun _ => leaveFunction function >>= f) (fun _ => []) R := by
  intro n st c hst hn hl b st' hr
  obtain ⟨s1, st1, h1, hr⟩ := of_bind hr
  obtain ⟨hstep1, hs1, hl1⟩ := captured_of_capture hst.toWf hn (.of_held hl) hl.tail h1
  obtain ⟨s2, st2, h2, hstep2, hl2⟩ := leave_of_body (hstep1.fit hst)
    (Nat.le_trans hn hstep1.size_le) hs1 hl1 hm hr
  have hstep := hstep1.trans hstep2
  obtain ⟨hstep3, hl3, hR⟩ := hf _ c (hstep.fit hst) (Nat.le_trans hn hstep.size_le) hl2 h2
  exact ⟨hstep.trans hstep3, hl3, hR⟩

/-- So does a declared function, which runs without the loops around it; they come back behind it. -/
lemma Gives.function (hm : Keeps P cx m Q) (s : Scope) (function : NodeId) :
    Gives P cx [s] (do
      let breaks := (← get).breaks
      modify fun st => { st with breaks := [], stack := st.stack.push s }
      let _ ← m
      let _ ← leaveFunction function
      modify fun st => { st with breaks }) (fun _ => []) fun _ => True := by
  intro n st c hst hn hl a st' hr
  replace hr := bind_rest hr rfl
  replace hr := bind_rest hr rfl
  obtain ⟨_, st1, h1, hr⟩ := of_bind hr
  have hst0 : st.withoutLoops.Fit P := ⟨hst.toWf.withoutLoops, hst.classes⟩
  have hs : Captured P n st.withoutLoops s := .of_held hl.withoutLoops
  have hbody : Step P st.withoutLoops.store.size (st.withoutLoops.calling s) st1 :=
    (hm.step (hst0.calling hs) h1).1
  obtain ⟨_, _, he, hr⟩ := of_bind hr
  rw [leaveFunction_run hbody.pop?_eq, some.injEq, Prod.mk.injEq] at he
  obtain ⟨rfl, rfl⟩ := he
  cases hr
  obtain ⟨hstep, hl1⟩ := Step.function hst0.toWf hn hs hl.tail.withoutLoops hbody
    (e := .left function _) (hbody.wf.current.view hbody.wf.types) (hbody.wf.table.setSummary _)
  obtain ⟨hstep, hl⟩ := Step.restoreLoops hst.toWf hl.tail hstep hl1 rfl
  exact ⟨hstep, hl, trivial⟩

end Functions

end Analysis

end FlowTyping

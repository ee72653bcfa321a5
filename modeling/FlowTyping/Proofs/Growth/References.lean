import FlowTyping.Ast.Builder
import FlowTyping.Proofs.Analysis.Engine
import FlowTyping.Proofs.Analysis.Tests
import FlowTyping.Proofs.Growth.Expressions

/-!
# Arguments by reference

A variable that is bound to a parameter by reference is written and not evaluated.  Whether a
parameter is by reference says the declaration that the call is bound to.  The variable is unknown
right behind its argument.  The arguments that follow may give it a type again, by writing to it or by
testing it.  All others leave it unknown.
-/

namespace FlowTyping

open Analysis Context Evaluator List State Ty

variable {cx : Context} {st st' : State} {line : Line} {name : String} {before after : List Arg}

/-! ## Arguments -/

/-- The variable is bound, nothing is known of it, and it counts as written. -/
def State.Overwritten (st : State) (name : String) : Prop :=
  ∃ v, st.stack.current.var? st.store name = some v ∧ v.type = none ∧ v.written = true

lemma Scope.var?_assign_self {P : Ty → Prop} {s : Scope} {σ : Store} (hs : s.Wf P σ)
    (name : String) (type : Option Ty) (line : Line) :
    ∃ v, (s.assign σ name type line).1.var? (s.assign σ name type line).2 name = some v ∧
      v.type = type ∧ v.written = true := by
  unfold assign
  cases hslot : s.slot? name with
  | none =>
    have hnew := var?_bindNew hs name
      { name, type, line, written := true, typeChanged := true : Variable } name
    rw [if_pos rfl] at hnew
    exact ⟨_, hnew, rfl, rfl⟩
  | some slot =>
    have hupdate := var?_updateVar hs name
      (fun v => { v with type, written := true, typeChanged := true, line }) name
    rw [if_pos rfl, updateVar, hslot, show s.var? σ name = _ by rw [var?, hslot]] at hupdate
    exact ⟨_, hupdate, rfl, rfl⟩

variable {ev : Evaluator} {method : String} {receiver type : Ty}

lemma bindByRef_var {value : NodeId} (hst : st.Placed)
    (hvalue : cx.arena.varName? value = some name)
    (h : ev.bindByRef value line cx st = some ((), st')) :
    st'.Placed ∧ st'.Overwritten name ∧ st'.table = st.table ∧ st'.events = st.events := by
  replace h := bind_rest h rfl
  rw [Arena.expr?_of_varName? hvalue] at h
  replace h := bind_rest h (onVars_run _)
  rw [Stack.setCurrent_current] at h
  cases h
  have hread := hst.markRead name
  have hchange := Scope.change_assign (n := (st.markRead name).store.size) hread.current hread.types
    le_rfl name .none line
  refine ⟨(Step.of_change hread hchange (hread.breaks_apart_of_change hchange)).wf, ?_, rfl, rfl⟩
  obtain ⟨v, hv, htype, hwritten⟩ := Scope.var?_assign_self hread.current name none line
  refine ⟨v, ?_, htype, hwritten⟩
  rw [← hv]
  rw [Stack.current_setCurrent]
  rfl

lemma bindArgsFrom_append (signature : Option Signature) (position : Nat) (before after : List Arg) :
    ev.bindArgsFrom signature line position (before ++ after) = (do
      ev.bindArgsFrom signature line position before
      ev.bindArgsFrom signature line (position + before.length) after) := by
  induction before generalizing position with
  | nil => rfl
  | cons arg before ih =>
    simp only [cons_append, bindArgsFrom, ih, length_cons,
      Nat.add_right_comm position _ 1, ← Nat.add_assoc]
    split <;> simp only [bind_assoc]

/-- The arguments before a variable by reference, the variable, and the arguments behind it. -/
lemma bindArgs_byRef {call : NodeId} {arg : Arg} {f : Signature} (hst : st.Placed)
    (hev : ev.Keeps (fun _ => True) cx) (hunpack : arg.unpack = false)
    (hvalue : cx.arena.varName? arg.value = some name)
    (hparam : (f.paramFor? before.length arg).any (·.byRef) = true)
    (h : ev.bindArgs call (before ++ arg :: after) (some f) cx st = some ((), st')) :
    ∃ st1 st2, ev.bindArgsFrom (some f) (cx.arena.line call) 0 before cx st = some ((), st1) ∧
      st2.Placed ∧ st2.Overwritten name ∧ st2.table = st1.table ∧ st2.events = st1.events ∧
      ev.bindArgsFrom (some f) (cx.arena.line call) (before.length + 1) after cx st2 =
        some ((), st') := by
  replace h := bind_rest h rfl
  rw [bindArgsFrom_append] at h
  obtain ⟨⟨⟩, st1, hbefore, h⟩ := of_bind h
  have hkeeps : Keeps (fun _ => True) cx (ev.bindArgs call before (some f)) fun _ => True :=
    (hev.traverser closed_true.toStable cx.declaresIn_true).stepwise.bindArgs
      call _ fun _ _ => trivial
  have hst1 := (hkeeps.step hst ((bind_run rfl).trans hbefore)).1.wf
  rw [bindArgsFrom, Option.bind_some, Nat.zero_add, hunpack, hparam] at h
  obtain ⟨⟨⟩, st2, hbind, hafter⟩ := of_bind h
  obtain ⟨hst2, hwritten, htable, hevents⟩ := bindByRef_var hst1 hvalue hbind
  exact ⟨st1, st2, hbefore, hst2, hwritten, htable, hevents, hafter⟩

/-! ## Methods -/

/-- A class among the options of a receiver has the method, where a type is found on every option. -/
lemma Context.method?_isSome_of_onReceiver? {c : String}
    (h : onReceiver? receiver (cx.returnType? · method) = some type)
    (hc : c ∈ receiver.stripNull.members.filterMap className?) :
    (cx.index.method? c method).isSome = true := by
  obtain ⟨found, hfound, -⟩ := Option.bind_eq_some_iff.1 h
  obtain ⟨t, ht, htc⟩ := mem_filterMap.1 hc
  obtain ⟨declared, -, hdeclared⟩ := exists_of_mapM_of_mem hfound ht
  cases t with
  | named name =>
    obtain rfl : name = c := Option.some.inj htc
    obtain ⟨f, hf, -⟩ := Option.bind_eq_some_iff.1 hdeclared
    rw [hf]
    rfl
  | _ => cases htc

lemma Index.firstMethod?_isSome_iff
    (h : onReceiver? receiver (cx.returnType? · method) = some type) :
    (cx.index.firstMethod? receiver method).isSome = true ↔
      ∃ t ∈ receiver.stripNull.members, t.className?.isSome = true := by
  have hmethod := fun c => cx.method?_isSome_of_onReceiver? (c := c) h
  rw [firstMethod?, findSome?_isSome_iff]
  constructor
  · rintro ⟨c, hc, -⟩
    obtain ⟨t, ht, htc⟩ := mem_filterMap.1 hc
    exact ⟨t, ht, Option.isSome_iff_exists.2 ⟨c, htc⟩⟩
  · rintro ⟨t, ht, htc⟩
    obtain ⟨c, hc⟩ := Option.isSome_iff_exists.1 htc
    have hmem := mem_filterMap.2 ⟨t, ht, hc⟩
    exact ⟨c, hmem, hmethod c hmem⟩

/-- Where a call finds the type that a method returns, it finds a declaration to bind its arguments to
exactly if one of the options of the receiver is a class.  Then a variable that is passed to a
parameter by reference is written by its argument, and not evaluated. -/
theorem declaration_for_arguments (cx : Context) {receiver : Ty} {method : String} {type : Ty}
    (h : onReceiver? receiver (cx.returnType? · method) = some type) :
    ((cx.index.firstMethod? receiver method).isSome = true ↔
      ∃ t ∈ receiver.stripNull.members, t.className?.isSome = true) ∧
    ∀ (n : Nat) (call object : NodeId) (before after : List Arg) (arg : Arg) (nullsafe : Bool)
      (f : Signature) (name : String) (st st₀ st' : State) (result : Option Ty),
      cx.index.firstMethod? receiver method = some f → st.Placed →
      arg.unpack = false → cx.arena.varName? arg.value = some name →
      (f.paramFor? before.length arg).any (·.byRef) = true →
      (evaluator n).infer object cx st = some (some receiver, st₀) →
      (evaluator n).inferMethodCall call object (.identifier method) (before ++ arg :: after) nullsafe
        cx st = some (result, st') →
      ∃ st₁ st₂,
        (evaluator n).bindArgsFrom (some f) (cx.arena.line call) 0 before cx st₀ = some ((), st₁) ∧
        st₂.Overwritten name ∧ st₂.events = st₁.events ∧
        (evaluator n).bindArgsFrom (some f) (cx.arena.line call) (before.length + 1) after cx st₂ =
          some ((), st') := by
  refine ⟨Index.firstMethod?_isSome_iff h, ?_⟩
  intro n call object before after arg nullsafe f name st st₀ st' result hf hst hunpack hvalue hparam
    hobject hcall
  replace hcall := bind_rest hcall hobject
  replace hcall := bind_rest hcall rfl
  obtain ⟨⟨⟩, hargs, -⟩ := result_eq_some.1 hcall
  rw [Option.bind_some, hf] at hargs
  have hst₀ := (((evaluator_keeps_any n).infer object).step hst hobject).1.wf
  obtain ⟨st₁, st₂, hbefore, -, hwritten, -, hevents, hafter⟩ :=
    bindArgs_byRef hst₀ (evaluator_keeps_any n) hunpack hvalue hparam hargs
  exact ⟨st₁, st₂, hbefore, hwritten, hevents, hafter⟩

/-- A class with the method `int m(&$r)`, and a class without methods. -/
def writingMethod : Index :=
  let m : Signature :=
    { name := "m", params := [{ name := "r", byRef := true }], returnType := some .int }
  (Index.addClass {} (ClassInfo.addMethod { name := "A" } m)).addClass { name := "B" }

/-- `$p = new A; $p->m($x);`, where the first statement is node 3 and the call is node 6. -/
def writingCall : Arena := Build.result do
  let object ← Build.expr (.newNamed "A" [])
  let _ ← Build.assignStmt "p" object
  let receiver ← Build.expr (.var "p")
  let x ← Build.expr (.var "x")
  let _ ← Build.expr (.callMethod receiver "m" [x] false)
  return (← get).arena

theorem declaration_for_arguments_writingCall :
    ∃ st st₀ st' result, st.stack.current.contains "x" = false ∧
      (evaluator 5).infer 4 ⟨writingCall, writingMethod, {}⟩ st = some (some (.named "A"), st₀) ∧
      (evaluator 5).inferMethodCall 6 4 (.identifier "m") [{ value := 5 }] false
        ⟨writingCall, writingMethod, {}⟩ st = some (result, st') ∧
      st'.Overwritten "x" ∧ st'.events = st₀.events := by
  have hrun : (((evaluator 5).checkAll [3] ⟨writingCall, writingMethod, {}⟩ (initial {})).any
      fun r => !r.2.stack.current.contains "x" &&
        ((evaluator 5).infer 4 ⟨writingCall, writingMethod, {}⟩ r.2).any (fun r₀ =>
          r₀.1.bind className? == some "A") &&
        ((evaluator 5).inferMethodCall 6 4 (.identifier "m") [{ value := 5 }] false
          ⟨writingCall, writingMethod, {}⟩ r.2).isSome) = true := by decide +kernel
  obtain ⟨⟨flow, st⟩, hstart, hrun⟩ := (Option.any_eq_true ..).1 hrun
  rw [Bool.and_eq_true, Bool.and_eq_true, Bool.not_eq_true'] at hrun
  obtain ⟨⟨hunbound, hobject⟩, hcall⟩ := hrun
  obtain ⟨⟨object, st₀⟩, hinfer, hobject⟩ := (Option.any_eq_true ..).1 hobject
  obtain ⟨⟨result, st'⟩, hcall⟩ := Option.isSome_iff_exists.1 hcall
  obtain ⟨t, rfl, ht⟩ := Option.bind_eq_some_iff.1 (beq_iff_eq.1 hobject)
  obtain rfl : t = .named "A" := by
    cases t with
    | named => exact congrArg _ (Option.some.inj ht)
    | _ => cases ht
  have hev : (evaluator 5).Keeps (fun _ => True) ⟨writingCall, writingMethod, {}⟩ :=
    evaluator_keeps_any 5
  have hst : st.Placed := ((keeps_checkAll hev _).step
    (wf_initial closed_true {}) hstart).1.wf
  obtain ⟨st₁, st₂, hbefore, hwritten, hevents, hafter⟩ :=
    (@declaration_for_arguments ⟨writingCall, writingMethod, {}⟩ (.named "A") "m" _ rfl).2 5 6 4 [] []
      { value := 5 } false _ "x" st st₀ st' result rfl hst rfl (by decide +kernel) (by decide +kernel)
      hinfer hcall
  cases hbefore
  cases hafter
  exact ⟨st, st₀, _, result, hunbound, hinfer, hcall, hwritten, hevents⟩

/-- On an intersection the type that the method returns is found, and no declaration. -/
theorem no_declaration_on_intersection :
    (onReceiver? (.inter [.named "A", .named "B"]) fun c =>
      returnType? ⟨{}, writingMethod, {}⟩ c "m").isSome = true ∧
    (writingMethod.firstMethod? (.inter [.named "A", .named "B"]) "m").isSome = false := by
  decide +kernel

open Analysis

variable {n position : Nat} {signature : Option Signature}

lemma overwritten_of_later (hpending : Pending cx.arena (after.map Arg.value) st)
    (hplain : ∀ later ∈ after, cx.arena.PlainFor (.unknown name) later.value)
    (hst : st.Overwritten name)
    (h : (evaluator n).bindArgsFrom signature line position after cx st = some ((), st')) :
    st'.Overwritten name := by
  have hgrows : Grows (.unknown name) cx _ _ := (grower_evaluator (.unknown name) cx n).stepwise.bindArgsFrom
    signature line position (forall_mem_map.2 hplain)
  obtain ⟨v, hv, htype, hwritten⟩ := hst
  obtain ⟨w, hw, hvw⟩ := (hgrows hpending h).2.grows.vars rfl hv
  exact ⟨w, hw, hvw.unknown trivial htype, hvw.written hwritten⟩

lemma pending_after_arguments {nodes : List NodeId}
    (hpending : Pending cx.arena (before.map Arg.value ++ nodes) st)
    (h : (evaluator n).bindArgsFrom signature line position before cx st = some ((), st')) :
    ∀ p ∈ nodes, ∀ {id}, cx.arena.Reach p id → st'.table.assertions.get? id = none := by
  intro p hp id hid
  obtain ⟨hrecords, -⟩ := confined_run hpending.placed
    (((Comparison.confined cx _ st).evaluator n).stepwise.bindArgsFrom signature line position
      (fun c hc => ⟨c, hc, .refl c⟩) _) h
  rw [hrecords fun hsome q hq hreach => ?_]
  · exact hpending.silent p (mem_append_right _ hp) hid
  · exact (pairwise_append.1 hpending.disjoint).2.2 q hq p hp id hsome hreach hid

/-- The arguments of a call are bound to a declaration.  Behind its own argument, a variable that is
passed to a parameter by reference is bound, unknown and written, whatever the arguments before do.
It is still so behind all arguments, unless one that follows writes to it or tests it: nothing was
recorded of the nodes in the arguments, no node stands in two of them, and those that follow are plain
for the variable. -/
theorem overwritten_behind_arguments (cx : Context) (call : NodeId) (args : List Arg) (f : Signature)
    (st : State) (hst : st.Placed) :
    ((∀ arg ∈ args, cx.arena.EndsWithin (cx.arena.size + 1) arg.value) →
      ∀ n, 2 * (cx.arena.size + 1) ≤ n →
        ∃ st', (evaluator n).bindArgs call args (some f) cx st = some ((), st')) ∧
    ∀ n before arg after name st', args = before ++ arg :: after → arg.unpack = false →
      cx.arena.varName? arg.value = some name →
      (f.paramFor? before.length arg).any (·.byRef) = true →
      (evaluator n).bindArgs call args (some f) cx st = some ((), st') →
      (∃ st₁ st₂,
        (evaluator n).bindArgsFrom (some f) (cx.arena.line call) 0 before cx st = some ((), st₁) ∧
        st₂.Overwritten name ∧
        (evaluator n).bindArgsFrom (some f) (cx.arena.line call) (before.length + 1) after cx st₂ =
          some ((), st')) ∧
      (Pending cx.arena (args.map Arg.value) st →
        (∀ later ∈ after, cx.arena.PlainFor (.unknown name) later.value) → st'.Overwritten name) := by
  constructor
  · intro hends n hn
    have hwalks := (walker_evaluator cx (Nat.le_refl _) hn).stepwise.bindArgs call (some f)
      (forall_mem_map.2 hends)
    obtain ⟨⟨⟩, st', h, -⟩ := @hwalks st
    exact ⟨st', h⟩
  · rintro n before arg after name st' rfl hunpack hvalue hparam h
    obtain ⟨st₁, st₂, hbefore, hst₂, hwritten, htable, -, hafter⟩ :=
      bindArgs_byRef hst (evaluator_keeps_any n) hunpack hvalue hparam h
    refine ⟨⟨st₁, st₂, hbefore, hwritten, hafter⟩, fun hpending hplain => ?_⟩
    rw [map_append, map_cons] at hpending
    have hsilent := pending_after_arguments hpending hbefore
    refine overwritten_of_later ⟨hst₂, fun p hp id hid => ?_, ?_⟩ hplain hwritten hafter
    · rw [htable]
      exact hsilent p (.tail _ hp) hid
    · exact (pairwise_cons.1 (pairwise_append.1 hpending.disjoint).2.1).2

/-- `void f(&$a, $b)`. -/
def writingFirst : Signature :=
  { name := "f", params := [{ name := "a", byRef := true }, { name := "b" }], returnType := some .void }

/-- `$x = 'a';`, where the statement is node 3, and apart from it, as nodes 4, 6 and 9, the expressions
`$x`, `g($x)` and `$x = 1`. -/
def passedExpressions : Arena := Build.result do
  let value ← Build.expr (.string "a")
  let _ ← Build.assignStmt "x" value
  let _ ← Build.expr (.var "x")
  let read ← Build.expr (.var "x")
  let _ ← Build.expr (.callNamed "g" [read])
  let written ← Build.expr (.var "x")
  let one ← Build.expr (.int 1)
  let _ ← Build.expr (.assign written one)
  return (← get).arena

theorem overwritten_behind_arguments_reading : ∃ st st',
    (st.stack.current.typeOf? st.store "x").isSome = true ∧
      (evaluator 22).bindArgs 0 [{ value := 4 }, { value := 6 }] (some writingFirst)
        ⟨passedExpressions, {}, {}⟩ st = some ((), st') ∧
      st'.Overwritten "x" := by
  have hrun : ((evaluator 9).checkAll [3] ⟨passedExpressions, {}, {}⟩ (initial {})).any (fun r =>
      (r.2.stack.current.typeOf? r.2.store "x").isSome &&
        ([4] ++ [5, 6] : List NodeId).all fun c => (r.2.table.assertions.get? c).isNone) = true := by
    decide +kernel
  have hquiet : ([5, 6].all fun c => (passedExpressions.expr? c).all fun e =>
      e.target?.isNone && e.conditions.isEmpty && !e.isFunction) = true := by decide +kernel
  have hfirst : passedExpressions.IsTree 4 ∧ passedExpressions.closedUnder [4] = true := by
    decide +kernel
  have hsecond : passedExpressions.IsTree 6 ∧ passedExpressions.closedUnder [5, 6] = true := by
    decide +kernel
  have hsize : 2 * (passedExpressions.size + 1) ≤ 22 := by decide +kernel
  have hname : passedExpressions.varName? 4 = some "x" := by decide +kernel
  -- The arena need not be looked into any further.
  generalize passedExpressions = arena at *
  have h₄ {id : NodeId} (h : arena.Reach 4 id) : id ∈ [4] := h.mem_of_closed _ hfirst.2 (by simp)
  have h₆ {id : NodeId} (h : arena.Reach 6 id) : id ∈ [5, 6] := h.mem_of_closed _ hsecond.2 (by simp)
  have hplain : arena.PlainFor (.unknown "x") 6 := by
    have hnone {c : NodeId} {e : Expr} (hc : arena.Outer 6 c) (he : arena.expr? c = some e) :
        e.target? = none ∧ e.conditions = [] ∧ e.isFunction = false := by
      have h := all_eq_true.1 hquiet c (h₆ hc.reach)
      simpa [he, and_assoc] using h
    refine ⟨hsecond.1.onePath, fun hc he => ?_, fun hc he ht => ?_, fun hc he t ht => ?_⟩
    · cases (hnone hc he).2.2
    · cases (hnone hc he).1.symm.trans ht
    · rw [(hnone hc he).2.1] at ht
      cases ht
  obtain ⟨⟨flow, st⟩, hstart, hrun⟩ := (Option.any_eq_true ..).1 hrun
  rw [Bool.and_eq_true] at hrun
  obtain ⟨htyped, hsilent⟩ := hrun
  have hev : (evaluator 9).Keeps (fun _ => True) ⟨arena, {}, {}⟩ := evaluator_keeps_any 9
  have hst : st.Placed := ((keeps_checkAll hev _).step
    (wf_initial closed_true {}) hstart).1.wf
  have hpending : Pending arena [4, 6] st := by
    refine ⟨hst, ?_, pairwise_pair.2 fun id _ h h' => ?_⟩
    · have hnone {id : NodeId} (h : id ∈ [4] ++ [5, 6]) : st.table.assertions.get? id = none :=
        Option.isNone_iff_eq_none.1 (all_eq_true.1 hsilent id h)
      simp only [forall_mem_cons]
      exact ⟨fun h => hnone (mem_append_left _ (h₄ h)),
        fun h => hnone (mem_append_right _ (h₆ h)), fun _ h => nomatch h⟩
    · have h := h₄ h
      have h' := h₆ h'
      simp_all
  obtain ⟨hends, hrest⟩ := overwritten_behind_arguments ⟨arena, {}, {}⟩ 0
    [{ value := 4 }, { value := 6 }] writingFirst st hst
  obtain ⟨st', hargs⟩ := hends (by simp [hfirst.1.onePath.endsWithin, hsecond.1.onePath.endsWithin]) 22 hsize
  exact ⟨st, st', htyped, hargs, (hrest 22 [] _ _ "x" st' rfl rfl hname rfl hargs).2 hpending
    (forall_mem_singleton.2 hplain)⟩

/-- `f($x, $x = 1)`: an argument that follows gives the variable a type. -/
theorem known_behind_assignment :
    (((evaluator 9).checkAll [3] ⟨passedExpressions, {}, {}⟩ (initial {})).any fun r =>
      ((evaluator 9).bindArgs 0 [{ value := 4 }, { value := 9 }] (some writingFirst)
        ⟨passedExpressions, {}, {}⟩ r.2).any fun r' =>
          renderOption (r'.2.stack.current.typeOf? r'.2.store "x") == "int") = true := by
  decide +kernel

end FlowTyping

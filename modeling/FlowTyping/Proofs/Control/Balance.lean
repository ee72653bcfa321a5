import FlowTyping.Check.Report
import FlowTyping.Proofs.Control.Verdict

/-!
# Entering and leaving

The traversal enters scopes, classes, nodes and loops, and has to leave each of them again on every
way through its rules (`Balanced`).

`break` and `continue` belong to the innermost loop or switch of the function that they stand in.
The body of a declared function or method is checked without the loops around the function, so its
jumps reach none of them.  The body of an anonymous function is checked with those loops: a jump in
it that no loop of the body encloses is recorded in a loop around the function.
-/

namespace FlowTyping

open Arena Option Stack State

/-! ## What is around the code -/

namespace Stack

variable (st : Stack) (s : Scope)

@[simp]
lemma popClass_setCurrent_pushClass (c : ClassContext) :
    ((st.pushClass c).setCurrent s).popClass = st.setCurrent s := by
  obtain ⟨_, nested, _⟩ := st
  cases nested <;> rfl

@[simp]
lemma length_nested_setCurrent : (st.setCurrent s).nested.length = st.nested.length := by
  cases h : st.nested <;> simp [setCurrent, h]

lemma root_setCurrent (h : st.nested ≠ []) : (st.setCurrent s).root = st.root := by
  cases hn : st.nested with
  | nil => exact absurd hn h
  | cons inner outer => simp [setCurrent, hn]

lemma tail_nested_setCurrent : (st.setCurrent s).nested.tail = st.nested.tail := by
  cases h : st.nested <;> simp [setCurrent, h]

end Stack

lemma State.popped_of_pop? {st : State} {s : Scope} {stack : Stack}
    (h : st.stack.pop? = some (s, stack)) : st.popped = { st with stack } := by
  unfold popped
  rw [h]

/-- The scopes around the current one, the classes and nodes around the code and the nesting of
expressions are as before. -/
def stackKept : Discipline where
  rel st st' := (∃ s, st'.stack = st.stack.setCurrent s) ∧ st'.depth = st.depth
  refl st := ⟨⟨st.stack.current, by simp⟩, rfl⟩
  trans := by
    rintro st st' st'' ⟨⟨s, h⟩, hd⟩ ⟨⟨s', h'⟩, hd'⟩
    exact ⟨⟨s', by rw [h', h, setCurrent_setCurrent]⟩, hd'.trans hd⟩
  store st _ := ⟨⟨st.stack.current, by simp⟩, rfl⟩
  current st s := ⟨⟨s, rfl⟩, rfl⟩
  table st _ := ⟨⟨st.stack.current, by simp⟩, rfl⟩
  event st _ := ⟨⟨st.stack.current, by simp⟩, rfl⟩
  recordBreak st _ _ _ _ := ⟨⟨st.stack.current, by simp⟩, rfl⟩
  loop h := h
  expression := by
    rintro st st' id ⟨⟨s, h⟩, hd⟩
    refine ⟨⟨s, ?_⟩, ?_⟩
    · show st'.stack.popNode = st.stack.setCurrent s
      rw [h]
      exact st.stack.popNode_setCurrent_pushNode s id
    · show st'.depth - 1 = st.depth
      rw [hd]
      exact Nat.add_sub_cancel ..
  statement := by
    rintro st st' id ⟨⟨s, h⟩, hd⟩
    refine ⟨⟨s, ?_⟩, hd⟩
    rw [h]
    exact st.stack.popNode_setCurrent_pushNode s id
  cls := by
    rintro st st' c ⟨⟨s, h⟩, hd⟩
    exact ⟨⟨s, by simp [h]⟩, hd⟩
  closure := by
    rintro st st' s0 ⟨⟨s, h⟩, hd⟩
    have hpop : st'.stack.pop? = some (s, st.stack) := by rw [h]; rfl
    rw [popped_of_pop? hpop]
    exact ⟨⟨st.stack.current, by simp⟩, hd⟩
  function := by
    rintro st st' s0 ⟨⟨s, h⟩, hd⟩
    have hpop : st'.stack.pop? = some (s, st.stack) := by rw [h]; rfl
    rw [popped_of_pop? hpop]
    exact ⟨⟨st.stack.current, by simp⟩, hd⟩

/-! ## Balance -/

/-- Everything that was entered between the two states was left again, and nothing else. -/
structure Balanced (st st' : State) : Prop where
  nested : st'.stack.nested.length = st.stack.nested.length
  /-- The scopes around the current one are as they were. -/
  around : st'.stack.nested.tail = st.stack.nested.tail
  /-- Inside a function the file scope stays at the bottom, as it was. -/
  file : st.stack.nested ≠ [] → st'.stack.root = st.stack.root
  classes : st'.stack.classes = st.stack.classes
  ancestors : st'.stack.ancestors = st.stack.ancestors
  depth : st'.depth = st.depth
  frames : st'.breaks.length = st.breaks.length
  outer : st'.breaks.tail = st.breaks.tail
  /-- The innermost frame has scopes added at its end at most. -/
  innermost : st.breaks.headD [] <+: st'.breaks.headD []

lemma balanced_of_rel {st st' : State} (hkept : stackKept.rel st st')
    (hgrow : breaksGrow.rel st st') : Balanced st st' := by
  obtain ⟨⟨s, hstack⟩, hdepth⟩ := hkept
  have hframes : st'.breaks.length = st.breaks.length ∧ st'.breaks.tail = st.breaks.tail ∧
      st.breaks.headD [] <+: st'.breaks.headD [] := by
    have hgrow : Grown 0 st.breaks st'.breaks := hgrow
    cases hb : st.breaks with
    | nil =>
      rw [hb] at hgrow
      rw [show st'.breaks = [] from hgrow]
      exact ⟨rfl, rfl, List.prefix_rfl⟩
    | cons frame outer =>
      rw [hb] at hgrow
      obtain ⟨new, hnew, -⟩ := hgrow
      rw [hnew]
      exact ⟨rfl, rfl, List.prefix_append ..⟩
  obtain ⟨hlength, houter, hinner⟩ := hframes
  exact {
    nested := by rw [hstack, length_nested_setCurrent]
    around := by rw [hstack, tail_nested_setCurrent]
    file := fun h => by rw [hstack, root_setCurrent _ _ h]
    classes := by rw [hstack, classes_setCurrent]
    ancestors := by rw [hstack, ancestors_setCurrent]
    depth := hdepth
    frames := hlength
    outer := houter
    innermost := hinner }

lemma pop?_of_calling {st st' : State} {s : Scope} (h : stackKept.rel (st.calling s) st') :
    st'.stack.pop? = some (st'.stack.current, st.stack) := by
  obtain ⟨⟨t, ht⟩, -⟩ := h
  rw [ht]
  rfl

/-- The traversal is balanced in every state, whatever the arena holds at a node.  The body of a
function, run in a scope of its own, ends with that scope on top of the stack it was entered on, so
that leaving the function never takes the file scope away. -/
theorem traversal_balanced (cx : Context) (budget : Nat) (st st' : State) (id : NodeId) :
    (∀ type, (evaluator budget).infer id cx st = some (type, st') → Balanced st st') ∧
    (∀ flow, (evaluator budget).check id cx st = some (flow, st') → Balanced st st') ∧
    (∀ s body flow, (evaluator budget).checkAll body cx (st.calling s) = some (flow, st') →
      st'.stack.pop? = some (st'.stack.current, st.stack)) ∧
    (∀ s type, (evaluator budget).infer id cx (st.calling s) = some (type, st') →
      st'.stack.pop? = some (st'.stack.current, st.stack)) := by
  have hkept := stackKept.evaluator cx budget
  have hgrow := breaksGrow.evaluator cx budget
  refine ⟨fun type h => ?_, fun flow h => ?_, fun s body flow h => ?_, fun s type h => ?_⟩
  · exact balanced_of_rel (hkept.infer trivial h) (hgrow.infer trivial h)
  · exact balanced_of_rel (hkept.check trivial h) (hgrow.check trivial h)
  · exact pop?_of_calling (hkept.checkAll (fun _ _ => trivial) h)
  · exact pop?_of_calling (hkept.infer trivial h)

/-- A closure with a loop and an early return, and a jump behind it, in a loop: a missing node is
passed on the way. -/
def closureInLoop : SourceUnit :=
  Build.result do
    let inner ← Build.expr (.callNamed "c" [])
    let leave ← Build.stmt .breakStmt
    let loop ← Build.stmt (.whileStmt inner [leave])
    let back ← Build.stmt (.returnStmt (some 4000))
    let fn ← Build.expr (.closure { params := [], uses := [], body := [loop, back, 5000] })
    let make ← Build.assignStmt "f" fn
    let stop ← Build.stmt .breakStmt
    let condition ← Build.expr (.callNamed "c" [])
    let around ← Build.stmt (.whileStmt condition [make, stop])
    Build.finish "unit" [around]

theorem traversal_balanced_closureInLoop :
    ∃ flow st', (evaluator 9).check 10 ⟨closureInLoop.arena, {}, {}⟩ (initial {}) =
        some (flow, st') ∧ Balanced (initial {}) st' := by
  have hrun : ((evaluator 9).check 10 ⟨closureInLoop.arena, {}, {}⟩
      (initial {})).isSome = true := by decide +kernel
  obtain ⟨⟨flow, st'⟩, hrun⟩ := isSome_iff_exists.1 hrun
  exact ⟨flow, st', hrun, (traversal_balanced _ 9 _ _ 10).2.1 flow hrun⟩

variable {arena : Arena} {id : NodeId} {e : Expr} {stmt : Stmt}

open Analysis

/-! ## Where no jump can be reached -/

/-- Frames of loops stay as they are. -/
def breaksKept : Custom where
  rel st st' := st'.breaks = st.breaks
  refl _ := rfl
  trans h h' := h'.trans h
  store _ _ := rfl
  current _ _ := rfl
  table _ _ := rfl
  event _ _ := rfl
  expression _ h := h
  statement _ h := h
  cls _ h := h
  closure {st st'} s h := by
    have hpopped : st'.popped.breaks = st'.breaks := by
      unfold popped
      split <;> rfl
    exact hpopped.trans h

lemma breaksKept_encloses : breaksKept.Encloses breaksGrow.toCustom where
  loop {st st'} h := by
    obtain ⟨new, hnew, -⟩ := h
    show st'.breaks.tail = st.breaks
    rw [hnew]
    rfl
  function _ _ := rfl

lemma Jumps.not_part (hid : ¬ Jumps arena id) (he : arena.expr? id = some e) :
    ∀ c ∈ e.children, ¬ Jumps arena c :=
  fun _ hc h => hid (.inExpr he hc h)

lemma breaksKept_evaluator (cx : Context) (budget : Nat) :
    breaksKept.Governs cx (fun id => ¬ Jumps cx.arena id) (evaluator budget) := by
  induction budget with
  | zero => exact Custom.governs_zero fun _ hid _ he => Jumps.not_part hid he
  | succ n ih =>
    exact ih.step (breaksGrow.evaluator cx n) breaksKept_encloses
      (fun _ hid _ he => Jumps.not_part hid he) (fun _ hid _ hs _ hc h => hid (.inStmt hs hc h))
      fun _ hid _ hs hjump => absurd (.jump hs hjump) hid

/-! ## Functions -/

lemma not_jumps_of_stmt (hs : arena.stmt? id = some stmt) (hjump : stmt.isJump = false)
    (hparts : stmt.children = []) : ¬ Jumps arena id := by
  rintro (⟨h, hjumps⟩ | ⟨h, hchild, -⟩ | ⟨h, -, -⟩)
  · rw [hs, some.injEq] at h
    subst h
    rw [hjump] at hjumps
    cases hjumps
  · rw [hs, some.injEq] at h
    subst h
    rw [hparts] at hchild
    cases hchild
  · rw [expr?_of_stmt? hs] at h
    cases h

lemma not_jumps_of_expr (he : arena.expr? id = some e)
    (hparts : ∀ c ∈ e.children, ¬ Jumps arena c) : ¬ Jumps arena id := by
  rintro (⟨h, -⟩ | ⟨h, -, -⟩ | ⟨h, hchild, hjumps⟩)
  · rw [stmt?_of_expr? he] at h
    cases h
  · rw [stmt?_of_expr? he] at h
    cases h
  · rw [he, some.injEq] at h
    subst h
    exact hparts _ hchild hjumps

lemma breaks_of_grown_nil {st st' : State} (h : breaksGrow.rel st st') (hst : st.breaks = []) :
    st'.breaks = st.breaks := by
  have h : Grown 0 st.breaks st'.breaks := h
  rw [hst] at h ⊢
  exact h

/-- The frames of the loops around a function, in every state.  A declared function or method leaves
all of them as they were.  So does an anonymous function, unless there is a loop around it and a jump
in its body that no loop of the body encloses; then scopes may be added to the innermost frame. -/
theorem frames_around_functions (cx : Context) (budget : Nat) (st st' : State) (id : NodeId) :
    (∀ fn flow, cx.arena.stmt? id = some (.function fn) →
      (evaluator budget).check id cx st = some (flow, st') → st'.breaks = st.breaks) ∧
    (∀ fn flow, cx.arena.stmt? id = some (.method fn) →
      (evaluator budget).check id cx st = some (flow, st') → st'.breaks = st.breaks) ∧
    (∀ fn type, cx.arena.expr? id = some (.closure fn) →
      (evaluator budget).infer id cx st = some (type, st') →
        Grown 0 st.breaks st'.breaks ∧
          (st.breaks = [] ∨ (∀ c ∈ fn.body, ¬ Jumps cx.arena c) → st'.breaks = st.breaks)) ∧
    (∀ fn type, cx.arena.expr? id = some (.arrow fn) →
      (evaluator budget).infer id cx st = some (type, st') →
        Grown 0 st.breaks st'.breaks ∧
          (st.breaks = [] ∨ ¬ Jumps cx.arena fn.body → st'.breaks = st.breaks)) := by
  have hkept := breaksKept_evaluator cx budget
  have hgrow := breaksGrow.evaluator cx budget
  refine ⟨fun fn flow hs h => ?_, fun fn flow hs h => ?_, fun fn type he h => ?_,
    fun fn type he h => ?_⟩
  · exact hkept.check (not_jumps_of_stmt hs rfl rfl) h
  · exact hkept.check (not_jumps_of_stmt hs rfl rfl) h
  · refine ⟨hgrow.infer trivial h, fun hbody => ?_⟩
    rcases hbody with hnone | hbody
    · exact breaks_of_grown_nil (hgrow.infer trivial h) hnone
    · exact hkept.infer (not_jumps_of_expr he hbody) h
  · refine ⟨hgrow.infer trivial h, fun hbody => ?_⟩
    rcases hbody with hnone | hbody
    · exact breaks_of_grown_nil (hgrow.infer trivial h) hnone
    · exact hkept.infer (not_jumps_of_expr he (List.forall_mem_singleton.2 hbody)) h

/-- A loop with a closure in it, whose body assigns a variable and jumps: in a loop of its own, or
without one.  Behind the loop the variable is read. -/
def closureJump (ownLoop : Bool) : SourceUnit :=
  Build.result do
    let one ← Build.expr (.int 1)
    let inner ← Build.assignStmt "inner" one
    let leave ← Build.stmt .breakStmt
    let test ← Build.expr (.callNamed "c" [])
    let loop ← Build.stmt (.whileStmt test [leave])
    let jump := if ownLoop then loop else leave
    let fn ← Build.expr (.closure { params := [], uses := [], body := [inner, jump] })
    let make ← Build.assignStmt "f" fn
    let condition ← Build.expr (.callNamed "c" [])
    let around ← Build.stmt (.whileStmt condition [make])
    let read ← Build.expr (.var "inner")
    let last ← Build.stmt (.exprStmt read none)
    Build.finish "unit" [around, last]

theorem frames_around_functions_closureJump :
    (closureJump true).arena.expr? 7 =
      some (.closure { params := [], uses := [], body := [3, 6] }) ∧
    ∃ type st', (evaluator 9).infer 7 ⟨(closureJump true).arena, {}, {}⟩
        (initial {}).enterLoop = some (type, st') ∧ st'.breaks = [[]] := by
  have hrun : ((evaluator 9).infer 7 ⟨(closureJump true).arena, {}, {}⟩
      (initial {}).enterLoop).isSome = true := by decide +kernel
  obtain ⟨⟨type, st'⟩, hrun⟩ := isSome_iff_exists.1 hrun
  have hjumps : ∀ c ∈ ([3, 6] : List NodeId), ¬ Jumps (closureJump true).arena c := by
    rw [List.forall_mem_cons, List.forall_mem_singleton]
    exact ⟨not_jumps_of_reachesJump (n := 4) (by decide +kernel),
      not_jumps_of_reachesJump (n := 4) (by decide +kernel)⟩
  have hclosure := (frames_around_functions _ 9 _ _ 7).2.2.1 _ type rfl hrun
  exact ⟨rfl, type, st', hrun, hclosure.2 (.inr hjumps)⟩

/-- A jump in a closure is recorded in the frame of the loop around the closure.  The variable that
the closure assigned is therefore in scope behind that loop, and its read there is not reported. -/
theorem closure_jump_reaches_loop :
    (∃ type st', (evaluator 9).infer 7 ⟨(closureJump false).arena, {}, {}⟩
        (initial {}).enterLoop = some (type, st') ∧
      ∃ s, st'.breaks = [[s]] ∧ s.contains "inner" = true) ∧
    (((closureJump false).analyze {} {}).map fun st =>
      ((st.diagnostics (closureJump false) [.undefinedVariable]).map Diagnostic.text,
        Ty.renderOption (st.table.types.get? 13))) = some ([], "int") := by
  refine ⟨?_, by decide +kernel⟩
  have hrun : ((evaluator 9).infer 7 ⟨(closureJump false).arena, {}, {}⟩
      (initial {}).enterLoop).any
        (fun r => r.2.breaks.map (List.map fun s => s.contains "inner") == [[true]]) = true := by
    decide +kernel
  obtain ⟨⟨type, st'⟩, hrun, hframes⟩ := (any_eq_true ..).1 hrun
  refine ⟨type, st', hrun, ?_⟩
  rw [beq_iff_eq, List.map_eq_singleton_iff] at hframes
  obtain ⟨frame, hbreaks, hframe⟩ := hframes
  obtain ⟨s, rfl, hs⟩ := List.map_eq_singleton_iff.1 hframe
  exact ⟨s, hbreaks, hs⟩

end FlowTyping

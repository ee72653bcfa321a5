import FlowTyping.Ast.Builder
import FlowTyping.Proofs.Analysis.Declared
import FlowTyping.Proofs.Flow.Statements
import FlowTyping.Proofs.Symbol.Declarations
import FlowTyping.Proofs.Walk.Engine

/-!
# The types of function calls

The index of a program has a function from the table of built-in functions, or from a statement of one
of the files.  A call of a named function has the type that the function is declared with, as it is
written: unlike the types of parameters, members and constants, it is not read from the class around
the call.
-/

namespace FlowTyping

open Context Evaluator Index List Name Option Signature State

variable {f : Signature} {ds : List Declaration} {text name : String} {id : NodeId} {n : Nat}
  {index : Index}

/-! ## Statements -/

/-- The return type that the statement declares: its hint, or else what the comment says. -/
def FunctionStmt.declaredReturn? (fn : FunctionStmt) : Option Ty :=
  (fn.returnType.map Ty.ofHint).or (fn.docComment.bind Docblock.returnType?)

/-- The return type that a node declares for a function called `name`. -/
def NodeData.returnOf? (name : String) : NodeData → Option Ty
  | .stmt (.function fn) => if same fn.name name then fn.declaredReturn? else none
  | _ => none

/-- The return types that function statements declare for `name`. -/
def Arena.returnsOf (arena : Arena) (name : String) : List Ty :=
  arena.nodes.toList.filterMap fun node => node.data.returnOf? name

lemma Arena.mem_returnsOf {arena : Arena} {fn : FunctionStmt} {t : Ty}
    (hstmt : arena.stmt? id = some (.function fn)) (hname : key fn.name = key name)
    (ht : fn.declaredReturn? = some t) : t ∈ arena.returnsOf name := by
  obtain ⟨node, hnode, hdata⟩ := Arena.exists_of_stmt? hstmt
  refine mem_filterMap.2 ⟨node, hnode, ?_⟩
  rw [hdata, NodeData.returnOf?, same, hname, if_pos (beq_self_eq_true _), ht]

namespace DeclaredIn

variable {cx : DeclaredIn}

lemma exists_of_collect (h : cx.collectUpTo n id = some ds) :
    ∀ d ∈ ds, ∀ f, d = .function f → ∃ node fn, cx.arena.stmt? node = some (.function fn) ∧
      f = cx.signature fn.name fn.params fn.returnType fn.docComment node := by
  refine forall_of_collect ?_ ?_ ?_ h
  · intro node fn hstmt f hf
    exact ⟨node, fn, hstmt, (Declaration.function.inj hf).symm⟩
  · exact fun _ _ _ _ _ hf => nomatch hf
  · exact fun _ _ _ _ _ hf => nomatch hf

end DeclaredIn

/-! ## Built-in functions -/

namespace Builtin

/-- The type in front of the name does not depend on the class. -/
def ReturnsPlain (text : String) : Prop :=
  ((returnText? text.toList).bind Ty.parseChars?).any Ty.hasRelative = false

lemma returnsPlain_ofList {cs : List Char}
    (h : ((returnText? cs).bind Ty.parseChars?).any Ty.hasRelative = false) :
    ReturnsPlain (String.ofList cs) := by
  rw [ReturnsPlain, String.toList_ofList]
  exact h

set_option maxRecDepth 2000 in
lemma returnsPlain_functions : ∀ text ∈ functions, ReturnsPlain text := by
  unfold functions
  simp only [forall_mem_cons]
  repeat' apply And.intro
  all_goals first
    | exact returnsPlain_ofList (by decide +kernel)
    | simp

lemma hasRelative_of_parse (htext : text ∈ functions) (h : parse? text = some f) :
    Ty.KnownIn (fun t => t.hasRelative = false) f.returnType := by
  intro t ht
  have hplain := returnsPlain_functions text htext
  rwa [ReturnsPlain, ← (returnType_params_of_parse h).1, ht] at hplain

end Builtin

/-! ## Programs -/

namespace Index

variable {d : Declaration}

/-- The function called `name` returns a type in `Q`, if it has a type. -/
def Returns (index : Index) (name : String) (Q : Ty → Prop) : Prop :=
  ∀ f, index.function? name = some f → Ty.KnownIn Q f.returnType

lemma function?_add (h : (index.add d).function? name = some f) :
    index.function? name = some f ∨ d = .function f ∧ key f.name = key name := by
  have hlookup : (index.add d).lookup (.function (key name)) = some (.function f) :=
    congrArg (Option.map Declaration.function) h
  rw [lookup_add] at hlookup
  split at hlookup
  · next hsymbol =>
    cases hlookup
    exact .inr ⟨rfl, Symbol.function.inj hsymbol⟩
  · obtain ⟨g, hg, heq⟩ := map_eq_some_iff.1 hlookup
    exact .inl (Declaration.function.inj heq ▸ hg)

namespace Returns

variable {index' : Index} {Q : Ty → Prop} (h : index.Returns name Q)

include h

lemma add
    (hd : ∀ f, d = .function f → key f.name = key name → Ty.KnownIn Q f.returnType) :
    (index.add d).Returns name Q := by
  intro f hf
  rcases function?_add hf with hf | ⟨hfunction, hname⟩
  · exact h f hf
  · exact hd f hfunction hname

lemma addAll
    (hds : ∀ f, .function f ∈ ds → key f.name = key name → Ty.KnownIn Q f.returnType) :
    (index.addAll ds).Returns name Q := by
  refine foldlRecOn (motive := fun index : Index => index.Returns name Q) ds Index.add h
    fun index h d hd => h.add fun f hf => ?_
  exact hds f (hf ▸ hd)

lemma addUnit {unit : SourceUnit} (hunit : ∀ t ∈ unit.arena.returnsOf name, Q t)
    (hadd : index.addUnit unit = some index') : index'.Returns name Q := by
  obtain ⟨ds, hds, rfl⟩ := map_eq_some_iff.1 hadd
  refine h.addAll fun f hf hname t ht => ?_
  obtain ⟨node, fn, hstmt, rfl⟩ := DeclaredIn.exists_of_collect hds _ hf f rfl
  exact hunit t (Arena.mem_returnsOf hstmt hname ht)

lemma addUnits {units : List SourceUnit}
    (hunits : ∀ unit ∈ units, ∀ t ∈ unit.arena.returnsOf name, Q t)
    (hadd : index.addUnits units = some index') : index'.Returns name Q :=
  of_foldlM (Q := fun index : Index => index.Returns name Q) hadd h
    fun _ unit _ hunit hadd h => h.addUnit (hunits unit hunit) hadd

end Returns

lemma returns_builtin (name : String) :
    builtin.Returns name fun t => t.hasRelative = false := by
  refine of_builtin (Q := fun index => index.Returns name _) (fun _ hf => nomatch hf) ?_ ?_ ?_
  · exact fun _ _ _ h => h
  · exact fun _ f _ htext hparse h => h.add (d := .function f) fun _ hg _ =>
      Declaration.function.inj hg ▸ Builtin.hasRelative_of_parse htext hparse
  · exact fun _ _ _ h => h

end Index

open Analysis

/-- The type of a call of a named function.  No class plays a part in it. -/
def Context.callType? (cx : Context) (name : String) (argCount : Nat) : Option Ty :=
  match CallEffect.ofCall name argCount with
  | .namesVariables => some .array
  | .plain | .dynamic => (cx.index.function? name).bind returnType

section Calls

variable {cx : Context} {ev : Evaluator} {assignment target value : NodeId} {x : String}
  {args : List Arg} {st st' : State} {type : Option Ty}

lemma inferNamedCall_type (h : ev.inferNamedCall id name args cx st = some (type, st')) :
    type = (cx.index.function? name).bind returnType := by
  replace h := bind_rest h rfl
  obtain ⟨_, st1, -, h⟩ := of_bind h
  split at h
  · obtain ⟨_, st2, -, h⟩ := of_bind h
    exact (of_pure h).1
  · exact (of_pure h).1

lemma inferCall_type (h : ev.inferCall id (.named name) args cx st = some (type, st')) :
    type = cx.callType? name args.length := by
  unfold inferCall at h
  unfold callType?
  cases heffect : CallEffect.ofCall name args.length <;> simp only [heffect] at h ⊢
  case plain => exact inferNamedCall_type h
  case namesVariables =>
    obtain ⟨_, st1, -, h⟩ := of_bind h
    obtain ⟨_, st2, -, h⟩ := of_bind h
    exact (of_pure h).1
  case dynamic =>
    obtain ⟨_, st1, -, h⟩ := of_bind h
    exact inferNamedCall_type h

lemma infer_call_cases (he : cx.arena.expr? id = some (.call (.named name) args))
    (h : (evaluator n).infer id cx st = some (type, st')) :
    type = none ∧ cx.options.maxDepth.toNat ≤ st.depth ∨
      type = cx.callType? name args.length ∧
        ∀ t, type = some t → st'.table.types.get? id = some t := by
  rcases Nat.lt_or_ge st.depth cx.options.maxDepth.toNat with hdepth | hdepth
  · obtain ⟨m, st1, -, hexpr, rfl⟩ := infer_inside he hdepth h
    have hcall : (evaluator m).inferCall id (.named name) args cx (st.enterNode id) =
        some (type, st1) := hexpr
    refine .inr ⟨inferCall_type hcall, ?_⟩
    rintro t rfl
    show (st1.table.types.insert id t).get? id = some t
    rw [IdMap.get?_insert, if_pos rfl]
  · cases n with
    | zero => cases h
    | succ m =>
      rw [show (evaluator (m + 1)).infer id cx st = _ from
        inferNode_of_depth_le (.inr hdepth)] at h
      cases h
      exact .inl ⟨rfl, hdepth⟩

lemma infer_assign_call (he : cx.arena.expr? assignment = some (.assign target value))
    (htarget : cx.IsVar target x) (hx : x ≠ "this")
    (hvalue : cx.arena.expr? value = some (.call (.named name) args)) (hst : st.Placed)
    (hdepth : st.depth < cx.options.maxDepth.toNat)
    (h : (evaluator n).infer assignment cx st = some (type, st')) :
    (type = none ∨ type = cx.callType? name args.length) ∧ st'.known x = some type := by
  obtain ⟨m, st1, rfl, hassign, rfl⟩ := infer_inside he hdepth h
  obtain ⟨st2, line, st3, hinfer, hstore, hlast⟩ := inferAssign_cases htarget hassign
  have hentered : (st.enterNode assignment).Placed := hst.enter assignment
  have hst2 : st2.Placed := (((evaluator_keeps_any m).infer value).step hentered hinfer).1.wf
  obtain ⟨hst3, -, hknown⟩ := assign_known htarget hx hst2 hstore
  refine ⟨(infer_call_cases hvalue hinfer).imp And.left And.left, ?_⟩
  rw [known_leaveNode]
  rcases hlast with rfl | hattach
  · rw [hknown, Typing.set, if_pos rfl]
  · have hadds := (attachNarrowing_spec Ty.closed_true.toStable hst3 (fun _ _ _ => trivial) hattach).1
    rw [hadds.known hst3, hknown, Typing.set, if_pos rfl]

end Calls

/-! ## Relative names -/

/-- A call of a named function has the declared type, whatever class is around it.  So no relative name
comes from a call of a function that is nowhere declared to return one, built-in functions among them:
not in the type of the call, not in the type that is recorded for its node, and not in the type of a
variable that it is assigned to. -/
theorem call_without_relative {units : List SourceUnit} {cx : Context} {name : String}
    (hindex : builtin.addUnits units = some cx.index)
    (hdeclared : ∀ unit ∈ units, ∀ t ∈ unit.arena.returnsOf name, t.hasRelative = false) :
    (∀ (ev : Evaluator) id args st type st',
      ev.inferCall id (.named name) args cx st = some (type, st') →
        type = cx.callType? name args.length ∧ Ty.KnownIn (fun t => t.hasRelative = false) type) ∧
    (∀ n id args st type st', cx.arena.expr? id = some (.call (.named name) args) →
      (evaluator n).infer id cx st = some (type, st') →
        Ty.KnownIn (fun t => t.hasRelative = false ∧ st'.table.types.get? id = some t) type) ∧
    ∀ n assignment target value x args st type st',
      cx.arena.expr? assignment = some (.assign target value) → cx.IsVar target x → x ≠ "this" →
      cx.arena.expr? value = some (.call (.named name) args) →
      st.Placed → st.depth < cx.options.maxDepth.toNat →
      (evaluator n).infer assignment cx st = some (type, st') →
        st'.known x = some type ∧ Ty.KnownIn (fun t => t.hasRelative = false) type := by
  have hcall : ∀ argCount, Ty.KnownIn (fun t => t.hasRelative = false) (cx.callType? name argCount) := by
    intro argCount
    unfold callType?
    split
    · exact .some rfl
    all_goals exact .bind ((returns_builtin name).addUnits hdeclared hindex)
  refine ⟨fun ev id args st type st' h => ?_, fun n id args st type st' he h => ?_,
    fun n assignment target value x args st type st' he htarget hx hvalue hst hdepth h => ?_⟩
  · exact ⟨inferCall_type h, inferCall_type h ▸ hcall _⟩
  · rcases infer_call_cases he h with ⟨rfl, -⟩ | ⟨htype, hrecorded⟩
    · exact .none
    · exact fun t ht => ⟨hcall _ t (htype ▸ ht), hrecorded t ht⟩
  · obtain ⟨htype, hknown⟩ := infer_assign_call he htarget hx hvalue hst hdepth h
    refine ⟨hknown, ?_⟩
    rcases htype with rfl | htype
    · exact .none
    · exact htype ▸ hcall _

/-! ## One call -/

/-- `function f(): …; $x = f();`, where the call is node 1 and the assignment node 3. -/
def calledOnce (returns : Hint) : SourceUnit :=
  Build.result do
    let f ← Build.stmt (.function { name := "f", params := [], returnType := some returns, body := [] })
    let call ← Build.expr (.callNamed "f" [])
    let assign ← Build.assignStmt "x" call
    Build.finish "unit" [f, assign]

lemma calledOnce_callType? (returns : Hint) :
    ∃ cx : Context, cx.arena = (calledOnce returns).arena ∧ cx.options = {} ∧
      builtin.addUnits [calledOnce returns] = some cx.index ∧
      cx.callType? "f" 0 = some (Ty.ofHint returns) := by
  obtain ⟨f, hdeclarations, hname, hreturn⟩ : ∃ f : Signature,
      (calledOnce returns).declarations = some [.function f] ∧ f.name = "f" ∧
        f.returnType = some (Ty.ofHint returns) := ⟨_, rfl, rfl, rfl⟩
  refine ⟨⟨_, builtin.addFunction f, _⟩, rfl, rfl, ?_, ?_⟩
  · rw [addUnits, foldlM_cons, addUnit, hdeclarations]
    rfl
  · have hfound : (builtin.addFunction f).function? "f" = some f := by
      rw [function?, addFunction, hname]
      exact Dict.get?_insert_self ..
    have heffect : CallEffect.ofCall "f" 0 = .plain := by decide
    show ((builtin.addFunction f).function? "f").bind returnType = _
    rw [hfound, Option.bind_some, hreturn]

lemma exists_infer_of_grounded (cx : Context) (h : cx.arena.Grounded) (id : NodeId) (st : State) :
    ∃ n type st', (evaluator n).infer id cx st = some (type, st') := by
  have hwalks := (walker_evaluator cx le_rfl le_rfl).infer (h.endsWithin id)
  obtain ⟨type, st', hinfer, -⟩ := @hwalks st
  exact ⟨_, type, st', hinfer⟩

/-- `$x = f()` for a function that returns `?Item`. -/
theorem call_without_relative_nullable :
    ∃ cx : Context, cx.arena = (calledOnce (.nullable (.named "Item"))).arena ∧
      builtin.addUnits [calledOnce (.nullable (.named "Item"))] = some cx.index ∧
      (∀ t ∈ cx.arena.returnsOf "f", t.hasRelative = false) ∧
      ∃ n type st', (evaluator n).infer 3 cx (initial {}) = some (type, st') ∧
        st'.known "x" = some type ∧ Ty.KnownIn (fun t => t.hasRelative = false) type := by
  obtain ⟨⟨_, index, _⟩, rfl, rfl, hindex, -⟩ := calledOnce_callType? (.nullable (.named "Item"))
  have hdeclared : ∀ t ∈ (calledOnce (.nullable (.named "Item"))).arena.returnsOf "f",
      t.hasRelative = false := by decide +kernel
  have hground : (calledOnce (.nullable (.named "Item"))).arena.Grounded := by decide +kernel
  have hdepth : (initial {}).depth < ({} : Options).maxDepth.toNat := by decide
  obtain ⟨n, type, st', hinfer⟩ :=
    exists_infer_of_grounded ⟨_, index, {}⟩ hground 3 (initial {})
  refine ⟨_, rfl, hindex, hdeclared, n, type, st', hinfer, ?_⟩
  exact (call_without_relative hindex (forall_mem_singleton.2 hdeclared)).2.2 n 3 2 1 "x" []
    (initial {}) type st' rfl rfl (by decide) rfl (wf_initial Ty.closed_true {}) hdepth
    hinfer

/-- A function that is declared to return `self`: so does the call, outside of all classes, and that is
recorded. -/
theorem self_leaked :
    ∃ cx : Context, cx.arena = (calledOnce (.named "self")).arena ∧
      builtin.addUnits [calledOnce (.named "self")] = some cx.index ∧
      ∃ n t st', (evaluator n).infer 1 cx (initial {}) = some (some t, st') ∧
        st'.table.types.get? 1 = some t ∧ t.hasRelative = true := by
  obtain ⟨⟨_, index, _⟩, rfl, rfl, hindex, hdeclared⟩ := calledOnce_callType? (.named "self")
  have hground : (calledOnce (.named "self")).arena.Grounded := by decide +kernel
  have hdepth : (initial {}).depth < ({} : Options).maxDepth.toNat := by decide
  obtain ⟨n, type, st', hinfer⟩ :=
    exists_infer_of_grounded ⟨_, index, {}⟩ hground 1 (initial {})
  rcases infer_call_cases rfl hinfer with ⟨-, hbeyond⟩ | ⟨htype, hrecorded⟩
  · exact absurd hdepth (Nat.not_lt.2 hbeyond)
  · obtain rfl : type = some (Ty.ofHint (.named "self")) := htype.trans hdeclared
    exact ⟨_, rfl, hindex, n, _, st', hinfer, hrecorded _ rfl, by decide +kernel⟩

end FlowTyping

import FlowTyping.Proofs.Analysis.Declared
import FlowTyping.Proofs.Analysis.Steps
import FlowTyping.Proofs.Ast.Children
import Mathlib.Data.List.Perm.Subperm

/-!
# Rules that run through their parts

The rule of most kinds of expressions evaluates the parts of its node one after the other, writes to
the current scope, and looks things up.  What holds of such sequences is proved here for any
judgement on steps.

**Looking.**  A judgement may be about several analyses at once (`Contexts`).  A step may then look at
what these have in common: at the code, at answers of their indexes (`TypeJudgement.Reads.asking`), and
at what is the same in states that agree (`Contexts.Agree`, `TypeJudgement.Reads.seeing`).
-/

namespace FlowTyping

open Analysis ArrayItem Context Evaluator List Option Scope Ty

variable {target object value id : NodeId} {args : List Arg} {cls : ClassRef} {name : MemberName}
  {st : State} {ref : Reference} {op : BinaryOp} {P : Ty → Prop} {X : Contexts}
  {nodes : List NodeId} {ev : Evaluator}

open Analysis

/-- Whether the expression is a function. -/
def Expr.isFunction : Expr → Bool
  | .closure _ | .arrow _ => true
  | _ => false

/-- Whether the rule evaluates all parts in the current scope, and passes no test on. -/
def Expr.keepsScope : Expr → Bool
  | .closure _ | .arrow _ | .ternary .. | .matchExpr .. | .unary .not _ | .cast .bool _
  | .suppress _ => false
  | .binary op _ _ => !op.isShortCircuit
  | _ => true

/-- Whether the expression is a place that is no variable. -/
def Expr.isPlace : Expr → Bool
  | .prop .. | .dim .. | .staticProp .. | .list .. => true
  | _ => false

/-- What the expression gives a type to. -/
def Expr.target? : Expr → Option NodeId
  | .assign target _ | .compoundAssign _ target _ | .incDec _ target => some target
  | _ => none

/-- A statement about steps that evaluate the given nodes. -/
abbrev Judgement :=
  ⦃α : Type⦄ → List NodeId → Analysis α → Prop

/-- What is known of a result where all types that the step comes across lie in a property: nothing,
if every type does. -/
structure Result (α : Type) where
  In : (Ty → Prop) → α → Prop
  in_true : ∀ a, In (fun _ => True) a

namespace Result

abbrev any {α : Type} : Result α :=
  ⟨fun _ _ => True, fun _ => trivial⟩

/-- A type, if it is known, lies in the property. -/
abbrev type : Result (Option Ty) :=
  ⟨KnownIn, fun _ _ _ => trivial⟩

/-- So does a class. -/
abbrev className : Result (Option String) :=
  ⟨fun P cls => ∀ name, cls = some name → P (.named name), fun _ _ _ => trivial⟩

end Result

/-- A statement about steps that evaluate the given nodes, and about their results. -/
abbrev TypeJudgement :=
  ⦃α : Type⦄ → List NodeId → Analysis α → Result α → Prop

/-- Nothing is said about results. -/
abbrev Judgement.typed (R : Judgement) : TypeJudgement :=
  fun _ nodes m _ => R nodes m

/-- The changes that expressions make to the current scope, with types of `P` for the variables
`assigned`. -/
inductive ScopeWrite (P : Ty → Prop) (assigned : String → Prop) :
    (Scope → Store → Scope × Store) → Prop
  | assign (name : String) {type : Option Ty} (h : KnownIn P type)
    (hname : type.isSome = true → assigned name) (line : Line) :
    ScopeWrite P assigned fun s σ => s.assign σ name type line
  | element (name : String) (line : Line) : ScopeWrite P assigned fun s σ =>
    if s.contains name then (s, s.markWritten σ name line) else s.assign σ name (some .array) line
  | chain (key : String) {type : Option Ty} (h : KnownIn P type) :
    ScopeWrite P assigned fun s σ => (s.setChain key type, σ)
  | used (name : String) : ScopeWrite P assigned fun s σ => (s, s.markUsed σ name)
  | shared (name : String) : ScopeWrite P assigned fun s σ => (s, s.markByReference σ name)
  | dynamic : ScopeWrite P assigned fun s σ => (s.markDynamic, σ)

lemma ScopeWrite.change (hP : Stable P) {assigned : String → Prop}
    {f : Scope → Store → Scope × Store} (hf : ScopeWrite P assigned f) {s : Scope} {σ : Store}
    (hs : s.Wf P σ) (hσ : σ.TypesIn P) : Scope.Change P σ.size s σ (f s σ).1 (f s σ).2 := by
  cases hf with
  | assign name h _ line => exact change_assign hs hσ le_rfl name h line
  | element name line =>
    dsimp only
    split
    · exact change_markWritten hs hσ name line
    · exact change_assign hs hσ le_rfl name (.some (hP.primitive .array)) line
  | chain key h => exact change_setChain hs hσ key h
  | used name => exact change_markUsed hs hσ name
  | shared name => exact change_markByReference hs hσ name
  | dynamic => exact change_markDynamic hs hσ

/-- The judgement holds of steps one after the other where it holds of each. -/
structure Judgement.Sequential (cx : Context) (R : Judgement) : Prop where
  mono : ∀ {α nodes nodes'} {m : Analysis α}, R nodes m → Subperm nodes nodes' → R nodes' m
  pure : ∀ {α} {a : α}, R [] (pure a : Analysis α)
  bind : ∀ {α β nodes nodes'} {m : Analysis α} {f : α → Analysis β},
    R nodes m → (∀ a, R nodes' (f a)) → R (nodes ++ nodes') (m >>= f)
  reads : ∀ {α nodes} {m : Analysis α} {f : State → Analysis α},
    (∀ st, m cx st = f st cx st) → (∀ st, R nodes (f st)) → R nodes m
  onScope : ∀ {f}, ScopeWrite (fun _ => True) (fun _ => True) f → R [] (onScope f)

/-! ## What expressions look at -/

/-- Whether a node looks at the truth value of the node `id` in it. -/
def Node.expectsBool (id : NodeId) : Node → Bool
  | ⟨_, .stmt (.ifStmt condition _ elseIfs _)⟩ =>
    condition == id || elseIfs.any fun branch => branch.condition == id
  | ⟨_, .stmt (.whileStmt condition _)⟩ => condition == id
  | ⟨_, .stmt (.doWhileStmt _ condition)⟩ => condition == id
  | ⟨_, .stmt (.forStmt _ condition _ _)⟩ => condition.contains id
  | ⟨_, .expr (.binary op _ _)⟩ => op.isShortCircuit || op == .logicalXor
  | ⟨_, .expr (.unary .not _)⟩ => true
  | ⟨_, .expr (.ternary condition _ _)⟩ => condition == id
  | ⟨_, .expr (.cast .bool _)⟩ => true
  | _ => false

/-- Whether the node `parent` of a file looks at the truth value of the node `id` in it. -/
def Arena.expectsBool (arena : Arena) (parent id : NodeId) : Bool :=
  (arena.get? parent).any (Node.expectsBool id)

lemma Analysis.parentExpectsBool_run (cx : Context) (st : State) (id : NodeId) :
    parentExpectsBool id cx st =
      some (st.stack.parent?.any fun parent => cx.arena.expectsBool parent id, st) := by
  unfold parentExpectsBool Arena.expectsBool
  have hread : (read : Analysis Context) cx st = some (cx, st) := rfl
  have hstack : getStack cx st = some (st.stack, st) := rfl
  rw [bind_run hread, bind_run hstack]
  cases st.stack.parent? with
  | none => rfl
  | some parent =>
    rw [bind_some, any_some]
    cases cx.arena.get? parent with
    | none => rfl
    | some node =>
      obtain ⟨line, data⟩ := node
      cases data with
      | stmt stmt => cases stmt <;> rfl
      | expr e =>
        cases e with
        | unary op operand => cases op <;> rfl
        | cast kind expr => cases kind <;> rfl
        | _ => rfl

/-- What an expression sees of the state lies in `P`. -/
structure State.Shows (P : Ty → Prop) (st : State) : Prop where
  store : st.store.TypesIn P
  chain : ∀ key, KnownIn P (st.stack.current.chain? key)
  types : ∀ id, KnownIn P (st.table.types.get? id)
  classes : ∀ c ∈ st.stack.classes, c.TypesIn P

lemma State.Shows.typeOf (h : st.Shows P) (name : String) :
    KnownIn P (st.stack.current.typeOf? st.store name) :=
  h.store.typeOf? st.stack.current name

lemma State.Fit.shows (h : st.Fit P) : st.Shows P where
  store := h.types
  chain _ _ ht := h.current.chains _ (Dict.mem_of_find ht)
  types _ _ ht := h.table.types _ (IdMap.mem_of_get? ht)
  classes := h.classes

lemma State.shows_true (st : State) : st.Shows fun _ => True :=
  ⟨fun _ _ _ => trivial, fun _ _ _ => trivial, fun _ _ _ => trivial,
    fun _ _ => ⟨trivial, fun _ _ => trivial⟩⟩

/-- Analyses of one file whose indexes and options give the same answers. -/
structure Contexts extends Context where
  among : Index → Options → Prop
  same : ∀ {index options}, among index options → index.Same toContext.index
  narrowLooseNull_eq : ∀ {index options}, among index options →
    options.narrowLooseNull = toContext.options.narrowLooseNull
  /-- The nodes of which something may be known. -/
  seen : NodeId → Prop
  /-- The variables that may be given a type. -/
  assigned : String → Prop := fun _ => True
  /-- The nodes that contain no other variables. -/
  free : NodeId → Prop := fun _ => True
  assigned_of_free : ∀ {id name}, free id → toContext.arena.expr? id = some (.var name) →
    assigned name := by intros; trivial

/-- A single analysis. -/
abbrev Contexts.of (cx : Context) : Contexts where
  toContext := cx
  among index options := index = cx.index ∧ options = cx.options
  same h := h.1 ▸ .refl _
  narrowLooseNull_eq h := h.2 ▸ rfl
  seen _ := True

namespace Contexts

variable (X : Contexts)

/-- What is written to is no variable, or one that may be given a type. -/
def Writes (target : NodeId) : Prop :=
  ∀ name, X.arena.expr? target = some (.var name) → X.assigned name

/-- The same of what is tested. -/
def Tests (ref : Reference) : Prop :=
  ∀ name, ref = .var name → X.assigned name

lemma tests_of_free (htarget : X.free target)
    (href : X.arena.reference? target = some ref) : X.Tests ref := by
  rintro name rfl
  refine X.assigned_of_free htarget ?_
  unfold Arena.reference? at href
  split at href
  · next he =>
    cases href
    exact he
  · obtain ⟨_, -, hkey⟩ := map_eq_some_iff.1 href
    cases hkey
  · cases href

/-- A part of the node `id` that the node may test. -/
structure Part (id part : NodeId) : Prop where
  seen : X.seen part
  free : X.free id → X.free part

/-- An expression sees the same of both states. -/
structure Agree (st st' : State) : Prop where
  typeOf : ∀ name, st.stack.current.typeOf? st.store name = st'.stack.current.typeOf? st'.store name
  chain : ∀ key, st.stack.current.chain? key = st'.stack.current.chain? key
  contains : ∀ name, st.stack.current.contains name = st'.stack.current.contains name
  types : ∀ {id}, X.seen id → st.table.types.get? id = st'.table.types.get? id
  tested : ∀ {id}, X.seen id →
    (st.table.assertions.get? id).isSome = (st'.table.assertions.get? id).isSome
  expectsBool : ∀ {id}, X.seen id → (st.stack.parent?.any fun p => X.arena.expectsBool p id) =
    st'.stack.parent?.any fun p => X.arena.expectsBool p id
  class? : st.stack.class? = st'.stack.class?

end Contexts

/-- The judgement holds of a step that looks at the state, where it holds of what the step then
does, and this is the same on states that agree. -/
def TypeJudgement.Reads (P : Ty → Prop) (X : Contexts) (R : TypeJudgement) : Prop :=
  ∀ ⦃α nodes⦄ {m : Analysis α} {f : State → Analysis α} {r : Result α},
    (∀ index options, X.among index options →
      ∀ st, m ⟨X.arena, index, options⟩ st = f st ⟨X.arena, index, options⟩ st) →
    (∀ {st st'}, X.Agree st st' → f st = f st') → (∀ st, st.Shows P → R nodes (f st) r) → R nodes m r

namespace TypeJudgement.Reads

variable {α β : Type} {R : TypeJudgement} {m : Analysis α} {q : Result β} (hR : R.Reads P X)

include hR

lemma looking {f : α → Analysis β} {a : α} (hm : ∀ st, m X.toContext st = some (a, st))
    (hf : R nodes (f a) q)
    (hX : ∀ index options st, m ⟨X.arena, index, options⟩ st = m X.toContext st := by
      intros; rfl) : R nodes (m >>= f) q :=
  hR (f := fun _ => f a) (fun _ _ _ st => bind_run ((hX _ _ st).trans (hm st))) (fun _ => rfl)
    fun _ _ => hf

lemma asking {f : Context → Analysis β} (hf : R nodes (f X.toContext) q)
    (hX : ∀ index options, X.among index options →
      f ⟨X.arena, index, options⟩ = f X.toContext := by intros; rfl) :
    R nodes (read >>= f) q :=
  hR (f := fun _ => f X.toContext) (fun i o h => congrFun (congrFun (hX i o h) ⟨X.arena, i, o⟩))
    (fun _ => rfl) fun _ _ => hf

lemma seeing {v : State → α} {f : α → Analysis β}
    (hm : ∀ index options st, m ⟨X.arena, index, options⟩ st = some (v st, st))
    (hv : ∀ {st st'}, X.Agree st st' → f (v st) = f (v st'))
    (hf : ∀ st, st.Shows P → R nodes (f (v st)) q) : R nodes (m >>= f) q :=
  hR (f := fun st => f (v st)) (fun _ _ _ st => bind_run (hm _ _ st)) hv hf

end TypeJudgement.Reads

/-- The judgement holds of steps one after the other where it holds of each, as long as all types lie
in `P`. -/
structure TypeJudgement.Sequential (P : Ty → Prop) (X : Contexts) (R : TypeJudgement) : Prop where
  stable : Stable P
  declares : X.DeclaresIn P
  mono : ∀ {α nodes nodes'} {m : Analysis α} {r : Result α}, R nodes m r →
    Subperm nodes nodes' → R nodes' m r
  pure : ∀ {α} {a : α} {r : Result α}, r.In P a → R [] (pure a) r
  bind : ∀ {α β nodes nodes'} {m : Analysis α} {f : α → Analysis β} {r : Result α} {q : Result β},
    R nodes m r → (∀ a, r.In P a → R nodes' (f a) q) → R (nodes ++ nodes') (m >>= f) q
  reads : R.Reads P X
  onScope : ∀ {f}, ScopeWrite P X.assigned f → R [] (onScope f) .any

namespace Judgement.Sequential

variable {α β : Type} {cx : Context} {R : Judgement} {m : Analysis α} {f : α → Analysis β}
  (hR : R.Sequential cx)

include hR

lemma reading {r : State → α} (h : ∀ st, m cx st = some (r st, st)) : R [] m :=
  hR.reads (f := fun st => Pure.pure (r st)) h fun _ => hR.pure

lemma looking {a : α} (h : ∀ st, m cx st = some (a, st)) (hf : R nodes (f a)) :
    R nodes (m >>= f) :=
  hR.reads (f := fun _ => f a) (fun st => bind_run (h st)) fun _ => hf

lemma andThen (hm : R nodes m) (hf : ∀ a, R [] (f a)) : R nodes (m >>= f) := by
  have h := hR.bind hm hf
  rwa [append_nil] at h

lemma first (hm : R [] m) (hf : ∀ a, R nodes (f a)) : R nodes (m >>= f) :=
  hR.bind hm hf

lemma result (hm : R nodes m) (g : α → β) : R nodes (m >>= fun a => Pure.pure (g a)) :=
  hR.andThen hm fun _ => hR.pure

lemma typed : R.typed.Sequential (fun _ => True) (.of cx) where
  stable := closed_true.toStable
  declares := declaresIn_true _
  mono := hR.mono
  pure _ := hR.pure
  bind hm hf := hR.bind hm fun a => hf a (Result.in_true _ a)
  reads _ _ _ _ _ hm _ hf := hR.reads (hm _ _ ⟨rfl, rfl⟩) fun st => hf st st.shows_true
  onScope := hR.onScope

end Judgement.Sequential

namespace TypeJudgement.Sequential

variable {α β : Type} {R : TypeJudgement} {m : Analysis α} {f : α → Analysis β} {r : Result α}
  {q : Result β} (hR : R.Sequential P X) {type : Option Ty}

include hR

lemma skip (hm : R [] m r) : R nodes m r :=
  hR.mono hm (nil_subperm ..)

lemma andThen (hm : R nodes m r) (hf : ∀ a, r.In P a → R [] (f a) q) : R nodes (m >>= f) q := by
  have h := hR.bind hm hf
  rwa [append_nil] at h

lemma result {g : α → β} (hm : R nodes m r) (hg : ∀ a, r.In P a → q.In P (g a)) :
    R nodes (m >>= fun a => Pure.pure (g a)) q :=
  hR.andThen hm fun a ha => hR.pure (hg a ha)

lemma assignVar {name : String} (hname : type.isSome = true → X.assigned name)
    (ht : KnownIn P type) (line : Line) : R [] (Analysis.assignVar name type line) .any := by
  unfold Analysis.assignVar
  split
  · exact hR.onScope (.assign name ht hname line)
  · exact hR.pure trivial

lemma assignChain (target : NodeId) (ht : KnownIn P type) :
    R [] (assignChain target type) .any := by
  refine hR.reads.asking ?_
  split
  · next key _ => exact hR.onScope (.chain key ht)
  · exact hR.pure trivial

lemma markReferenceAt (id : NodeId) : R [] (markReferenceAt id) .any := by
  refine hR.reads.looking (fun _ => rfl) ?_
  split
  · next name _ => exact hR.onScope (.shared name)
  · exact hR.pure trivial

lemma writeElement (name : String) (line : Line) : R [] (writeElement name line) .any :=
  hR.onScope (.element name line)

lemma recordWrite (htarget : X.Writes target) (ht : KnownIn P type) (line : Line)
    (hnone : ∀ base index, X.arena.expr? target = some (.dim base index) →
      X.arena.container? base = none → R [] (exhausted : Analysis Unit) .any) :
    R [] (recordWrite target type line) .any := by
  refine hR.reads.looking (fun _ => rfl) ?_
  split
  · next he => exact hR.assignVar (fun _ => htarget _ he) ht line
  · exact hR.assignChain target ht
  · next base index he =>
    refine hR.reads.asking ?_
    split
    · refine hR.reads.looking (fun _ => rfl) ?_
      split
      · exact hR.writeElement ..
      · exact hR.pure trivial
    · next hcontainer => exact hnone base index he hcontainer
  · exact hR.pure trivial

lemma referenceType (ref : Reference) (htarget : X.seen target) :
    R [] (referenceType ref target) .type := by
  cases ref with
  | var name =>
    exact hR.reads (f := fun st => Pure.pure (st.stack.current.typeOf? st.store name))
      (fun _ _ _ _ => rfl) (fun h => by rw [h.typeOf]) fun _ hst => hR.pure (hst.typeOf name)
  | chain key =>
    exact hR.reads
      (f := fun st => Pure.pure ((st.stack.current.chain? key).or (st.table.types.get? target)))
      (fun _ _ _ _ => rfl) (fun h => by rw [h.chain, h.types htarget])
      fun _ hst => hR.pure (.or (hst.chain key) (hst.types target))

lemma parentExpectsBool {id : NodeId} (hid : X.seen id) :
    R [] (parentExpectsBool id) .any :=
  hR.reads
    (f := fun st => Pure.pure (st.stack.parent?.any fun p => X.arena.expectsBool p id))
    (fun _ _ _ st => parentExpectsBool_run _ st id) (fun h => by rw [h.expectsBool hid])
    fun _ _ => hR.pure trivial

lemma resolveClass {name : String} (h : Name.MeansIn P name) :
    R [] (resolveClass name) .className :=
  hR.reads.seeing (fun _ _ _ => rfl) (fun h => by simp only [Stack.resolveClass?, h.class?])
    fun st hst => hR.pure (h st.stack hst.classes)

lemma bindByRef (line : Line)
    (hassign : (X.arena.expr? value).any Expr.isPlace = true → R [value] (ev.assign value none line) .any)
    (hvalue : R [value] (ev.infer value) .type) : R [value] (ev.bindByRef value line) .any := by
  refine hR.reads.looking (fun _ => rfl) ?_
  split
  · next name _ =>
    exact hR.skip (hR.andThen (hR.onScope (.used name)) fun _ _ =>
      hR.onScope (.assign name .none nofun line))
  · next he => exact hassign (by rw [he]; rfl)
  · next he => exact hassign (by rw [he]; rfl)
  · next he => exact hassign (by rw [he]; rfl)
  · next he => exact hassign (by rw [he]; rfl)
  · exact hR.result hvalue fun _ _ => trivial

end TypeJudgement.Sequential

lemma Guard.classIn_of_nullGuard? {guard : Guard} {negated : Bool}
    (h : nullGuard? op = some (guard, negated)) : guard.ClassIn P := by
  unfold nullGuard? at h
  split at h <;> cases h <;> trivial

/-- The types on either side of a test lie in `P`. -/
def Narrowing.In (P : Ty → Prop) (n : Narrowing) : Prop :=
  KnownIn P n.whenTrue ∧ KnownIn P n.whenFalse

/-- The judgement `S` holds of steps of which `R` holds, and where a test is attached to the node
`id` at the end. -/
structure TypeJudgement.Concludes (P : Ty → Prop) (X : Contexts) (id : NodeId)
    (R S : TypeJudgement) : Prop where
  seen : X.seen id
  of : ∀ {α nodes} {m : Analysis α} {r : Result α}, R nodes m r → S nodes m r
  mono : ∀ {α nodes nodes'} {m : Analysis α} {r : Result α}, S nodes m r →
    Subperm nodes nodes' → S nodes' m r
  bind : ∀ {α β nodes nodes'} {m : Analysis α} {f : α → Analysis β} {r : Result α} {q : Result β},
    R nodes m r → (∀ a, r.In P a → S nodes' (f a) q) → S (nodes ++ nodes') (m >>= f) q
  reads : S.Reads P X
  result : ∀ {α β nodes} {m : Analysis α} {g : α → β} {r : Result α} {q : Result β}, S nodes m r →
    (∀ a, r.In P a → q.In P (g a)) → S nodes (m >>= fun a => pure (g a)) q
  attachNarrowing : ∀ ref {result : Narrowing}, (X.free id → X.Tests ref) → result.In P → ∀ defines,
    S [] (attachNarrowing id ref result defines) .any

lemma TypeJudgement.Sequential.concludes {R : TypeJudgement} (hR : R.Sequential P X)
    (hid : X.seen id)
    (hattach : ∀ ref {result : Narrowing}, (X.free id → X.Tests ref) → result.In P → ∀ defines,
      R [] (attachNarrowing id ref result defines) .any) :
    TypeJudgement.Concludes P X id R R where
  seen := hid
  of h := h
  mono := hR.mono
  bind := hR.bind
  reads := hR.reads
  result := hR.result
  attachNarrowing := hattach

namespace TypeJudgement.Concludes

variable {α β : Type} {left right : NodeId} {R S : TypeJudgement} {m : Analysis α}
  {f : α → Analysis β} {r : Result α} {q : Result β} (hS : TypeJudgement.Concludes P X id R S)
  (hR : R.Sequential P X)

include hS

lemma andThen (hm : R nodes m r) (hf : ∀ a, r.In P a → S [] (f a) q) : S nodes (m >>= f) q := by
  have h := hS.bind hm hf
  rwa [append_nil] at h

lemma first (hm : R [] m r) (hf : ∀ a, r.In P a → S nodes (f a) q) : S nodes (m >>= f) q :=
  hS.bind hm hf

include hR

lemma pure {a : α} (h : r.In P a) : S [] (Pure.pure a : Analysis α) r :=
  hS.of (hR.pure h)

lemma narrowTyped (htarget : X.Part id target) (href : X.arena.reference? target = some ref)
    {result : Option Ty → Narrowing}
    (hresult : ∀ current, KnownIn P current → (result current).In P) {defines : Defines} :
    S [] (referenceType ref target >>= fun current =>
      Analysis.attachNarrowing id ref (result current) defines) .any :=
  hS.first (hR.referenceType ref htarget.seen) fun current h =>
    hS.attachNarrowing _ (fun hid => X.tests_of_free (htarget.free hid) href) (hresult current h) _

lemma narrowReference (htarget : X.Part id target) (guard : Guard) (hguard : guard.ClassIn P)
    (defines : Defines) :
    S [] (narrowReference id target guard defines) .any := by
  refine hS.reads.asking ?_
  split
  · next href => exact hS.narrowTyped hR htarget href fun _ h => hR.stable.narrow h guard hguard
  · exact hS.pure hR trivial

lemma narrowTruthiness {type : Option Ty} (ht : KnownIn P type) :
    S [] (narrowTruthiness id type) .any := by
  refine hS.first (hR.parentExpectsBool hS.seen) fun _ _ => ?_
  refine hS.reads.seeing (fun _ _ _ => rfl)
    (fun h => by simp only [← not_isSome, h.tested hS.seen]) fun _ _ => ?_
  split
  · refine hS.reads.asking ?_
    split
    · next href =>
      exact hS.attachNarrowing _ (X.tests_of_free · href) (hR.stable.narrow ht .truthy trivial) _
    · exact hS.pure hR trivial
  · exact hS.pure hR trivial

lemma narrowNullComparison (op : BinaryOp) (hleft : X.Part id left)
    (hright : X.Part id right) : S [] (narrowNullComparison id op left right) .any := by
  have htarget {target : NodeId} (h : comparedWithNull? X.arena left right = some target) :
      X.Part id target := by
    unfold comparedWithNull? at h
    split at h
    · exact some.inj h ▸ hleft
    · split at h
      · exact some.inj h ▸ hright
      · cases h
  refine hS.reads.asking ?_ fun _ _ h => by simp only [X.narrowLooseNull_eq h]
  split
  · next guard _ hcompared hguard =>
    split
    · exact hS.pure hR trivial
    · split
      · next href =>
        refine hS.narrowTyped hR (htarget hcompared) href fun current h => ?_
        have hnarrow := hR.stable.narrow h guard (Guard.classIn_of_nullGuard? hguard)
        split
        exacts [hnarrow.symm, hnarrow]
      · exact hS.pure hR trivial
  · exact hS.pure hR trivial

lemma narrowPredicate (function : String) {args : List NodeId} (hargs : ∀ c ∈ args, X.Part id c) :
    S [] (Analysis.narrowPredicate id function args) .any := by
  unfold Analysis.narrowPredicate
  split
  · exact hS.narrowReference hR (hargs _ mem_cons_self) (.primitive _) trivial _
  · exact hS.pure hR trivial

/-! ## Rules that attach a test -/

section Rules

variable {expr : NodeId}

lemma inferVar (name : String) : S [] (inferVar id name) .type := by
  refine hS.first (hR.onScope (.used name)) fun _ _ => ?_
  refine hS.reads (f := fun st => do
    Analysis.narrowTruthiness id (st.stack.current.typeOf? st.store name)
    return st.stack.current.typeOf? st.store name) (fun _ _ _ _ => rfl)
    (fun h => by simp only [h.typeOf]) fun st hst => ?_
  exact hS.result (hS.narrowTruthiness hR (hst.typeOf name)) fun _ _ => hst.typeOf name

lemma inferProp (nullsafe : Bool) (ho : R [object] (ev.infer object) .type)
    (hn : ∀ c ∈ name.children, R [c] (ev.infer c) .type) :
    S (object :: name.children) (ev.inferProp id object name nullsafe) .type := by
  have htail {type : Option Ty} (ht : KnownIn P type) : S [] (do
      Analysis.narrowTruthiness id (orNull nullsafe type)
      return orNull nullsafe type) .type :=
    have ht := hR.stable.orNull nullsafe ht
    hS.result (hS.narrowTruthiness hR ht) fun _ _ => ht
  refine hS.bind ho fun type ht => ?_
  cases name with
  | dynamic name =>
    exact hS.andThen (r := .any) (hR.result (hn name mem_cons_self) fun _ _ => trivial)
      fun _ _ => htail .none
  | identifier property =>
    refine hS.reads.asking (hS.reads.seeing (fun _ _ _ => rfl)
      (fun h => by simp only [funext h.chain]) fun st hst => ?_)
      fun _ _ h => by simp only [propertyType?_eq_of_same (X.same h)]
    refine htail (.or (.bind fun key _ => hst.chain key) (.bind fun t h => ?_))
    exact onReceiver?_in hR.stable (ht t h) fun _ hcls =>
      hR.declares.propertyType?_in hcls property

lemma inferAssign (htarget : X.Part id target) (hv : R [value] (ev.infer value) .type)
    (ht : ∀ {type}, KnownIn P type → ∀ line, R [target] (ev.assign target type line) .any) :
    S [target, value] (ev.inferAssign id target value) .type := by
  refine hS.mono ?_ (Perm.swap target value []).subperm
  refine hS.bind hv fun type htype => hS.reads.looking (fun _ => rfl) ?_
  refine hS.andThen (ht htype _) fun _ _ => hS.first (hR.parentExpectsBool hS.seen) fun _ _ => ?_
  split
  · refine hS.reads.asking ?_
    split
    · next href =>
      exact hS.result (hS.attachNarrowing _ (fun hid => X.tests_of_free (htarget.free hid) href)
        (hR.stable.narrow htype .truthy trivial) _) fun _ _ => htype
    · exact hS.pure hR htype
  · exact hS.pure hR htype

lemma inferCall {name : String} (hparts : ∀ c ∈ args.map Arg.value, X.Part id c)
    (hargs : ∀ signature, signature = none ∨ signature = X.index.function? name →
      R (args.map Arg.value) (ev.bindArgs id args signature) .any)
    (hcompact : R [] (ev.compactAll (args.map Arg.value)) .any) :
    S (args.map Arg.value) (ev.inferCall id (.named name) args) .type := by
  have hnamed : S (args.map Arg.value) (ev.inferNamedCall id name args) .type := by
    have ht : KnownIn P ((X.index.function? name).bind Signature.returnType) :=
      .bind fun f hf t ht => hR.declares.returns t (Index.mem_returnTypes hf ht)
    refine hS.reads.asking (hS.andThen (hargs _ (.inr rfl)) fun _ _ => ?_)
      fun _ _ h => by simp only [(X.same h).function?_eq]
    split
    · exact hS.result (hS.narrowPredicate hR name hparts) fun _ _ => ht
    · exact hS.pure hR ht
  unfold Evaluator.inferCall
  dsimp only
  split
  · exact hS.of (hR.andThen (hargs _ (.inl rfl)) fun _ _ => hR.result hcompact fun _ _ =>
      KnownIn.some (hR.stable.primitive .array))
  · exact hS.first (hR.onScope .dynamic) fun _ _ => hnamed
  · exact hnamed

lemma inferInstanceOf (hmeans : cls.MeansIn P) (hpart : X.Part id expr)
    (hexpr : R [expr] (ev.infer expr) .type) (hcls : ∀ c ∈ cls.children, R [c] (ev.infer c) .type) :
    S (expr :: cls.children) (ev.inferInstanceOf id expr cls) .type := by
  have hbool : KnownIn P (some .bool) := .some (hR.stable.primitive .bool)
  refine hS.bind (r := .any) (hR.result hexpr fun _ _ => trivial) fun _ _ => ?_
  cases cls with
  | named name =>
    have hname := hmeans name (.head _)
    refine hS.first (hR.resolveClass hname) fun className hclass => ?_
    cases className with
    | some className =>
      exact hS.result (hS.narrowReference hR hpart (.instanceOf _) (hclass _ rfl) _) fun _ _ => hbool
    | none => exact hS.pure hR hbool
  | dynamic clsExpr =>
    exact hS.of (hR.result (r := .any) (hR.result (hcls clsExpr mem_cons_self) fun _ _ => trivial)
      fun _ _ => hbool)

lemma inferIsSet {vars : List NodeId} (hparts : ∀ c ∈ vars, X.Part id c)
    (hvars : R vars (ev.visitAll vars) .any) :
    S vars (ev.inferIsSet id vars) .type := by
  have hbool : KnownIn P (some .bool) := .some (hR.stable.primitive .bool)
  refine hS.andThen hvars fun _ _ => ?_
  split
  · exact hS.result (hS.narrowReference hR (hparts _ mem_cons_self) .isSet trivial _) fun _ _ => hbool
  · exact hS.pure hR hbool

lemma inferEmpty (hpart : X.Part id expr) (hexpr : R [expr] (ev.infer expr) .type) :
    S [expr] (ev.inferEmpty id expr) .type :=
  hS.andThen (r := .any) (hR.result hexpr fun _ _ => trivial) fun _ _ =>
    hS.result (hS.narrowReference hR hpart .empty trivial _) fun _ _ =>
      KnownIn.some (hR.stable.primitive .bool)

lemma inferOperator (hop : op.isShortCircuit = false) (hleft : X.Part id left)
    (hright : X.Part id right) (hl : R [left] (ev.infer left) .type)
    (hr : R [right] (ev.infer right) .type) :
    S [left, right] (ev.inferBinary id op left right) .type := by
  unfold inferBinary
  split
  · cases hop
  · cases hop
  · cases hop
  · cases hop
  · exact hS.bind hl fun _ hl => hS.andThen hr fun _ hr =>
      hS.result (hS.narrowNullComparison hR _ hleft hright) fun _ _ => hR.stable.ofBinary _ hl hr

end Rules

end TypeJudgement.Concludes

/-- The judgement holds of what is evaluated, passed as an argument and written to at the nodes that
are `read`, `passed` and `written`. -/
structure Stepwise (P : Ty → Prop) (X : Contexts) (read passed written : NodeId → Prop)
    (ev : Evaluator) (R : TypeJudgement) : Prop extends TypeJudgement.Sequential P X R where
  seen : ∀ {id}, read id → X.seen id
  infer : ∀ {id}, read id → R [id] (ev.infer id) .type
  read_of_passed : ∀ {id}, passed id → read id
  bindByRef : ∀ {id}, passed id → ∀ line, R [id] (ev.bindByRef id line) .any
  assign : ∀ {id}, written id → ∀ {type : Option Ty}, (type.isSome = true → X.Writes id) →
    KnownIn P type → ∀ line, R [id] (ev.assign id type line) .any
  writeInto : ∀ {id}, written id → ∀ line, R [id] (ev.writeInto id line) .any
  compact : ∀ {id}, passed id → R [] (ev.compact id) .any
  recordWriteAt : ∀ {id}, written id → X.Writes id → ∀ {type}, KnownIn P type → ∀ line,
    R [] (recordWrite id type line) .any

namespace Stepwise

variable {read passed written : NodeId → Prop} {R S : TypeJudgement} {base : NodeId}
  (h : Stepwise P X read passed written ev R) {items : List ArrayItem} {ids : List NodeId}

include h

/-! ## Sequences -/

lemma visit (hid : read id) : R [id] (ev.visit id) .any :=
  h.result (h.infer hid) fun _ _ => trivial

lemma visit? {o : Option NodeId} (ho : ∀ c ∈ o.toList, read c) : R o.toList (ev.visit? o) .any := by
  cases o with
  | none => exact h.pure trivial
  | some id => exact h.visit (ho id (by simp))

lemma visitAll (hids : ∀ c ∈ ids, read c) : R ids (ev.visitAll ids) .any := by
  induction ids with
  | nil => exact h.pure trivial
  | cons id ids ih =>
    rw [forall_mem_cons] at hids
    exact h.bind (h.visit hids.1) fun _ _ => ih hids.2

lemma visitMember (hname : ∀ c ∈ name.children, read c) :
    R name.children (ev.visitMember name) .any := by
  cases name with
  | dynamic name => exact h.visit (hname name (by simp [MemberName.children]))
  | identifier _ => exact h.pure trivial

lemma classOf (hmeans : cls.MeansIn P) (hcls : ∀ c ∈ cls.children, read c) :
    R cls.children (ev.classOf cls) .className := by
  cases cls with
  | named name => exact h.resolveClass (hmeans name (.head _))
  | dynamic expr =>
    refine h.result (h.infer (hcls expr (by simp [ClassRef.children]))) fun type ht name hname => ?_
    obtain ⟨t, rfl, ht'⟩ := bind_eq_some_iff.1 hname
    exact h.stable.named t name (ht t rfl) (mem_names_of_className? ht')

lemma compactAll (hids : ∀ c ∈ ids, passed c) :
    R [] (ev.compactAll ids) .any := by
  induction ids with
  | nil => exact h.pure trivial
  | cons id ids ih =>
    rw [forall_mem_cons] at hids
    exact h.andThen (h.compact hids.1) fun _ _ => ih hids.2

lemma visitItems (hitems : ∀ c ∈ items.flatMap children, read c) :
    R (items.flatMap children) (ev.visitItems items) .any := by
  induction items with
  | nil => exact h.pure trivial
  | cons item items ih =>
    simp only [flatMap_cons, children, forall_mem_append,
      forall_mem_singleton] at hitems
    rw [flatMap_cons, children, append_assoc]
    exact h.bind (h.visit? hitems.1.1) fun _ _ => h.bind (h.visit hitems.1.2) fun _ _ => ih hitems.2

lemma arrayItems (hitems : ∀ c ∈ items.flatMap children, read c) :
    R (items.flatMap children) (ev.arrayItems items) .any := by
  induction items with
  | nil => exact h.pure trivial
  | cons item items ih =>
    simp only [flatMap_cons, children, forall_mem_append,
      forall_mem_singleton] at hitems
    rw [flatMap_cons, children, append_assoc]
    refine h.bind (h.visit? hitems.1.1) fun _ _ => h.reads.looking (fun _ => rfl) ?_
    have hvisit := h.bind (h.visit hitems.1.2) fun _ _ => ih hitems.2
    split
    · next name _ =>
      split
      · refine h.reads.looking (fun _ => rfl) (h.mono ?_ (sublist_cons_self ..).subperm)
        exact h.bind (h.onScope (.assign name .none (fun hsome => by cases hsome) _)) fun _ _ =>
          h.bind (h.onScope (.shared name)) fun _ _ => ih hitems.2
      · exact hvisit
    · exact hvisit

/-! ## Assignments -/

lemma assignNone (hid : written id) (line : Line) : R [id] (ev.assign id none line) .any :=
  h.assign hid (fun hsome => by cases hsome) .none line

lemma destructure (line : Line) (hitems : ∀ c ∈ items.flatMap ArrayItem.children, read c)
    (hvalues : ∀ c ∈ items.map ArrayItem.value, written c) :
    R (items.flatMap ArrayItem.children) (ev.destructure line items) .any := by
  induction items with
  | nil => exact h.pure trivial
  | cons item items ih =>
    simp only [flatMap_cons, ArrayItem.children, forall_mem_append,
      forall_mem_singleton] at hitems
    rw [map_cons, forall_mem_cons] at hvalues
    rw [flatMap_cons, ArrayItem.children, append_assoc]
    refine h.bind (h.visit? hitems.1.1) fun _ _ => h.bind (h.assignNone hvalues.1 _) fun _ _ => ?_
    split
    · exact h.bind (h.markReferenceAt _) fun _ _ => ih hitems.2 hvalues.2
    · exact ih hitems.2 hvalues.2

section Target

variable (hparts : ∀ {m : Analysis Unit} {e}, X.arena.expr? target = some e → e.isFunction = false →
    ((∀ c ∈ e.children, read c) → (∀ c ∈ e.looseParts, written c) → R e.children m .any) →
    R [target] m .any)
  (hself : R [target] (ev.infer target) .type)

include hparts hself

lemma assignTo {type : Option Ty} (ht : KnownIn P type) (line : Line)
    (htarget : type.isSome = true → X.Writes target := by intro _ _ _; trivial) :
    R [target] (ev.assignTo target type line) .any := by
  refine h.reads.looking (fun _ => rfl) ?_
  split
  · exact h.skip (h.pure trivial)
  · next he => exact h.skip (h.assignVar (fun hsome => htarget hsome _ he) ht line)
  · next he => exact hparts he rfl (h.destructure line)
  · next he => exact hparts he rfl (h.destructure line)
  · next he =>
    refine hparts he rfl fun hread _ => ?_
    have hread := forall_mem_cons.1 hread
    exact h.bind (h.visit hread.1) fun _ _ => h.andThen (h.visitMember hread.2) fun _ _ =>
      h.assignChain target ht
  · next he => exact hparts he rfl fun hread _ => h.visit (forall_mem_singleton.1 hread)
  · exact h.skip (h.pure trivial)
  · next he =>
    refine hparts he rfl fun hread hbase => ?_
    refine h.mono (h.bind (h.visit? (forall_mem_cons.1 hread).2) fun _ _ => ?_)
      (perm_append_singleton ..).subperm
    exact h.writeInto (forall_mem_singleton.1 hbase) _
  · next he =>
    exact hparts he rfl fun hread _ =>
      h.andThen (h.visit (forall_mem_singleton.1 hread)) fun _ _ => h.onScope .dynamic
  · exact h.result hself fun _ _ => trivial

lemma writeIntoBase (line : Line) : R [target] (ev.writeIntoBase target line) .any := by
  refine h.reads.looking (fun _ => rfl) ?_
  split
  · exact h.skip (h.writeElement ..)
  · next he =>
    refine hparts he rfl fun hread hbase => ?_
    refine h.mono (h.bind (h.visit? (forall_mem_cons.1 hread).2) fun _ _ => ?_)
      (perm_append_singleton ..).subperm
    exact h.writeInto (forall_mem_singleton.1 hbase) _
  · next he =>
    refine hparts he rfl fun hread _ => ?_
    have hread := forall_mem_cons.1 hread
    exact h.bind (h.visit hread.1) fun _ _ => h.visitMember hread.2
  · exact h.skip (h.pure trivial)
  · exact h.result hself fun _ _ => trivial

end Target

lemma compactArg {arg : NodeId}
    (hitems : ∀ items, X.arena.expr? arg = some (.array items) →
      ∀ c ∈ items.map ArrayItem.value, passed c) : R [] (ev.compactArg arg) .any := by
  refine h.reads.looking (fun _ => rfl) ?_
  split
  · next name _ => exact h.onScope (.used name)
  · next items he => exact h.compactAll (hitems items he)
  · exact h.pure trivial

lemma inferAssignRef (id : NodeId) (ht : written target) (hv : read value) :
    R [target, value] (ev.inferAssignRef id target value) .type := by
  have hrest (line : Line) : R [target] (do
      ev.assign target none line
      markReferenceAt target
      return (none : Option Ty)) .type :=
    h.andThen (h.assignNone ht _) fun _ _ => h.result (h.markReferenceAt _) fun _ _ =>
      KnownIn.none
  refine h.mono ?_ (Perm.swap target value []).subperm
  refine h.reads.looking (fun _ => rfl) (h.reads.looking (fun _ => rfl) ?_)
  split
  · next name _ =>
    -- The variable itself is not evaluated.
    refine h.mono ?_ (sublist_cons_self ..).subperm
    exact h.bind (h.onScope (.assign name .none (fun hsome => by cases hsome) _)) fun _ _ =>
      h.bind (h.markReferenceAt _) fun _ _ => hrest _
  · exact h.bind (h.visit hv) fun _ _ => hrest _

lemma inferCompoundAssign (id : NodeId) (op : BinaryOp) (hc : read target) (ht : written target)
    (htarget : X.Writes target) (hv : read value) :
    R [target, value] (ev.inferCompoundAssign id op target value) .type := by
  refine h.reads.seeing (fun _ _ _ => rfl) (fun h => by simp only [h.contains]) fun _ _ => ?_
  refine h.reads.looking (fun _ => rfl) ?_
  refine h.bind (h.infer hc) fun _ hc => h.andThen (h.infer hv) fun _ hv => ?_
  refine h.reads.looking (fun _ => rfl) ?_
  split
  · exact h.result (h.recordWriteAt ht htarget hv _) fun _ _ => hv
  · have htype := h.stable.ofBinary op hc hv
    exact h.result (h.recordWriteAt ht htarget htype _) fun _ _ => htype

lemma inferIncDec (id : NodeId) (op : IncDecOp) (hc : read target) (ht : written target)
    (htarget : X.Writes target) :
    R [target] (ev.inferIncDec id op target) .type := by
  refine h.andThen (h.infer hc) fun current hc => h.reads.looking (fun _ => rfl) ?_
  have hu : KnownIn P (current.map (ofStep (op == .preInc || op == .postInc))) :=
    hc.map fun t _ => h.stable.ofStep _ t
  refine h.result (h.recordWriteAt ht htarget hu _) fun _ _ => ?_
  split
  exacts [hu, hc]

/-! ## Members and calls -/

lemma inferClassConst (name : String) (hmeans : cls.MeansIn P)
    (hcls : ∀ c ∈ cls.children, read c) : R cls.children (ev.inferClassConst cls name) .type := by
  refine h.andThen (h.classOf hmeans hcls) fun className hclass => ?_
  split
  · exact h.pure (KnownIn.some (h.stable.primitive .string))
  · exact h.reads.asking (h.pure (KnownIn.bind fun c hc =>
      h.declares.classConstantType?_in (hclass c hc) name))
      fun _ _ h => by simp only [classConstantType?_eq_of_same (X.same h)]

lemma inferStaticProp (name : String) (hmeans : cls.MeansIn P)
    (hcls : ∀ c ∈ cls.children, read c) : R cls.children (ev.inferStaticProp cls name) .type :=
  h.andThen (h.classOf hmeans hcls) fun _ hclass => h.reads.asking
    (h.pure (KnownIn.bind fun c hc => h.declares.propertyType?_in (hclass c hc) _))
    fun _ _ h => by simp only [propertyType?_eq_of_same (X.same h)]

lemma inferDim {index : Option NodeId} (hb : read base)
    (hi : ∀ c ∈ index.toList, read c) : R (base :: index.toList) (ev.inferDim base index) .type := by
  refine h.bind (h.infer hb) fun _ _ => h.andThen (h.visit? hi) fun _ _ => ?_
  split
  · exact h.pure (KnownIn.some (h.stable.primitive .string))
  · exact h.pure KnownIn.none

lemma bindArgsFrom (signature : Option Signature) (line : Line) (position : Nat)
    (hargs : ∀ c ∈ args.map Arg.value, passed c) :
    R (args.map Arg.value) (ev.bindArgsFrom signature line position args) .any := by
  induction args generalizing position with
  | nil => exact h.pure trivial
  | cons arg args ih =>
    rw [map_cons, forall_mem_cons] at hargs
    unfold Evaluator.bindArgsFrom
    dsimp only
    split
    · exact h.bind (h.bindByRef hargs.1 _) fun _ _ => ih _ hargs.2
    · exact h.bind (h.visit (h.read_of_passed hargs.1)) fun _ _ => ih _ hargs.2

lemma bindArgs (call : NodeId) (signature : Option Signature)
    (hargs : ∀ c ∈ args.map Arg.value, passed c) :
    R (args.map Arg.value) (ev.bindArgs call args signature) .any :=
  h.reads.looking (fun _ => rfl) (h.bindArgsFrom signature _ 0 hargs)

lemma bindDynamic (call : NodeId) {name : NodeId} (hn : read name)
    (ha : ∀ c ∈ args.map Arg.value, passed c) : R (name :: args.map Arg.value) (do
      ev.visit name
      ev.bindArgs call args none
      return (none : Option Ty)) .type :=
  h.bind (h.visit hn) fun _ _ => h.result (h.bindArgs call _ ha) fun _ _ => KnownIn.none

lemma inferMethodCall (id : NodeId) (nullsafe : Bool) (ho : read object)
    (hn : ∀ c ∈ name.children, read c) (ha : ∀ c ∈ args.map Arg.value, passed c) :
    R (object :: (name.children ++ args.map Arg.value))
      (ev.inferMethodCall id object name args nullsafe) .type := by
  refine h.bind (h.infer ho) fun type ht => ?_
  cases name with
  | dynamic name => exact h.bindDynamic id (forall_mem_singleton.1 hn) ha
  | identifier method =>
    refine h.reads.asking (h.result (h.bindArgs id _ ha) fun _ _ => ?_)
      fun _ _ h => by simp only [(X.same h).firstMethod?_eq, returnType?_eq_of_same (X.same h)]
    exact h.stable.orNull nullsafe (.bind fun t hreceiver =>
      onReceiver?_in h.stable (ht t hreceiver) fun _ hcls =>
        h.declares.returnType?_in hcls method)

lemma inferStaticCall (id : NodeId) (hmeans : cls.MeansIn P) (hc : ∀ c ∈ cls.children, read c)
    (hn : ∀ c ∈ name.children, read c) (ha : ∀ c ∈ args.map Arg.value, passed c) :
    R (cls.children ++ (name.children ++ args.map Arg.value))
      (ev.inferStaticCall id cls name args) .type := by
  refine h.bind (h.classOf hmeans hc) fun className hclass => ?_
  cases name with
  | dynamic name => exact h.bindDynamic id (forall_mem_singleton.1 hn) ha
  | identifier method =>
    refine h.reads.asking (h.andThen (h.bindArgs id _ ha) fun _ _ => ?_)
      fun _ _ h => by simp only [(X.same h).method?_eq, memberType_eq_of_same (X.same h)]
    refine h.reads.seeing (fun _ _ _ => rfl) (fun h => by simp only [h.class?]) fun st hst => h.pure ?_
    refine KnownIn.bind fun f hf => .bind fun declared hdeclared => .bind fun receiver hr => ?_
    obtain ⟨c, -, hc⟩ := bind_eq_some_iff.1 hf
    refine .some (h.declares.members _ (Index.mem_memberTypes_of_method? hc hdeclared) receiver ?_)
    -- A call on the parent class is seen through the class around it.
    have haround : ∀ name, (st.stack.class?.map ClassContext.name).or className = some name →
        P (.named name) := by
      intro name hname
      rcases or_eq_some_iff.1 hname with hname | ⟨-, hname⟩
      · obtain ⟨c, hc, rfl⟩ := map_eq_some_iff.1 hname
        exact (hst.classes c (mem_of_head? hc)).name
      · exact hclass name hname
    split at hr
    · split at hr
      · exact haround receiver hr
      · exact hclass receiver hr
    · exact hclass receiver hr

lemma inferNew (id : NodeId) (hmeans : cls.MeansIn P) (hc : ∀ c ∈ cls.children, read c)
    (ha : ∀ c ∈ args.map Arg.value, passed c) :
    R (cls.children ++ args.map Arg.value) (ev.inferNew id cls args) .type :=
  h.bind (h.classOf hmeans hc) fun _ hclass => h.reads.asking
    (h.result (h.bindArgs id _ ha) fun _ _ => KnownIn.some (h.stable.ofClass? hclass))
    fun _ _ h => by simp only [(X.same h).method?_eq]

/-! ## Kinds of expressions -/

variable (hS : TypeJudgement.Concludes P X id R S)

include hS

/-- The rule of every kind of expression that is no test of tests, no choice and no function. -/
lemma inferExpr {e : Expr} (hdeclares : (NodeData.expr e).DeclaresIn P)
    (he : e.keepsScope = true) (hread : ∀ c ∈ e.children, read c)
    (hargs : ∀ c ∈ e.args, passed c) (hplaces : ∀ c ∈ e.places, written c)
    (hfree : ∀ c ∈ e.children, X.free id → X.free c := by intros; trivial)
    (htarget : ∀ target, e.target? = some target → X.Writes target := by intro _ _ _ _; trivial) :
    S e.children (ev.inferExpr id e) .type := by
  have hpart (c : NodeId) (hc : c ∈ e.children) : X.Part id c := ⟨h.seen (hread c hc), hfree c hc⟩
  have hprim (kind : Primitive) : KnownIn P (some (.primitive kind)) :=
    .some (h.stable.primitive kind)
  have hone {c : NodeId} (hc : e.children = [c]) : read c :=
    hread c (by rw [hc]; exact mem_cons_self)
  cases e with
  | closure _ | arrow _ | ternary _ _ _ | matchExpr _ _ | suppress _ => cases he
  | var name => exact hS.inferVar h.toSequential name
  | int _ | float _ | string _ => exact hS.pure h.toSequential (hprim _)
  | const name =>
    exact hS.of (h.reads.asking (h.pure (h.declares.constantType?_in h.stable name))
      fun _ _ h => by simp only [constantType?_eq_of_same (X.same h)])
  | interpolated parts => exact hS.of (h.result (h.visitAll hread) fun _ _ => hprim .string)
  | classConst cls name => exact hS.of (h.inferClassConst name hdeclares.names hread)
  | array items => exact hS.of (h.result (h.arrayItems hread) fun _ _ => hprim .array)
  | list items => exact hS.of (h.result (h.visitItems hread) fun _ _ => KnownIn.none)
  | staticProp cls name => exact hS.of (h.inferStaticProp name hdeclares.names hread)
  | isSet vars => exact hS.inferIsSet h.toSequential hpart (h.visitAll hread)
  | exit expr => exact hS.of (h.result (h.visit? hread) fun _ _ => KnownIn.none)
  | dynamicVar expr =>
    exact hS.of (h.andThen (h.visit (hone rfl)) fun _ _ =>
      h.result (h.onScope .dynamic) fun _ _ => KnownIn.none)
  | includeFile expr =>
    exact hS.of (h.andThen (h.visit (hone rfl)) fun _ _ =>
      h.result (h.onScope .dynamic) fun _ _ => hprim .mixed)
  | unary op operand =>
    cases op with
    | not => cases he
    | minus | plus =>
      exact hS.of (h.result (h.infer (hone rfl)) fun _ _ => KnownIn.some (h.stable.ofSigned _))
    | bitNot => exact hS.of (h.result (h.infer (hone rfl)) fun _ _ => hprim .int)
  | incDec op target => exact hS.of (h.inferIncDec id op (hone rfl) (forall_mem_singleton.1 hplaces) (htarget _ rfl))
  | empty expr => exact hS.inferEmpty h.toSequential (hpart _ mem_cons_self) (h.infer (hone rfl))
  | cast kind expr =>
    cases kind with
    | bool => cases he
    | int | float | string | array | object | unset =>
      exact hS.of (h.result (h.visit (hone rfl)) fun _ _ => hprim _)
  | clone expr => exact hS.of (h.infer (hone rfl))
  | print expr => exact hS.of (h.result (h.visit (hone rfl)) fun _ _ => hprim .int)
  | throwExpr expr => exact hS.of (h.result (h.visit (hone rfl)) fun _ _ => KnownIn.none)
  | binary op left right =>
    have hl : read left := hread _ mem_cons_self
    have hr : read right := hread _ (.tail _ mem_cons_self)
    have hop : op.isShortCircuit = false := by simpa [Expr.keepsScope] using he
    exact hS.inferOperator h.toSequential hop (hpart _ mem_cons_self)
      (hpart _ (.tail _ mem_cons_self)) (h.infer hl) (h.infer hr)
  | assign target value =>
    exact hS.inferAssign h.toSequential (hpart _ mem_cons_self)
      (h.infer (hread _ (.tail _ mem_cons_self)))
      (h.assign (forall_mem_singleton.1 hplaces) fun _ => htarget _ rfl)
  | assignRef target value =>
    exact hS.of (h.inferAssignRef id (forall_mem_singleton.1 hplaces)
      (hread _ (.tail _ mem_cons_self)))
  | compoundAssign op target value =>
    exact hS.of (h.inferCompoundAssign id op (hread _ mem_cons_self) (forall_mem_singleton.1 hplaces) (htarget _ rfl)
      (hread _ (.tail _ mem_cons_self)))
  | prop object name nullsafe =>
    have hread := forall_mem_cons.1 hread
    exact hS.inferProp h.toSequential nullsafe (h.infer hread.1) fun c hc => h.infer (hread.2 c hc)
  | dim base index =>
    have hread := forall_mem_cons.1 hread
    exact hS.of (h.inferDim hread.1 hread.2)
  | instanceOf expr cls =>
    have hread := forall_mem_cons.1 hread
    exact hS.inferInstanceOf h.toSequential hdeclares.names (hpart _ mem_cons_self)
      (h.infer hread.1) fun c hc => h.infer (hread.2 c hc)
  | call callee args =>
    cases callee with
    | dynamic expr => exact hS.of (h.bindDynamic id (hread _ mem_cons_self) hargs)
    | named name =>
      show S (args.map Arg.value) (ev.inferCall id (.named name) args) .type
      exact hS.inferCall h.toSequential hpart
        (fun signature _ => h.bindArgs id signature hargs) (h.compactAll hargs)
  | new cls args =>
    rw [Expr.children, forall_mem_append] at hread
    exact hS.of (h.inferNew id hdeclares.names hread.1 hargs)
  | staticCall cls name args =>
    simp only [Expr.children, append_assoc, forall_mem_append] at hread ⊢
    exact hS.of (h.inferStaticCall id hdeclares.names hread.1 hread.2.1 hargs)
  | methodCall object name args nullsafe =>
    simp only [Expr.children, forall_mem_append, forall_mem_cons] at hread
    exact hS.of (h.inferMethodCall id nullsafe hread.1.1 hread.1.2 hargs)

end Stepwise

end FlowTyping

import FlowTyping.Proofs.Analysis.Branches
import FlowTyping.Proofs.Analysis.Sequences

/-!
# Rules that enter scopes, functions and loops

What `FlowTyping.Proofs.Analysis.Sequences` does for the rules that keep to one scope is done here for
the others, again for any judgement on steps.  Such a rule takes scopes into hand, runs its parts in
them, and joins them into the current scope or drops them at its end.

**Steps and rules.**  Each rule has the judgement where the evaluation of its parts has it; the rules
of statements are in `FlowTyping.Proofs.Analysis.StatementRules`.

**Steps without scopes.**  `Judgement.Structural`: a judgement that takes no account of scopes, and
holds of every step without nested evaluation except a jump.  It is the case in which anything may be
in hand (`Judgement.Structural.holding`).
-/

namespace FlowTyping

open Analysis Evaluator List Option Outcome Scope Ty

variable {type : Option Ty} {P : Ty → Prop} {s : Scope} {cx : Context} {R : Judgement}

/-! ## Changes of scopes -/

section Changes

variable {σ : Store} {n : Nat}

lemma Reference.change_narrowIn (r : Reference) (hs : s.Wf P σ) (hσ : σ.TypesIn P)
    (hn : n ≤ σ.size) (ht : KnownIn P type) (define : Bool) (line : Line) :
    Change P n s σ (r.narrowIn type define line s σ).1 (r.narrowIn type define line s σ).2 := by
  unfold Reference.narrowIn
  split
  · split
    · exact change_narrow hs hσ hn _ (ht _ rfl) line
    · exact .refl hs hσ
  · split
    · exact change_ensure hs hσ hn _ line
    · exact .refl hs hσ
  · exact change_setChain hs hσ _ ht
  · exact .refl hs hσ

lemma Ty.Stable.paramType (hP : Stable P) (arena : Arena) (p : Param)
    {declared : Option Ty} (h : KnownIn P declared) :
    KnownIn P (arena.paramType p declared) := by
  unfold Arena.paramType
  split
  · exact .some (hP.primitive .array)
  · split
    · exact h.map fun t ht => hP.join t .null ht (hP.primitive .null)
    · exact h

namespace Scope

lemma change_foldl {γ : Type} {f : Store → γ → Store} {xs : List γ} (hs : s.Wf P σ)
    (hσ : σ.TypesIn P)
    (h : ∀ x ∈ xs, ∀ σ, s.Wf P σ → σ.TypesIn P → Change P n s σ s (f σ x)) :
    Change P n s σ s (xs.foldl f σ) := by
  induction xs generalizing σ with
  | nil => exact .refl hs hσ
  | cons x xs ih =>
    rw [forall_mem_cons] at h
    have hx := h.1 σ hs hσ
    exact hx.trans (ih hx.wf hx.types h.2)

lemma change_absorbAll (hs : s.Wf P σ) (hσ : σ.TypesIn P) (paths : List Scope) :
    Change P n s σ s (paths.foldl (fun σ path => s.absorbUsage path σ) σ) :=
  change_foldl hs hσ fun path _ _ hs hσ => change_absorbUsage hs hσ path

lemma change_addSuperglobals (hP : Stable P) (extra : List String) (hs : s.Wf P σ)
    (hσ : σ.TypesIn P) (hn : n ≤ σ.size) :
    Change P n s σ (addSuperglobals extra s σ).1 (addSuperglobals extra s σ).2 := by
  unfold addSuperglobals
  generalize Name.superglobals ++ extra = names
  induction names generalizing s σ with
  | nil => exact .refl hs hσ
  | cons name names ih =>
    have h := change_declare (n := n) hs hσ hn name (.some (hP.primitive .array)) .superglobal 0
    exact h.trans (ih h.wf h.types (Nat.le_trans hn h.size_le))

/-- A copy becomes the scope of an arrow function: it takes other flags, possibly loses `$this`, and
all its variables count as captured. -/
lemma change_captureAll {copy : Scope} (hs : copy.Wf P σ) (hσ : σ.TypesIn P)
    (flags : ScopeFlags) (id : NodeId) (isStatic : Bool) :
    let s := if isStatic then remove { copy with flags, function := some id } "this"
      else { copy with flags, function := some id }
    Change P σ.size copy σ s
      (s.vars.entries.foldl (fun σ e => σ.update e.2 capturedCopy) σ) := by
  intro s
  have hflags : Change P σ.size copy σ { copy with flags, function := some id } σ :=
    change_of_vars hs hσ rfl hs.chains
  have hcopy : Change P σ.size copy σ s σ := by
    by_cases hstatic : isStatic = true
    · simp only [s, hstatic, if_true]
      exact hflags.trans (change_remove hflags.wf hflags.types "this")
    · simp only [s, hstatic]
      exact hflags
  refine hcopy.trans (change_foldl hcopy.wf hσ fun e he σ hs hσ => ?_)
  have hslot := Dict.find_of_mem hcopy.wf.placed.nodup he
  exact change_update (n := _) hs hσ hslot fun _ hv => hv

lemma wf_of_empty (hv : s.vars = {}) (hc : s.chains = {}) : s.Wf P σ := by
  refine ⟨?_, by simp [hc]⟩
  rw [hv]
  exact ⟨nodup_nil, fun _ _ _ h => (nomatch h), fun _ _ h => (nomatch h)⟩

end Scope

end Changes

/-! ## Judgements -/

/-- What is known of the first part of a pair. -/
abbrev Result.fst {α β : Type} (r : Result α) : Result (α × β) :=
  ⟨fun P p => r.In P p.1, fun p => r.in_true p.1⟩

/-- A statement about steps that evaluate the given nodes, with scopes in hand before and behind the
step, and about their results. -/
abbrev ScopeJudgement :=
  ⦃α : Type⦄ → List NodeId → List Scope → Analysis α → (α → List Scope) → Result α → Prop

namespace ScopeJudgement

/-- Steps that take no scopes and leave none. -/
abbrev typed (G : ScopeJudgement) : TypeJudgement :=
  fun _ nodes m r => G nodes [] m (fun _ => []) r

abbrev Infers (G : ScopeJudgement) (ev : Evaluator) (id : NodeId) : Prop :=
  G.typed [id] (ev.infer id) .type

abbrev Runs (G : ScopeJudgement) (ev : Evaluator) (stmts : List NodeId) : Prop :=
  G.typed stmts (ev.checkAll stmts) .any

/-- The judgement holds of sequences, of the basic steps on scopes except a jump, and around what runs
in another scope, in an anonymous function or in a class, as long as all types lie in `P`. -/
structure Holding (P : Ty → Prop) (cx : Context) (G : ScopeJudgement) : Prop where
  stable : Stable P
  mono : ∀ {α nodes nodes' l k l' k'} {m : Analysis α} {r : Result α}, G nodes l m l' r →
    Subperm nodes nodes' → Subperm l k → (∀ a, Subperm (k' a) (l' a)) →
    G nodes' k m k' r
  frame : ∀ {α nodes l l'} {m : Analysis α} {r : Result α}, G nodes l m l' r → ∀ c,
    G nodes (l ++ c) m (fun a => l' a ++ c) r
  pure : ∀ {α l l'} {a : α} {r : Result α}, r.In P a → Subperm (l' a) l → G [] l (pure a) l' r
  bind : ∀ {α β nodes nodes' l l' l''} {m : Analysis α} {f : α → Analysis β} {r : Result α}
    {q : Result β}, G nodes l m l' r → (∀ a, r.In P a → G nodes' (l' a) (f a) l'' q) →
    G (nodes ++ nodes') l (m >>= f) l'' q
  reads : ∀ {α nodes l l'} {m : Analysis α} {f : State → Analysis α} {r : Result α},
    (∀ st, m cx st = f st cx st) → (∀ st, st.Shows P → G nodes l (f st) l' r) → G nodes l m l' r
  onScope : ∀ {l f}, (∀ s σ, s.Wf P σ → (∀ t ∈ l, t.Wf P σ) → σ.TypesIn P →
      Change P σ.size s σ (f s σ).1 (f s σ).2) →
    G [] l (onScope f) (fun _ => l) .any
  modifyTable : ∀ {l f},
    (∀ table σ, table.Wf P σ → (∀ s ∈ l, s.Wf P σ) → NodeTable.Wf P (f table) σ) →
    G [] l (modifyTable f) (fun _ => []) .any
  /-- A scope made out of one without variables. -/
  new : ∀ {l t} {f : Store → Scope × Store}, t.vars = {} → (∀ σ, σ.TypesIn P →
      (∀ s ∈ l, s.Wf P σ) → Change P σ.size t σ (f σ).1 (f σ).2) →
    G [] l (onStore f) (fun s => s :: l) .any
  /-- A scope in hand is changed, with a look at the current one. -/
  onHeldWith : ∀ {α s l} {f : Scope → Store → α × Store} (g : α → Scope),
    (∀ t σ, t.Wf P σ → s.Wf P σ → (∀ t ∈ l, t.Wf P σ) → σ.TypesIn P →
      Change P σ.size s σ (g (f t σ).1) (f t σ).2) →
    G [] (s :: l) (do onStore (f (← getScope))) (fun a => g a :: l) .any
  forkCurrent : G [] [] forkCurrent (fun s => [s]) .any
  branchScopes : ∀ id, G [] [] (branchScopes id) (fun r => [r.1, r.2]) .any
  /-- The scopes of a short circuit, made out of what is in hand and what the table has. -/
  shortScopes : ∀ {β nodes l l' b id other after} {k : NodeTable → Scope × Scope → Analysis β}
    {q : Result β}, other ∈ l → after ∈ l → (∀ table p, G nodes (p.2 :: p.1 :: l) (k table p) l' q) →
    G nodes l (getTable >>= fun table => FlowTyping.shortScopes b other
      ((table.whenTrue? id).getD after) ((table.whenFalse? id).getD after) >>= k table) l' q
  /-- Copies of what a condition implies, where it implies something. -/
  forkAssertions : ∀ {β nodes id} {k : Assertions → Analysis β} {m : Analysis β} {q : Result β},
    (∀ copy, G nodes copy.scopes (k copy) (fun _ => []) q) → G.typed nodes m q →
    G.typed nodes (getTable >>= fun table =>
      match table.assertions.get? id with
      | some a => onStore a.fork >>= k
      | none => m) q
  replaceCurrent : ∀ s, G [] [s] (replaceCurrent s) (fun _ => []) .any
  inScope : ∀ {α nodes s l'} {m : Analysis α} {r : Result α}, G nodes [] m l' r →
    G nodes [s] (inScope s m) (fun p => p.2 :: l' p.1) r.fst
  inFunction : ∀ {α β nodes} {m : Analysis α} {f : Option Scope → Analysis β} {r : Result α}
    {q : Result β} (line uses s function), G.typed nodes m r → (∀ o, G.typed [] (f o) q) →
    G nodes [s] (capture line uses s >>= fun s => modifyStack (fun stack => stack.push s) >>= fun _ =>
      m >>= fun _ => leaveFunction function >>= f) (fun _ => []) q
  inClass : ∀ {α nodes c} {m : Analysis α} {r : Result α}, c.TypesIn P → G.typed nodes m r →
    G.typed nodes (modifyStack (fun stack => stack.pushClass c) >>= fun _ => m >>= fun _ =>
      modifyStack Stack.popClass >>= fun _ => Pure.pure Flow.normal) .any

/-- The judgement `G` holds around loops and declared functions where `I` holds inside. -/
structure Encloses (P : Ty → Prop) (G I : ScopeJudgement) : Prop where
  loop : ∀ {α β nodes l l' l''} {m : Analysis α} {f : α → List Scope → Analysis β} {r : Result α}
    {q : Result β}, I nodes l m l' r →
    (∀ a breaks, r.In P a → G [] (breaks ++ l' a) (f a breaks) l'' q) →
    G nodes l (enterLoop >>= fun _ => m >>= fun a => leaveLoop >>= f a) l'' q
  function : ∀ {α nodes} {m : Analysis α} {r : Result α} (s : Scope) (function : NodeId),
    I.typed nodes m r →
    G nodes [s] (do
      let breaks := (← get).breaks
      modify fun st => { st with breaks := [], stack := st.stack.push s }
      let _ ← m
      let _ ← leaveFunction function
      modify fun st => { st with breaks }) (fun _ => []) .any

namespace Holding

variable {α β : Type} {G : ScopeJudgement} {nodes nodes' : List NodeId} {l k : List Scope}
  {l' k' : α → List Scope} {l'' : β → List Scope} {m : Analysis α} {f : α → Analysis β}
  {r : Result α} {q : Result β} {ev : Evaluator} (hG : G.Holding P cx) {doc : Option String}

include hG

/-! ## Sequences -/

lemma typed (hcx : cx.DeclaresIn P) : G.typed.Sequential P (.of cx) where
  stable := hG.stable
  declares := hcx
  mono h hle := hG.mono h hle (.refl _) fun _ => .refl _
  pure h := hG.pure h (.refl _)
  bind := hG.bind
  reads _ _ _ _ _ hm _ hf := hG.reads (hm _ _ ⟨rfl, rfl⟩) hf
  onScope hf := hG.onScope fun _ _ hs _ hσ => hf.change hG.stable hs hσ

lemma subperm (h : G nodes l m l' r) (hl : Subperm l k)
    (hl' : ∀ a, Subperm (k' a) (l' a)) : G nodes k m k' r :=
  hG.mono h (.refl _) hl hl'

lemma first (hm : G [] l m l' r) (hf : ∀ a, r.In P a → G nodes (l' a) (f a) l'' q) :
    G nodes l (m >>= f) l'' q :=
  hG.bind hm hf

lemma andThen (hm : G nodes l m l' r) (hf : ∀ a, r.In P a → G [] (l' a) (f a) l'' q) :
    G nodes l (m >>= f) l'' q := by
  have h := hG.bind hm hf
  rwa [append_nil] at h

lemma next (hm : G.typed nodes m r) (hf : ∀ a, r.In P a → G nodes' l (f a) l'' q) :
    G (nodes ++ nodes') l (m >>= f) l'' q :=
  hG.bind (hG.frame hm l) hf

lemma result {g : α → β} (hm : G nodes l m l' r) (hg : ∀ a, r.In P a → q.In P (g a)) :
    G nodes l (m >>= fun a => Pure.pure (g a)) (fun _ => []) q :=
  hG.andThen hm fun a ha => hG.pure (hg a ha) nil_subperm

lemma looking {a : α} (h : ∀ st, m cx st = some (a, st)) (hf : G nodes l (f a) l'' q) :
    G nodes l (m >>= f) l'' q :=
  hG.reads (f := fun _ => f a) (fun st => bind_run (h st)) fun _ _ => hf

lemma seeing {v : State → α} (h : ∀ st, m cx st = some (v st, st))
    (hf : ∀ st, st.Shows P → G nodes l (f (v st)) l'' q) : G nodes l (m >>= f) l'' q :=
  hG.reads (f := fun st => f (v st)) (fun st => bind_run (h st)) hf

/-! ## Scopes in hand -/

lemma onVars {g : Scope → Store → Store} (h : ∀ s σ, s.Wf P σ → σ.TypesIn P →
    Change P σ.size s σ s (g s σ)) : G [] l (onVars g) (fun _ => l) .any :=
  hG.onScope fun s σ hs _ => h s σ hs

lemma onHeldAs {f : Store → α × Store} (g : α → Scope)
    (h : ∀ σ, s.Wf P σ → (∀ t ∈ l, t.Wf P σ) → σ.TypesIn P →
      Change P σ.size s σ (g (f σ).1) (f σ).2) :
    G [] (s :: l) (onStore f) (fun a => g a :: l) .any :=
  hG.onHeldWith g fun _ σ _ => h σ

lemma onHeld {f : Store → Scope × Store} (h : ∀ σ, s.Wf P σ → (∀ t ∈ l, t.Wf P σ) → σ.TypesIn P →
      Change P σ.size s σ (f σ).1 (f σ).2) :
    G [] (s :: l) (onStore f) (fun s' => s' :: l) .any :=
  hG.onHeldAs (fun s => s) h

lemma declare (name : String) (ht : KnownIn P type) (kind : VarKind) (line : Line) :
    G [] (s :: l) (onStore fun σ => s.declare σ name type kind line) (fun s => s :: l) .any :=
  hG.onHeld fun _ hs _ hσ => change_declare hs hσ le_rfl name ht kind line

lemma forkScope (hs : s ∈ l) : G [] l (forkScope s) (fun t => t :: l) .any :=
  hG.new (t := {}) rfl fun _ hσ hl => change_fork (hl s hs) hσ le_rfl

lemma merged {t : Scope} (hs : s ∈ l) (ht : t ∈ l) :
    G [] l (onStore (merged s t)) (fun s => s :: l) .any :=
  hG.new (t := {}) rfl fun _ hσ hl =>
    change_merged hG.stable.join (hl s hs) (hl t ht) hσ le_rfl

lemma mergeIntoCurrent (hs : s ∈ l) :
    G [] l (mergeIntoCurrent s) (fun _ => l) .any :=
  hG.onScope fun _ _ ht hl hσ =>
    change_merge hG.stable.join ht (hl s hs) hσ le_rfl

lemma mergeAll (first : Scope) (rest : List Scope) :
    G [] (first :: rest) (onStore (first.mergeAll rest)) (fun s => [s]) .any :=
  hG.subperm (hG.onHeld fun _ hs hl hσ =>
    change_mergeAll hG.stable.join hs hl hσ le_rfl) (.refl _)
    fun _ => (singleton_sublist.2 mem_cons_self).subperm

lemma joinAll (l : List Scope) : G [] l (onStore (joinAll l)) toList .any := by
  cases l with
  | nil => exact hG.pure trivial (.refl _)
  | cons first rest =>
    show G [] _ (onStore (first.mergeAll rest) >>= fun s => Pure.pure (some s)) _ _
    exact hG.first (hG.mergeAll first rest) fun _ _ => hG.pure trivial (.refl _)

lemma absorbAll (paths : List Scope) : G [] l (absorbAll paths) (fun _ => l) .any :=
  hG.onVars fun _ _ hs hσ => change_absorbAll hs hσ paths

lemma rejoin (paths : List Scope) (dead : List Outcome) (fallback : Flow) :
    G [] paths (rejoin paths dead fallback) (fun _ => []) .any := by
  refine hG.first (hG.absorbAll _) fun _ _ => hG.first (hG.joinAll paths) fun joined _ => ?_
  cases joined with
  | none => exact hG.pure trivial (.refl _)
  | some joined => exact hG.result (hG.replaceCurrent joined) fun _ _ => trivial

lemma rejoinAll (outcomes : List Outcome) :
    G [] (outcomes.map scope) (rejoinAll outcomes) (fun _ => []) .any :=
  hG.subperm (hG.rejoin ..) (filter_sublist.map scope).subperm fun _ => .refl _

/-! ## Tests -/

lemma narrowedScope (ref : Reference) (ht : KnownIn P type) (define : Bool) (line : Line) :
    G [] [] (Analysis.narrowedScope ref type define line) toList .any := by
  unfold Analysis.narrowedScope
  split
  · refine hG.first hG.forkCurrent fun s _ => ?_
    rw [map_eq_pure_bind]
    refine hG.first (hG.onHeld fun σ hs _ hσ =>
      ref.change_narrowIn hs hσ le_rfl ht define line) fun s' _ => ?_
    exact hG.pure trivial (.refl _)
  · exact hG.pure trivial (.refl _)

lemma attachNarrowing (node : NodeId) (ref : Reference) {result : Narrowing}
    (h : result.In P) (defines : Defines) :
    G.typed [] (Analysis.attachNarrowing node ref result defines) .any := by
  unfold Analysis.attachNarrowing
  split
  · exact hG.pure trivial (.refl _)
  · refine hG.looking (fun _ => rfl) (hG.first (hG.narrowedScope ref h.1 _ _) fun whenTrue _ => ?_)
    refine hG.first (hG.frame (hG.narrowedScope ref h.2 _ _) whenTrue.toList) fun whenFalse _ => ?_
    refine hG.modifyTable fun table σ htable hl => htable.setAssertions fun s hs => hl s ?_
    exact perm_append_comm.mem_iff.1 hs

lemma concludes (hcx : cx.DeclaresIn P) (id : NodeId) :
    TypeJudgement.Concludes P (.of cx) id G.typed G.typed :=
  (hG.typed hcx).concludes trivial fun ref _ _ => hG.attachNarrowing id ref

lemma forwardAssertions (source target : NodeId) :
    G.typed [] (forwardAssertions source target) .any :=
  hG.forkAssertions (fun _ => hG.modifyTable fun _ _ htable hl => htable.setAssertions hl)
    (hG.pure trivial (.refl _))

lemma negate (id operand : NodeId) (ht : KnownIn P type) :
    G.typed [] (negate id operand type) .any := by
  refine hG.forkAssertions (fun copy => ?_) (hG.looking (fun _ => rfl) ?_)
  · refine hG.modifyTable fun table σ htable hl => htable.setAssertions fun s hs => hl s ?_
    exact perm_append_comm.mem_iff.1 hs
  · split
    · have hnarrow := hG.stable.narrow ht .truthy trivial
      exact hG.attachNarrowing _ _ ⟨hnarrow.2, hnarrow.1⟩ _
    · exact hG.pure trivial (.refl _)

/-! ## Operators and choices -/

lemma visit {id : NodeId} (h : G.Infers ev id) : G.typed [id] (ev.visit id) .any :=
  hG.result h fun _ _ => trivial

lemma visitAll {ids : List NodeId} (h : ∀ c ∈ ids, G.Infers ev c) :
    G.typed ids (ev.visitAll ids) .any := by
  induction ids with
  | nil => exact hG.pure trivial (.refl _)
  | cons id ids ih =>
    rw [forall_mem_cons] at h
    exact hG.bind (hG.visit h.1) fun _ _ => ih h.2

lemma inferShort (b : Bool) (id : NodeId) {left right : NodeId} (hl : G.Infers ev left)
    (hr : G.Infers ev right) : G.typed [left, right] (ev.inferShort b id left right) .type := by
  have hbool : KnownIn P (some .bool) := .some (hG.stable.primitive .bool)
  rw [inferShort_eq]
  refine hG.bind (hG.visit hl) fun _ _ => hG.first (hG.branchScopes left) fun branches _ => ?_
  refine hG.andThen (hG.subperm (hG.frame (hG.inScope hr)
    [if b then branches.2 else branches.1]) ?_ fun _ => .refl _) fun (_, after) _ => ?_
  · cases b
    exacts [(Perm.swap ..).subperm, .refl _]
  generalize (if b then branches.2 else branches.1) = other
  refine hG.shortScopes (by simp) (by simp) fun _ (whenTrue, whenFalse) => ?_
  refine hG.first (hG.mergeIntoCurrent (by simp)) fun _ _ => ?_
  split
  · refine hG.first (hG.modifyTable fun table σ htable hl => htable.setAssertions fun s hs => hl s ?_)
      fun _ _ => hG.pure hbool (.refl _)
    simp only [Assertions.scopes, toList_some, cons_append, nil_append,
      mem_cons, not_mem_nil, or_false] at hs ⊢
    rcases hs with rfl | rfl
    · exact .inr (.inl rfl)
    · exact .inl rfl
  · exact hG.pure hbool nil_subperm

lemma inferTernary {condition : NodeId} {ifTrue : Option NodeId} {ifFalse : NodeId}
    (hc : G.Infers ev condition) (ht : ∀ c ∈ ifTrue.toList, G.Infers ev c)
    (hf : G.Infers ev ifFalse) :
    G.typed (condition :: ifTrue.toList ++ [ifFalse]) (ev.inferTernary condition ifTrue ifFalse)
      .type := by
  have htype {a b : Option Ty} (ha : KnownIn P a) (hb : KnownIn P b) :=
    hG.stable.join? (ha.map hG.stable.stripNull) hb
  rw [cons_append]
  refine hG.bind hc fun _ hc => hG.first (hG.branchScopes condition) fun (trueScope, falseScope) _ => ?_
  have hother (s : Scope) := hG.subperm (hG.frame (hG.inScope (s := falseScope) hf) [s])
    (Perm.swap ..).subperm fun _ => .refl _
  cases ifTrue with
  | some ifTrue =>
    refine hG.bind (hG.frame (hG.inScope (ht ifTrue mem_cons_self)) [falseScope])
      fun (_, trueAfter) ht => hG.andThen (hother trueAfter) fun (_, falseAfter) hf => ?_
    refine hG.first (hG.merged (s := trueAfter) (t := falseAfter) (by simp) (by simp)) fun joined _ => ?_
    exact hG.result (hG.frame (hG.replaceCurrent joined) _) fun _ _ => htype ht hf
  | none =>
    refine hG.andThen (hother trueScope) fun (_, falseAfter) hf => ?_
    exact hG.result (hG.mergeIntoCurrent (by simp)) fun _ _ => htype hc hf

lemma armStart (conditions : List NodeId) :
    G [] [] (Evaluator.armStart conditions) (fun s => [s]) .any := by
  unfold Evaluator.armStart
  split
  · exact hG.first (hG.branchScopes _) fun _ _ =>
      hG.pure trivial (singleton_sublist.2 mem_cons_self).subperm
  · exact hG.forkCurrent

omit hG in
/-- The types of the arms of a match lie in the property. -/
abbrev arms : Result MatchOutcome :=
  ⟨fun P o => ∀ t ∈ o.types, KnownIn P t, fun _ _ _ _ _ => trivial⟩

lemma matchArms {arms : List MatchArm} (outcome : MatchOutcome)
    (ht : ∀ t ∈ outcome.types, KnownIn P t)
    (h : ∀ c ∈ arms.flatMap MatchArm.children, G.Infers ev c) :
    G (arms.flatMap MatchArm.children) (outcome.rejoining ++ outcome.terminated)
      (ev.matchArms arms outcome) (fun o => o.rejoining ++ o.terminated) Holding.arms := by
  induction arms generalizing outcome with
  | nil => exact hG.pure ht (.refl _)
  | cons arm arms ih =>
    simp only [flatMap_cons, MatchArm.children, forall_mem_append,
      forall_mem_singleton] at h
    rw [flatMap_cons, MatchArm.children, append_assoc, matchArms_cons]
    refine hG.next (hG.visitAll h.1.1) fun _ _ => ?_
    refine hG.first (hG.frame (hG.armStart _) _) fun start _ => ?_
    refine hG.bind (hG.frame (hG.inScope h.1.2) _) fun r htype => hG.looking (fun _ => rfl) ?_
    refine hG.subperm (ih (outcome.add _ r.1 r.2) (fun t hmem => ?_) h.2)
      (outcome.perm_add _ r.1 r.2).subperm fun _ => .refl _
    rcases MatchOutcome.mem_types_add hmem with hmem | rfl
    · exact ht t hmem
    · exact htype

lemma inferMatch {subject : NodeId} {arms : List MatchArm} (hs : G.Infers ev subject)
    (ha : ∀ c ∈ arms.flatMap MatchArm.children, G.Infers ev c) :
    G.typed (subject :: arms.flatMap MatchArm.children) (ev.inferMatch subject arms) .type := by
  refine hG.bind (hG.visit hs) fun _ _ => hG.andThen (hG.matchArms {} nofun ha) fun outcome ht => ?_
  have htail : G [] outcome.terminated (do
      Analysis.absorbAll outcome.terminated
      return unionOfKnown outcome.types) (fun _ => []) .type :=
    hG.result (hG.absorbAll _) fun _ _ => hG.stable.unionOfKnown ht
  refine hG.first (hG.frame (hG.joinAll outcome.rejoining) outcome.terminated) fun joined _ => ?_
  cases joined with
  | none => exact htail
  | some joined => exact hG.first (hG.frame (hG.replaceCurrent joined) _) fun _ _ => htail

/-! ## Functions -/

lemma isStrict : G.typed [] isStrict .any :=
  hG.seeing (fun _ => rfl) fun _ _ => hG.pure trivial (.refl _)

lemma resolveInClass {t : Ty} (ht : t.ResolvesIn P) :
    G.typed [] (resolveInClass t) ⟨fun P t => P t, fun _ => trivial⟩ := by
  refine hG.seeing (fun _ => rfl) fun st hst => ?_
  split
  · next c hc => exact hG.pure (ht.inside c (hst.classes c (mem_of_head? hc))) (.refl _)
  · exact hG.pure ht.outside (.refl _)

lemma declaredParamType {p : Param} (hp : KnownIn (ResolvesIn P) (p.declared? doc)) :
    G.typed [] (Analysis.declaredParamType doc p) .type := by
  unfold Analysis.declaredParamType
  dsimp only
  split
  · next t ht =>
    exact hG.result (hG.resolveInClass (hp t ht)) fun t ht => .some ht
  · exact hG.pure .none (.refl _)

lemma addParams (line : Line) {ps : List Param}
    (hps : ∀ t ∈ ps.filterMap (Param.declared? doc), t.ResolvesIn P) (s : Scope) :
    G [] [s] (addParams doc line ps s) (fun s => [s]) .any := by
  induction ps generalizing s with
  | nil => exact hG.pure trivial (.refl _)
  | cons p ps ih =>
    have hp : KnownIn (ResolvesIn P) (p.declared? doc) := fun t ht =>
      hps t (mem_filterMap.2 ⟨p, .head _, ht⟩)
    have hrest : ∀ t ∈ ps.filterMap (Param.declared? doc), t.ResolvesIn P := fun t ht =>
      let ⟨q, hq, hqt⟩ := mem_filterMap.1 ht
      hps t (mem_filterMap.2 ⟨q, .tail _ hq, hqt⟩)
    refine hG.looking (fun _ => rfl) (hG.next (hG.declaredParamType hp) fun declared hd => ?_)
    refine hG.first (hG.onHeld fun σ hs _ hσ => ?_) fun s' _ => ih hrest s'
    have h := change_declare (n := σ.size) hs hσ le_rfl p.name
      (hG.stable.paramType cx.arena p hd) .param line
    dsimp only
    split
    · exact h.trans (change_markByReference h.wf h.types p.name)
    · exact h

lemma declareThis {this : Option (Option Ty × Line)}
    (hthis : ∀ r, this = some r → KnownIn P r.1) (s : Scope) :
    G [] [s] (declareThis this s) (fun s => [s]) .any := by
  cases this with
  | none => exact hG.pure trivial (.refl _)
  | some r => exact hG.declare "this" (hthis r rfl) .this r.2

lemma addSuperglobals (extra : List String) (s : Scope) (hv : s.vars = {}) (hc : s.chains = {}) :
    G [] [] (onStore (addSuperglobals extra s)) (fun s => [s]) .any :=
  hG.new hv fun _ hσ _ =>
    change_addSuperglobals hG.stable extra (wf_of_empty hv hc) hσ le_rfl

lemma propagateUsage (names : List String) :
    G.typed [] (propagateUsage names) .any := by
  refine hG.looking (fun _ => rfl) ?_
  split
  · exact hG.onVars fun s σ hs hσ => change_foldl hs hσ fun name _ _ hs hσ =>
      change_markUsed hs hσ name
  · exact hG.pure trivial (.refl _)

lemma capturing (hm : G.typed nodes m r) (line : Line) (uses : List ClosureUse) (s : Scope)
    (id : NodeId) (readIn : Scope → Store → List String) :
    G nodes [s] (capture line uses s >>= fun s => modifyStack (fun stack => stack.push s) >>= fun _ =>
      m >>= fun _ => leaveCapturing id readIn) (fun _ => []) .type := by
  have hclosure : KnownIn P (some .closure) := .some (hG.stable.primitive .closure)
  refine hG.inFunction line uses s id hm fun s => ?_
  cases s with
  | none => exact hG.pure hclosure (.refl _)
  | some s =>
    exact hG.seeing (fun _ => rfl) fun _ _ => hG.result (hG.propagateUsage _) fun _ _ => hclosure

lemma inferClosure (id : NodeId) {fn : ClosureExpr}
    (hfn : ∀ t ∈ fn.params.filterMap (Param.declared? none), t.ResolvesIn P)
    (h : G.Runs ev fn.body) : G.typed fn.body (ev.inferClosure id fn) .type := by
  rw [inferClosure_eq]
  refine hG.looking (fun _ => rfl) (hG.looking (fun _ => rfl) (hG.first hG.isStrict fun _ _ => ?_))
  refine hG.first (hG.addSuperglobals _ _ rfl rfl) fun s _ => ?_
  refine hG.seeing (fun _ => rfl) fun _ _ => hG.seeing (fun _ => rfl) fun st hst => ?_
  refine hG.first (hG.declareThis (fun r hr => ?_) s) fun s _ =>
    hG.first (hG.addParams _ hfn s) fun s _ => hG.capturing h _ _ s id fn.readIn
  obtain ⟨v, hv, rfl⟩ := map_eq_some_iff.1 hr
  split at hv
  · cases hv
  · obtain ⟨k, -, rfl⟩ := map_eq_some_iff.1 hv
    exact hst.store k

lemma inferArrow (id : NodeId) {fn : ArrowExpr}
    (hfn : ∀ t ∈ fn.params.filterMap (Param.declared? none), t.ResolvesIn P)
    (h : G.Infers ev fn.body) : G.typed [fn.body] (ev.inferArrow id fn) .type := by
  rw [inferArrow_eq]
  refine hG.looking (fun _ => rfl) (hG.first hG.isStrict fun _ _ => ?_)
  refine hG.first hG.forkCurrent fun copy _ => ?_
  refine hG.first (hG.onHeldAs (l := []) (fun _ => _) fun σ hs _ hσ =>
    change_captureAll hs hσ _ id fn.isStatic) fun _ _ => ?_
  exact hG.first (hG.addParams _ hfn _) fun s _ =>
    hG.capturing (hG.visit h) 0 [] s id capturedRead

end Holding

end ScopeJudgement

/-! ## Judgements that take no account of scopes -/

/-- Anything may be in hand. -/
abbrev Judgement.held (R : Judgement) : ScopeJudgement :=
  fun _ nodes _ m _ _ => R nodes m

/-- The judgement holds of every basic step except a jump, and around what runs in another scope, in
an anonymous function or in a class. -/
structure Judgement.Structural (cx : Context) (R : Judgement) : Prop
    extends Judgement.Sequential cx R where
  update : ∀ f, R [] (Analysis.onScope f)
  onStore : ∀ {α} (f : Store → α × Store), R [] (onStore f)
  modifyTable : ∀ f, R [] (modifyTable f)
  setCurrent : ∀ s, R [] (modifyStack fun stack => stack.setCurrent s)
  inScope : ∀ {α nodes} {m : Analysis α} (s : Scope), R nodes m → R nodes (inScope s m)
  inFunction : ∀ {α β nodes} {m : Analysis α} {f : Option Scope → Analysis β} (s : Scope)
    (function : NodeId), R nodes m → (∀ o, R [] (f o)) →
    R nodes (modifyStack (fun stack => stack.push s) >>= fun _ => m >>= fun _ =>
      leaveFunction function >>= f)
  inClass : ∀ {α β nodes} {m : Analysis α} (c : ClassContext) (b : β), R nodes m →
    R nodes (modifyStack (fun stack => stack.pushClass c) >>= fun _ => m >>= fun _ =>
      modifyStack Stack.popClass >>= fun _ => Pure.pure b)

namespace Judgement.Structural

variable (hR : R.Structural cx)

include hR

lemma capture (line : Line) (uses : List ClosureUse) (s : Scope) :
    R [] (Analysis.capture line uses s) := by
  induction uses generalizing s with
  | nil => exact hR.pure
  | cons use uses ih =>
    unfold Analysis.capture
    split
    · exact hR.first (hR.reading fun _ => rfl) fun _ => hR.first (hR.onStore _) fun _ =>
        hR.first (hR.setCurrent _) fun _ => hR.first (hR.onStore _) ih
    · exact hR.first (hR.reading fun _ => rfl) fun _ => hR.first (hR.reading fun _ => rfl) fun _ =>
        hR.first (hR.onStore _) ih

lemma holding : R.held.Holding (fun _ => True) cx where
  stable := closed_true.toStable
  mono h hle _ _ := hR.mono h hle
  frame h _ := h
  pure _ _ := hR.pure
  bind hm hf := hR.bind hm fun a => hf a (Result.in_true _ a)
  reads hm hf := hR.reads hm fun st => hf st st.shows_true
  onScope _ := hR.update _
  modifyTable _ := hR.modifyTable _
  new _ _ := hR.onStore _
  onHeldWith _ _ := hR.first (hR.reading fun _ => rfl) fun _ => hR.onStore _
  forkCurrent := hR.first (hR.reading fun _ => rfl) fun _ => hR.onStore _
  branchScopes _ := hR.first (hR.reading fun _ => rfl) fun _ => hR.first (hR.reading fun _ => rfl)
    fun _ => hR.first (hR.onStore _) fun _ => hR.result (hR.onStore _) _
  shortScopes {_ _ _ _ b _ other _ _ _} _ _ hk := by
    have hscopes (t f : Scope) : R [] (FlowTyping.shortScopes b other t f) := by
      cases b <;> exact hR.first (hR.onStore _) fun _ => hR.result (hR.onStore _) _
    exact hR.first (hR.reading fun _ => rfl) fun _ => hR.first (hscopes ..) fun _ => hk ..
  forkAssertions hk hm := by
    refine hR.first (hR.reading fun _ => rfl) fun _ => ?_
    split
    · exact hR.first (hR.onStore _) hk
    · exact hm
  replaceCurrent _ := hR.update _
  inScope := hR.inScope _
  inFunction line uses s function hm hf := hR.first (hR.capture line uses s) fun s =>
    hR.inFunction s function hm hf
  inClass _ := hR.inClass _ _

end Judgement.Structural

/-- The judgement `R` holds around loops and declared functions where `I` holds inside. -/
structure Judgement.Encloses (R I : Judgement) : Prop where
  loop : ∀ {α β nodes} {m : Analysis α} {f : α → List Scope → Analysis β}, I nodes m →
    (∀ a breaks, R [] (f a breaks)) →
    R nodes (enterLoop >>= fun _ => m >>= fun a => leaveLoop >>= f a)
  function : ∀ {α nodes} {m : Analysis α} (s : Scope) (function : NodeId), I nodes m →
    R nodes (do
      let breaks := (← get).breaks
      modify fun st => { st with breaks := [], stack := st.stack.push s }
      let _ ← m
      let _ ← leaveFunction function
      modify fun st => { st with breaks })

lemma Judgement.Encloses.held {I : Judgement} (h : R.Encloses I) :
    R.held.Encloses (fun _ => True) I.held where
  loop hm hf := h.loop hm fun a breaks => hf a breaks (Result.in_true _ a)
  function := h.function

end FlowTyping

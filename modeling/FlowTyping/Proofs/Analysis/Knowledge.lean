import FlowTyping.Proofs.Analysis.Engine
import FlowTyping.Proofs.Analysis.Tests

/-!
# What the scopes of a state know

The steps that start, run and join paths, by what they do to the types that scopes know.  Where some
path falls through, the current scope takes over the join of these paths, and nothing else: what the
other paths did to it before is overwritten.  Where no path falls through, the current scope stays as
it was, with the marks of reading of all paths added.
-/

namespace FlowTyping

open Evaluator List NodeTable Outcome Scope Stack Ty Variable

variable {P : Ty → Prop} {cx : Context} {paths : List Scope} {dead : List Outcome}
  {fallback flow : Flow} {st' : State} {s t : Scope} {σ : Store} {n : Nat} {name : String}
  {id : NodeId}

namespace Analysis

variable {st : State}

/-- The store after the current scope has taken over the reads of the dead branches. -/
def absorbed (st : State) (dead : List Outcome) : Store :=
  (dead.map scope).foldl (fun σ path => st.stack.current.absorbUsage path σ) st.store

lemma rejoin_nil_run :
    rejoin [] dead fallback cx st =
      some (if dead.any fun o => o.flow == .jump then .jump else fallback,
        { st with store := absorbed st dead }) := by
  have hrun : rejoin [] dead fallback cx st =
      some (if dead.any fun o => o.flow == .jump then .jump else fallback,
        { st with store := absorbed st dead, stack := st.stack.setCurrent st.stack.current }) := rfl
  rw [hrun, setCurrent_current]

lemma rejoin_cons_run (first : Scope) (rest : List Scope) :
    rejoin (first :: rest) dead fallback cx st =
      let joined := first.mergeAll rest (absorbed st dead)
      let after := st.stack.current.replaceWith joined.1 joined.2
      some (.normal, { st with store := after.2, stack := st.stack.setCurrent after.1 }) := by
  have hrun : rejoin (first :: rest) dead fallback cx st =
      let joined := first.mergeAll rest (absorbed st dead)
      let stack := st.stack.setCurrent st.stack.current
      let after := stack.current.replaceWith joined.1 joined.2
      some (.normal, { st with store := after.2, stack := stack.setCurrent after.1 }) := rfl
  rw [hrun, setCurrent_current]

/-- Behind branches a name is bound where one of the paths binds it; where there is no path, nothing
changes. -/
lemma contains_rejoin (h : rejoin paths dead fallback cx st = some (flow, st')) (name : String) :
    st'.stack.current.contains name = true ↔
      (∃ p ∈ paths, p.contains name = true) ∨
        paths = [] ∧ st.stack.current.contains name = true := by
  cases paths with
  | nil =>
    cases h
    simp
  | cons first rest =>
    rw [rejoin_cons_run] at h
    cases h
    simp [contains_replaceWith, contains_mergeAll]

end Analysis

lemma Scope.var?_absorbAll (hs : s.Wf P σ) (hσ : σ.TypesIn P) (hwf : ∀ p ∈ paths, p.Wf P σ)
    (hapart : ∀ p ∈ paths, p.Apart s) (name : String) :
    s.var? (paths.foldl (fun σ path => s.absorbUsage path σ) σ) name =
      (s.var? σ name).map (readIf (paths.any fun p => (p.var? σ name).any used)) := by
  induction paths generalizing σ with
  | nil =>
    rw [foldl_nil, any_nil]
    cases s.var? σ name <;> simp [readIf]
  | cons path paths ih =>
    rw [forall_mem_cons] at hwf hapart
    have hc := change_absorbUsage (n := σ.size) hs hσ path
    -- What one path says does not depend on what the others left behind.
    have hrest : ∀ p ∈ paths, p.var? (s.absorbUsage path σ) name = p.var? σ name := fun p hp =>
      hc.var?_eq (fun _ hk => (hwf.2 p hp).lt hk) (hapart.2 p hp) name
    have hany : (paths.any fun p => (p.var? (s.absorbUsage path σ) name).any used) =
        paths.any fun p => (p.var? σ name).any used := by
      rw [Bool.eq_iff_iff, any_eq_true, any_eq_true]
      exact exists_congr fun p => and_congr_right fun hp => by rw [hrest p hp]
    rw [foldl_cons, ih hc.wf hc.types (fun p hp => (hwf.2 p hp).mono hc.size_le) hapart.2,
      hany, var?_absorbUsage hs hwf.1 hapart.1, Option.map_map, any_cons]
    congr 1
    funext v
    simp [readIf, Bool.or_assoc]

namespace Analysis

variable {st : State}

/-- Where no path falls through, the current scope keeps its variables and takes over the reads. -/
lemma var?_rejoin_nil (hst : st.Wf P) (hl : Held P n st (dead.map scope))
    (h : rejoin [] dead fallback cx st = some (flow, st')) (name : String) :
    st'.stack.current.var? st'.store name =
      (st.stack.current.var? st.store name).map
        (readIf (dead.any fun o => (o.scope.var? st.store name).any used)) := by
  rw [rejoin_nil_run] at h
  cases h
  have hapart : ∀ p ∈ dead.map scope, p.Apart st.stack.current := fun p hp =>
    hl.stack p hp _ st.stack.current_mem_scopes
  have := var?_absorbAll hst.current hst.types hl.wf hapart name
  rwa [any_map] at this

lemma var?_rejoin_cons (hP : Closed P) {first : Scope} {rest : List Scope} (hst : st.Wf P)
    (hl : Held P n st (first :: rest))
    (h : rejoin (first :: rest) dead fallback cx st = some (flow, st')) (name : String) :
    st'.stack.current.var? st'.store name =
      joinVars? ((first :: rest).map fun p => p.var? st.store name) := by
  rw [rejoin_cons_run] at h
  cases h
  have hapart : ∀ p ∈ first :: rest, p.Apart st.stack.current := fun p hp =>
    hl.stack p hp _ st.stack.current_mem_scopes
  have hpair := pairwise_cons.1 hl.pairwise
  -- Marking reads writes to the current scope alone, which the paths are apart from.
  have hc := change_absorbAll (n := st.store.size) hst.current hst.types (dead.map scope)
  have hwf : ∀ p ∈ first :: rest, p.Wf P (absorbed st dead) := fun p hp =>
    (hl.wf p hp).mono hc.size_le
  have hsame : ∀ p ∈ first :: rest, p.var? (absorbed st dead) name = p.var? st.store name :=
    fun p hp => hc.var?_eq (fun _ hk => (hl.wf p hp).lt hk) (hapart p hp) name
  rw [forall_mem_cons] at hwf
  have hm := change_mergeAll (n := (absorbed st dead).size) hP.join hwf.1 hwf.2 hc.types
    le_rfl
  have hjoined := hm.apart (fun _ hk => hc.wf.lt hk) (hapart first (.head _)).symm
  rw [current_setCurrent, var?_replaceWith (hc.wf.mono hm.size_le).placed hm.wf.placed.nodup
    hjoined.symm,
    var?_mergeAll hP.join hwf.1 hwf.2 hc.types (fun p hp => (hpair.1 p hp).symm) hpair.2]
  rw [forall_mem_cons] at hsame
  rw [hsame.1, map_congr_left hsame.2, map_cons]

end Analysis

/-! ## Marks of reading -/

/-- Whether the name is bound to a variable that is marked as read. -/
def Scope.reads (s : Scope) (σ : Store) (name : String) : Bool :=
  (s.var? σ name).any used

lemma Scope.any_used_joinVar? (a b : Option Variable) :
    (joinVar? a b).any used = (a.any used || b.any used) := by
  cases a <;> cases b <;> simp [joinVar?, mergeVar]

lemma Scope.any_used_joinVars? (vars : List (Option Variable)) :
    (joinVars? vars).any used = vars.any fun v => v.any used := by
  have hfold : ∀ acc : Option Variable, (vars.foldl joinVar? acc).any used =
      (acc.any used || vars.any fun v => v.any used) := by
    induction vars with
    | nil => simp
    | cons v vars ih =>
      intro acc
      rw [foldl_cons, ih, any_used_joinVar?, any_cons, Bool.or_assoc]
  exact hfold none

namespace Analysis

variable {st : State}

/-- Behind branches a variable is marked as read exactly where a path that falls through ends with
the mark, or where no path falls through and it had the mark or some path ends with it. -/
lemma reads_rejoin_iff (hP : Closed P) (hst : st.Wf P) (hl : Held P n st (paths ++ dead.map scope))
    (h : rejoin paths dead fallback cx st = some (flow, st'))
    (hbound : st'.stack.current.contains name = true) :
    st'.stack.current.reads st'.store name = true ↔
      (∃ p ∈ paths, p.reads st.store name = true) ∨
        paths = [] ∧ (st.stack.current.reads st.store name = true ∨
          ∃ o ∈ dead, o.scope.reads st.store name = true) := by
  cases paths with
  | nil =>
    rw [contains_rejoin h] at hbound
    have hcurrent : st.stack.current.contains name = true := by simpa using hbound
    obtain ⟨slot, hslot⟩ := Option.isSome_iff_exists.1 hcurrent
    have hvar : st.stack.current.var? st.store name = some (st.store.read slot) := by
      rw [var?, slot?, hslot]
      rfl
    rw [reads, var?_rejoin_nil hst hl h, reads, hvar]
    simp [readIf, reads]
  | cons first rest =>
    have hpaths := hl.sublist (sublist_append_left (first :: rest) (dead.map scope))
    rw [reads, var?_rejoin_cons hP hst hpaths h, any_used_joinVars?, any_map]
    simp [reads]

end Analysis

/-! ## The scope around branches -/

namespace Evaluator

open Analysis

lemma fixes_checkIn (ev : Evaluator) (s : Scope) (stmts : List NodeId) :
    Fixes cx (fun st => st.stack.current) (ev.checkIn s stmts) :=
  fixes_inScope.bind fun _ => .pure

lemma fixes_catchStart (entry : Scope) (line : Line) (clause : CatchClause) :
    Fixes cx (fun st => st.stack.current) (catchStart entry line clause) := by
  refine Fixes.bind (.onStore fun _ _ => rfl) fun s => ?_
  have hcatch : Fixes cx (fun st => st.stack.current) (catchType clause.types) := by
    refine Fixes.bind (.of_run fun _ => rfl) fun stack => ?_
    split <;> exact .pure
  split
  · exact hcatch.bind fun _ => .onStore fun _ _ => rfl
  · exact .pure

lemma fixes_checkCatches (ev : Evaluator) (entry : Scope) (line : Line)
    (clauses : List CatchClause) :
    Fixes cx (fun st => st.stack.current) (ev.checkCatches entry line clauses) := by
  induction clauses with
  | nil => exact .pure
  | cons clause clauses ih =>
    rw [checkCatches_cons]
    refine (fixes_catchStart entry line clause).bind fun s => ?_
    exact (fixes_checkIn ev s clause.body).bind fun _ => ih.bind fun _ => .pure

lemma fixes_tryOutcomes (ev : Evaluator) (id : NodeId) (body : List NodeId)
    (catches : List CatchClause) :
    Fixes cx (fun st => st.stack.current) (ev.tryOutcomes id body catches) := by
  refine Fixes.bind (.of_run fun _ => rfl) fun line => ?_
  refine (fixes_forkCurrent fun _ _ => rfl).bind fun entry => ?_
  refine Fixes.bind (.onStore fun _ _ => rfl) fun s => (fixes_checkIn ev s body).bind fun first => ?_
  refine Fixes.bind (.onStore fun _ _ => rfl) fun catchEntry => ?_
  exact (fixes_checkCatches ev catchEntry line catches).bind fun _ => .pure

end Evaluator

open Analysis List Option Scope

variable {st st1 : State} {l : List Scope} {a f : Scope}

/-- What the current scope knows. -/
def State.known (st : State) : Typing :=
  st.stack.current.known st.store

/-- What is known on an outcome of a condition. -/
def State.outcome (st : State) (id : NodeId) (outcome : Bool) : Typing :=
  ((st.assumed id outcome).getD st.stack.current).known st.store

lemma Adds.known (h : Adds st st') (hst : st.Wf P) : st'.known = st.known := by
  rw [State.known, h.stack, h.known_eq hst.current]
  rfl

lemma State.outcome_of_assumed_none {outcome : Bool} (h : st.assumed id outcome = none) :
    st.outcome id outcome = st.known := by
  rw [State.outcome, h]
  rfl

lemma State.outcome_eq (st : State) (id : NodeId) (outcome : Bool) :
    st.outcome id outcome = ((st.assumed id outcome).map (·.known st.store)).getD st.known := by
  rw [State.outcome]
  cases st.assumed id outcome <;> rfl

lemma State.Wf.assumed (hst : st.Wf P) {outcome : Bool} (h : st.assumed id outcome = some s) :
    s.Wf P st.store := by
  obtain ⟨a, ha, hs⟩ := bind_eq_some_iff.1 h
  refine hst.table.of_get? ha s ?_
  cases outcome
  · exact mem_append_right _ (mem_toList.2 hs)
  · exact mem_append_left _ (mem_toList.2 hs)

lemma State.Wf.getD_assumed (hst : st.Wf P) (hs : s.Wf P st.store) (id : NodeId) (outcome : Bool) :
    ((st.assumed id outcome).getD s).Wf P st.store := by
  cases h : st.assumed id outcome with
  | none => exact hs
  | some t => exact hst.assumed h

/-! ## Reads -/

lemma Scope.reads_markUsed (hs : s.Wf P σ) (h : s.contains name = true) :
    s.reads (s.markUsed σ name) name = true := by
  obtain ⟨slot, hslot⟩ := isSome_iff_exists.1 h
  have hvar : s.var? σ name = some (σ.read slot) := by
    rw [var?, slot?, hslot]
    rfl
  rw [reads, markUsed, var?_updateVar hs, if_pos rfl, hvar]
  rfl

lemma reads_of_inferVar (hP : Closed P) {type : Option Ty} (hst : st.Wf P)
    (hbound : st.stack.current.contains name = true)
    (h : inferVar id name cx st = some (type, st')) :
    st'.stack.current.reads st'.store name = true := by
  obtain ⟨htype, htruth⟩ := narrowTruthiness_of_inferVar hst h
  have hknown : KnownIn P type := by
    rw [htype, ← typeOf?_eq_known]
    exact hst.types.typeOf? _ name
  have hmarked := hst.markRead name
  have hadds := adds_narrowTruthiness hP hmarked hknown htruth
  rw [hadds.stack, reads, hadds.var?_eq hmarked.current]
  exact reads_markUsed hst.current hbound

/-! ## New scopes -/

lemma adds_fork (s : Scope) (st : State) : Adds st { st with store := (s.fork st.store).2 } :=
  ⟨rfl, rfl, rfl, rfl, size_le_size_fork, fun _ hk => read_fork_of_lt hk⟩

lemma adds_merged (hP : Closed P) {b : Scope} (hst : st.Wf P) (ha : a.Wf P st.store)
    (hb : b.Wf P st.store) : Adds st { st with store := (merged a b st.store).2 } := by
  have h := change_merged (t := {}) hP.join ha hb hst.types le_rfl
  exact ⟨rfl, rfl, rfl, rfl, h.size_le, fun k hk => h.read_eq k hk fun ⟨_, hname⟩ => nomatch hname⟩

namespace Analysis

lemma forkScope_known (hst : st.Wf P) (hl : Held P 0 st l) (hs : s.Wf P st.store)
    (h : forkScope s cx st = some (t, st')) :
    Adds st st' ∧ st'.table = st.table ∧ st'.Wf P ∧ Held P 0 st' (t :: l) ∧
      t.known st'.store = s.known st.store := by
  obtain ⟨rfl, rfl⟩ := Prod.mk.inj (some.inj h)
  obtain ⟨hstep, hheld⟩ := held_fork hst (Nat.zero_le _) hl hs
  exact ⟨adds_fork s st, rfl, hstep.wf, hheld, known_fork hs⟩

lemma merged_known (hP : Closed P) {b : Scope} (hst : st.Wf P) (hl : Held P 0 st l)
    (ha : a.Wf P st.store) (hb : b.Wf P st.store)
    (h : onStore (merged a b) cx st = some (t, st')) :
    Adds st st' ∧ st'.table = st.table ∧ st'.Wf P ∧ Held P 0 st' (t :: l) ∧
      t.known st'.store = (a.known st.store).join (b.known st.store) := by
  obtain ⟨rfl, rfl⟩ := Prod.mk.inj (some.inj h)
  obtain ⟨hstep, hheld⟩ := held_merged hP.join hst (Nat.zero_le _) hl ha hb
  exact ⟨adds_merged hP hst ha hb, rfl, hstep.wf, hheld, known_merged ha hb⟩

lemma forkScope?_known (st : State) {o : Option Scope} (ho : ∀ s ∈ o.toList, s.Wf P st.store) :
    Adds st { st with store := (Assertions.forkScope o st.store).2 } ∧
      (∀ s ∈ (Assertions.forkScope o st.store).1, s.Wf P (Assertions.forkScope o st.store).2) ∧
      (Assertions.forkScope o st.store).1.map (·.known (Assertions.forkScope o st.store).2) =
        o.map (·.known st.store) := by
  cases o with
  | none => exact ⟨.refl st, by simp [Assertions.forkScope], rfl⟩
  | some s =>
    have hs : s.Wf P st.store := ho s (by simp)
    refine ⟨adds_fork s st, fun t ht => ?_, congrArg some (known_fork hs)⟩
    cases ht
    exact wf_fork hs

lemma forkAssertions_known {a copy : Assertions} (ha : ∀ s ∈ a.scopes, s.Wf P st.store)
    (h : onStore a.fork cx st = some (copy, st')) :
    Adds st st' ∧ st'.table = st.table ∧ ∀ outcome,
      (copy.on outcome).map (·.known st'.store) = (a.on outcome).map (·.known st.store) := by
  have htrue := fun s hs => ha s (mem_append_left _ hs)
  have hfalse := fun s hs => ha s (mem_append_right _ hs)
  obtain ⟨rfl, rfl⟩ := Prod.mk.inj (some.inj h)
  obtain ⟨hadds1, hwf1, hknown1⟩ := forkScope?_known st htrue
  obtain ⟨hadds2, -, hknown2⟩ := forkScope?_known
    { st with store := (Assertions.forkScope a.whenTrue st.store).2 }
    fun s hs => (hfalse s hs).mono hadds1.size_le
  refine ⟨hadds1.trans hadds2, rfl, fun outcome => ?_⟩
  cases outcome with
  | false =>
    refine hknown2.trans (map_congr fun s hs => ?_)
    exact hadds1.known_eq (hfalse s (mem_toList.2 hs))
  | true =>
    refine Eq.trans (map_congr fun s hs => ?_) hknown1
    exact hadds2.known_eq (hwf1 s hs)

/-- The scopes that branches start from know what the outcomes of the condition say.  The one on
outcome `b` comes first. -/
lemma branchScopes_known {b : Bool} (hst : st.Wf P) (hl : Held P 0 st l)
    (h : branchScopes id cx st = some (if b then (t, f) else (f, t), st')) :
    Adds st st' ∧ st'.table = st.table ∧ st'.Wf P ∧ Held P 0 st' (t :: f :: l) ∧
      t.known st'.store = st.outcome id b ∧ f.known st'.store = st.outcome id !b := by
  have htrue := hst.getD_assumed hst.current id true
  have hfalse := hst.getD_assumed hst.current id false
  obtain ⟨hpair, rfl⟩ := Prod.mk.inj (some.inj h)
  obtain ⟨hadds1, -, hst1, hl1, hknown1⟩ :=
    forkScope_known hst hl htrue (show forkScope _ cx st = some _ from rfl)
  obtain ⟨hadds2, -, hst2, hl2, hknown2⟩ := forkScope_known hst1 hl1
    (hfalse.mono hadds1.size_le) (show forkScope _ cx _ = some _ from rfl)
  rw [hadds1.known_eq hfalse] at hknown2
  rw [← hadds2.known_eq (hl1.wf _ (.head _))] at hknown1
  cases b with
  | true =>
    cases hpair
    exact ⟨hadds1.trans hadds2, rfl, hst2, hl2.perm (.swap ..), hknown1, hknown2⟩
  | false =>
    cases hpair
    exact ⟨hadds1.trans hadds2, rfl, hst2, hl2, hknown2, hknown1⟩

/-! ## Running and joining paths -/

/-- A run in the scope `s`, which is `after` at its end.  Inside, the state is `inner` at the end. -/
structure RanIn (P : Ty → Prop) (s after : Scope) (st inner st' : State) : Prop where
  entered : (st.within s).Wf P
  left : inner.Wf P
  after_eq : after = inner.stack.current
  store : st'.store = inner.store
  table : st'.table = inner.table
  depth : st'.depth = st.depth
  wf : st'.Wf P
  known : st'.known = st.known

lemma inScope_known {α : Type} {after : Scope} {m : Analysis α} {l' : α → List Scope}
    {Q : α → Prop} {a : α} (hst : st.Fit P) (hl : Held P 0 st (s :: l)) (hm : Gives P cx [] m l' Q)
    (h : inScope s m cx st = some ((a, after), st')) :
    ∃ inner, m cx (st.within s) = some (a, inner) ∧ RanIn P s after st inner st' ∧
      Held P 0 st' (after :: (l' a ++ l)) ∧ ∀ t ∈ l, t.known st'.store = t.known st.store := by
  obtain ⟨-, hheld, -⟩ := gives_inScope hm l hst (Nat.zero_le _) hl h
  obtain ⟨inner, hrun, rfl, rfl⟩ := inScope_eq_some.1 h
  have hwithin := hst.within hl
  obtain ⟨hinner, -, -⟩ := hm [] hwithin (Nat.le_refl _) .nil hrun
  obtain ⟨hstep, -, hstack⟩ := Step.of_within hst.toWf (Nat.zero_le _) hl hinner
  have hknown : ∀ t : Scope, t.Wf P st.store → t.Apart s →
      t.known inner.store = t.known st.store := by
    intro t ht hts
    funext name
    rw [known, hinner.var?_eq (fun _ hk => ht.lt hk) (by simpa [State.within] using hts)]
    rfl
  have hs := mem_cons_self (a := s) (l := l)
  have hcurrent : (inner.within st.stack.current).known = st.known := by
    rw [State.known, hstack]
    exact hknown _ hst.current (hl.stack s hs _ st.stack.current_mem_scopes).symm
  refine ⟨inner, hrun, ⟨hwithin.toWf, hinner.wf, rfl, rfl, rfl, hstep.depth, hstep.wf, hcurrent⟩, hheld,
    fun t ht => ?_⟩
  exact hknown t (hl.wf t (.tail _ ht))
    ((pairwise_cons.1 hl.pairwise).1 t ht).symm

lemma mergeIntoCurrent_known (hP : Closed P) (hst : st.Wf P) (hl : Held P 0 st (s :: l))
    (h : mergeIntoCurrent s cx st = some ((), st')) :
    st'.Wf P ∧ st'.table = st.table ∧ Held P 0 st' (s :: l) ∧
      st'.known = st.known.join (s.known st.store) ∧
      ∀ t ∈ l, t.known st'.store = t.known st.store := by
  have hs := mem_cons_self (a := s) (l := l)
  have hrun : st' = { st with
      store := (st.stack.current.merge s st.store).2
      stack := st.stack.setCurrent (st.stack.current.merge s st.store).1 } :=
    (Prod.mk.inj (some.inj h)).2.symm
  obtain ⟨hstep0, hheld, -⟩ := (giving_holding hP.toStable).mergeIntoCurrent
    (mem_singleton_self s) l (hst.fit hP.ofName) (Nat.zero_le _) hl h
  have hc := change_merge hP.join hst.current (hl.wf s hs) hst.types (Nat.le_refl _)
  refine ⟨hstep0.wf, by rw [hrun], hheld, ?_, fun t ht => ?_⟩
  · rw [hrun, State.known, current_setCurrent]
    exact known_merge hst.current (hl.wf s hs) (hl.stack s hs _ st.stack.current_mem_scopes)
  · rw [hrun]
    funext name
    have ht' := mem_cons_of_mem s ht
    rw [known, hc.var?_eq (fun _ hk => (hl.wf t ht').lt hk)
      (hl.stack t ht' _ st.stack.current_mem_scopes)]
    rfl

end Analysis

lemma Scope.known_joinVars? (scopes : List Scope) (σ : Store) :
    (fun name => (joinVars? (scopes.map fun p => p.var? σ name)).map type) =
      (scopes.map fun p => p.known σ).foldl Typing.join fun _ => none := by
  have hfold : ∀ acc : String → Option Variable,
      (fun name => ((scopes.map fun p => p.var? σ name).foldl joinVar? (acc name)).map
        type) =
      (scopes.map fun p => p.known σ).foldl Typing.join fun name => (acc name).map type := by
    induction scopes with
    | nil => exact fun _ => rfl
    | cons s scopes ih =>
      intro acc
      have hjoin : Typing.join (fun name => (acc name).map type) (s.known σ) =
          fun name => (joinVar? (acc name) (s.var? σ name)).map type := by
        funext name
        rw [map_type_joinVar?]
        rfl
      rw [map_cons, foldl_cons, hjoin, ← ih]
      rfl
  exact hfold fun _ => none

namespace Analysis

/-- Behind branches the current scope knows the join of what the paths know that fall through; where
there is none, it knows what it knew. -/
lemma known_rejoin (hP : Closed P) (hst : st.Wf P) (hl : Held P 0 st (paths ++ dead.map scope))
    (h : rejoin paths dead fallback cx st = some (flow, st')) :
    st'.table = st.table ∧
      (paths = [] ∧ st'.known = st.known ∨ paths ≠ [] ∧ flow = .normal ∧
        st'.known = (paths.map fun p => p.known st.store).foldl Typing.join fun _ => none) := by
  cases paths with
  | nil =>
    have hvar := var?_rejoin_nil hst hl h
    cases h
    refine ⟨rfl, .inl ⟨rfl, ?_⟩⟩
    funext name
    rw [State.known, known, hvar name, Option.map_map]
    rfl
  | cons first rest =>
    have hvar := var?_rejoin_cons hP hst
      (hl.sublist (sublist_append_left (first :: rest) (dead.map scope))) h
    cases h
    refine ⟨rfl, .inr ⟨cons_ne_nil _ _, rfl, ?_⟩⟩
    rw [← known_joinVars?]
    funext name
    rw [State.known, known, hvar name]

end Analysis

/-! ## Short circuits -/

section ShortCircuit

variable {ev : Evaluator} {b : Bool} {left right : NodeId} {type : Option Ty}

lemma inferShort_cases (h : ev.inferShort b id left right cx st = some (type, st')) :
    ∃ st1 entry other st2 rightType after st3 whenTrue whenFalse st4 st5,
      ev.visit left cx st = some ((), st1) ∧
      branchScopes left cx st1 = some (if b then (entry, other) else (other, entry), st2) ∧
      inScope entry (ev.infer right) cx st2 = some ((rightType, after), st3) ∧
      shortScopes b other ((st3.assumed right true).getD after) ((st3.assumed right false).getD after)
        cx st3 = some ((whenTrue, whenFalse), st4) ∧
      mergeIntoCurrent after cx st4 = some ((), st5) ∧
      (st' = st5 ∨ st' =
        { st5 with table := st5.table.setAssertions id ⟨some whenTrue, some whenFalse⟩ }) := by
  rw [inferShort_eq] at h
  obtain ⟨⟨⟩, st1, hvisit, h⟩ := of_bind h
  obtain ⟨branches, st2, hbranch, h⟩ := of_bind h
  obtain ⟨⟨rightType, after⟩, st3, hrun, h⟩ := of_bind h
  replace h := bind_rest h rfl
  obtain ⟨⟨whenTrue, whenFalse⟩, st4, hscopes, h⟩ := of_bind h
  obtain ⟨⟨⟩, st5, hmerge, h⟩ := of_bind h
  refine ⟨st1, _, _, st2, rightType, after, st3, whenTrue, whenFalse, st4, st5, hvisit, ?_, hrun,
    hscopes, hmerge, ?_⟩
  · rw [hbranch]
    cases b <;> rfl
  · split at h
    exacts [.inr (Prod.mk.inj (some.inj h)).2.symm,
      .inl (Prod.mk.inj (some.inj h)).2.symm]

lemma shortScopes_known {after other whenTrue whenFalse : Scope} (hst : st.Wf fun _ => True)
    (hl : st.Holds [after, other]) (ht : t.Wf (fun _ => True) st.store)
    (hf : f.Wf (fun _ => True) st.store)
    (h : shortScopes b other t f cx st = some ((whenTrue, whenFalse), st')) :
    Adds st st' ∧ st'.table = st.table ∧ st'.Wf (fun _ => True) ∧
      st'.Holds [whenFalse, whenTrue, after, other] ∧
      whenTrue.known st'.store =
        (if b then t.known st.store else (other.known st.store).join (t.known st.store)) ∧
      whenFalse.known st'.store =
        (if b then (other.known st.store).join (f.known st.store) else f.known st.store) := by
  have hother := hl.wf other (by simp)
  cases b with
  | true =>
    obtain ⟨first, st1, hfork, hrest⟩ := of_bind h
    obtain ⟨second, hmerged, heq⟩ := of_result hrest
    cases heq
    obtain ⟨hadds1, htable1, hst1, hl1, hknown1⟩ := forkScope_known hst hl ht hfork
    obtain ⟨hadds2, htable2, hst2, hl2, hknown2⟩ := merged_known closed_true hst1 hl1
      (hother.mono hadds1.size_le) (hf.mono hadds1.size_le) hmerged
    refine ⟨hadds1.trans hadds2, htable2.trans htable1, hst2, hl2, ?_, ?_⟩
    · rw [hadds2.known_eq (hl1.wf whenTrue (by simp)), hknown1, if_pos rfl]
    · rw [hknown2, hadds1.known_eq hother, hadds1.known_eq hf, if_pos rfl]
  | false =>
    obtain ⟨first, st1, hmerged, hrest⟩ := of_bind h
    obtain ⟨second, hfork, heq⟩ := of_result hrest
    cases heq
    obtain ⟨hadds1, htable1, hst1, hl1, hknown1⟩ :=
      merged_known closed_true hst hl hother ht hmerged
    obtain ⟨hadds2, htable2, hst2, hl2, hknown2⟩ :=
      forkScope_known hst1 hl1 (hf.mono hadds1.size_le) hfork
    refine ⟨hadds1.trans hadds2, htable2.trans htable1, hst2, hl2, ?_, ?_⟩
    · rw [hadds2.known_eq (hl1.wf whenTrue (by simp)), hknown1, if_neg Bool.false_ne_true]
    · rw [hknown2, hadds1.known_eq hf, if_neg Bool.false_ne_true]

end ShortCircuit

/-! ## Facts about nodes -/

/-- The step changes the facts about the given nodes only. -/
structure Touches (nodes : List NodeId) (st st' : State) : Prop where
  types : ∀ id, id ∉ nodes → st'.table.types.get? id = st.table.types.get? id
  assertions : ∀ id, id ∉ nodes → st'.table.assertions.get? id = st.table.assertions.get? id

/-- Nothing is known of the given nodes. -/
def Fresh (nodes : List NodeId) (st : State) : Prop :=
  ∀ id ∈ nodes, st.table.types.get? id = none ∧ st.table.assertions.get? id = none

namespace Touches

variable {nodes nodes' : List NodeId} {st'' : State}

lemma of_table (h : st'.table = st.table) : Touches nodes st st' :=
  ⟨fun _ _ => by rw [h], fun _ _ => by rw [h]⟩

lemma trans (h : Touches nodes st st') (h' : Touches nodes' st' st'') :
    Touches (nodes ++ nodes') st st'' := by
  constructor
  · intro id hid
    rw [mem_append, not_or] at hid
    rw [h'.types id hid.2, h.types id hid.1]
  · intro id hid
    rw [mem_append, not_or] at hid
    rw [h'.assertions id hid.2, h.assertions id hid.1]

lemma mono (h : Touches nodes st st') (hsub : ∀ id ∈ nodes, id ∈ nodes') :
    Touches nodes' st st' :=
  ⟨fun id hid => h.types id (mt (hsub id) hid), fun id hid => h.assertions id (mt (hsub id) hid)⟩

lemma setAssertions (st : State) (id : NodeId) (a : Assertions) :
    Touches [id] st { st with table := st.table.setAssertions id a } := by
  refine ⟨fun other _ => by rw [types_setAssertions], fun other hother => ?_⟩
  rw [get?_setAssertions, if_neg fun h => hother (mem_singleton.2 h.symm)]

lemma congr {st1' : State} (h : Touches nodes st st') (hst : st1.table = st.table)
    (hst' : st1'.table = st'.table) : Touches nodes st1 st1' :=
  ⟨fun id hid => by rw [hst, hst', h.types id hid],
    fun id hid => by rw [hst, hst', h.assertions id hid]⟩

lemma tested {Δ : Bool → Typing} (h : Touches nodes st st') (htested : Tested P id Δ st' st'') :
    Touches (id :: nodes) st st'' := by
  refine ⟨fun other hother => ?_, fun other hother => ?_⟩ <;> rw [mem_cons, not_or] at hother
  · rw [htested.types, h.types other hother.2]
  · rw [htested.others other hother.1, h.assertions other hother.2]

end Touches

namespace Fresh

variable {nodes nodes' : List NodeId}

lemma mono (h : Fresh nodes st) (hsub : ∀ id ∈ nodes', id ∈ nodes) : Fresh nodes' st :=
  fun id hid => h id (hsub id hid)

lemma tail (h : Fresh (id :: nodes) st) : Fresh nodes st :=
  h.mono fun _ => mem_cons_of_mem _

lemma untested (h : Fresh (id :: nodes) st) : st.table.assertions.get? id = none :=
  (h id (.head _)).2

lemma touches (h : Fresh nodes st) (ht : Touches nodes' st st')
    (hdisjoint : ∀ id ∈ nodes, id ∉ nodes') : Fresh nodes st' := fun id hid => by
  rw [ht.types id (hdisjoint id hid), ht.assertions id (hdisjoint id hid)]
  exact h id hid

lemma after (h : Fresh (nodes ++ nodes') st) (ht : Touches nodes st st')
    (hdisjoint : nodes.Disjoint nodes') : Fresh nodes' st' :=
  (h.mono fun _ => mem_append_right _).touches ht fun _ hid hid' => hdisjoint hid' hid

lemma congr (h : Fresh nodes st) (hst : st1.table = st.table) : Fresh nodes st1 :=
  fun id hid => by rw [hst]; exact h id hid

end Fresh

end FlowTyping

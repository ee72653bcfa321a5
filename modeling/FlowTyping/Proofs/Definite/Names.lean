import FlowTyping.Proofs.Check.FinallyScope
import FlowTyping.Proofs.Control.Balance
import FlowTyping.Proofs.Definite.Program
import FlowTyping.Proofs.Flow.Returns

/-!
# Names that paths have bound

The names that are bound at a point of the analysis, compared with what the paths to it assign.
-/

namespace FlowTyping

open Analysis List Scope Dict

variable {s : Scope} {x v : String} {st st' : State} {id : NodeId} {cx : Context} {N M : Set String}
  {passed : List NodeId} {upTo : NodeId → Language String}

/-! ## Names in scopes -/

namespace Scope

variable {other : Scope} {σ : Store} {name : String} {k : Slot}

/-- The names that are bound. -/
def names (s : Scope) : Set String :=
  {x | s.contains x = true}

lemma mem_names : x ∈ s.names ↔ s.contains x = true :=
  Iff.rfl

lemma names_congr (h : ∀ x, s.contains x = other.contains x) : s.names = other.names := by
  ext x
  rw [mem_names, mem_names, h]

lemma names_of_insert (h : s.vars = other.vars.insert name k) :
    s.names = insert name other.names := by
  ext x
  rw [Set.mem_insert_iff, mem_names, mem_names, contains, contains, h, Dict.contains, get?_insert]
  by_cases hx : x = name
  · simp [hx]
  · simp [hx, Dict.contains]

@[simp]
lemma names_fork : (s.fork σ).1.names = s.names := by
  ext x
  rw [mem_names, mem_names, contains, contains, contains_iff, contains_iff, keys_fork]

@[simp]
lemma names_merge : (s.merge other σ).1.names = s.names ∪ other.names :=
  Set.ext contains_merge

@[simp]
lemma names_merged : (s.merged other σ).1.names = s.names ∪ other.names := by
  rw [merged, names_merge, names_fork]

@[simp]
lemma names_replaceWith : (s.replaceWith other σ).1.names = other.names :=
  names_congr fun x => contains_replaceWith other x

@[simp]
lemma names_declare (name : String) (type : Option Ty) (kind : VarKind) (line : Line) :
    (s.declare σ name type kind line).1.names = insert name s.names :=
  names_of_insert rfl

lemma insert_names_of_slot (h : s.slot? name = some k) :
    insert name s.names = s.names := by
  refine Set.insert_eq_of_mem ?_
  rw [mem_names, contains, Dict.contains]
  exact Option.isSome_iff_exists.2 ⟨k, h⟩

@[simp]
lemma names_assign (name : String) (type : Option Ty) (line : Line) :
    (s.assign σ name type line).1.names = insert name s.names := by
  unfold assign
  split
  · next h => exact (insert_names_of_slot h).symm
  · exact names_of_insert rfl

@[simp]
lemma names_narrow (name : String) (type : Ty) (line : Line) :
    (s.narrow σ name type line).1.names = insert name s.names := by
  unfold narrow
  split
  · next h => exact (insert_names_of_slot h).symm
  · exact names_declare ..

@[simp]
lemma names_overrideType (name : String) (type : Ty) (line : Line) :
    (s.overrideType σ name type line).1.names = insert name s.names := by
  unfold overrideType
  split
  · next h => exact (insert_names_of_slot h).symm
  · exact names_assign ..

@[simp]
lemma names_ensure (name : String) (line : Line) :
    (s.ensure σ name line).2.1.names = insert name s.names := by
  unfold ensure
  split
  · next h => exact (insert_names_of_slot h).symm
  · exact names_of_insert rfl

@[simp]
lemma names_setChain (key : String) (type : Option Ty) : (s.setChain key type).names = s.names := by
  unfold setChain
  cases type <;> rfl

lemma names_subset_narrowIn (r : Reference) (type : Option Ty) (define : Bool) (line : Line) :
    s.names ⊆ (r.narrowIn type define line s σ).1.names := by
  unfold Reference.narrowIn
  split
  · split
    · exact (names_narrow ..).symm ▸ Set.subset_insert ..
    · exact subset_rfl
  · split
    · exact (names_ensure ..).symm ▸ Set.subset_insert ..
    · exact subset_rfl
  · exact (names_setChain ..).symm ▸ subset_rfl
  · exact subset_rfl

end Scope

/-- The names that were bound where a node was evaluated. -/
def Visit.names (visit : Visit) : Set String :=
  {x | visit.scope.contains x = true}

namespace State

variable (st : State)

/-- The names that are bound. -/
def bound : Set String :=
  st.stack.current.names

/-- The names that are bound where a condition has come out like this. -/
def boundOn (id : NodeId) (outcome : Bool) : Set String :=
  ((st.assumed id outcome).getD st.stack.current).names

lemma names_visitOf (id : NodeId) (type : Option Ty) : (st.visitOf id type).names = st.bound :=
  Set.ext fun x => by
    show (st.stack.current.view st.store).contains x = true ↔ _
    rw [contains_view]
    rfl

lemma bound_congr {st st' : State} (h : st'.stack = st.stack) : st'.bound = st.bound :=
  congrArg (fun stack => stack.current.names) h

@[simp]
lemma bound_within (s : Scope) : (st.within s).bound = s.names := by
  rw [bound, within, Stack.current_setCurrent]

/-- The names that are bound where conditions, of which the last one decides, have come out like
this. -/
def boundWhere (condition : List NodeId) (outcome : Bool) : Set String :=
  match condition.getLast? with
  | some last => st.boundOn last outcome
  | none => st.bound

lemma boundOn_of_silent {st : State} (h : st.table.assertions.get? id = none) (outcome : Bool) :
    st.boundOn id outcome = st.bound := by
  rw [boundOn, assumed_eq_none h]
  rfl

lemma boundOn_leaveNode {st : State} {other : NodeId} {type : Option Ty} (outcome : Bool) :
    (st.leaveNode id type).boundOn other outcome = st.boundOn other outcome := by
  unfold boundOn assumed
  rw [assertions_leaveNode]
  rfl

end State

lemma Assertions.names_on_fork (a : Assertions) (σ : Store) (s : Scope) (outcome : Bool) :
    (((a.fork σ).1.on outcome).getD s).names = ((a.on outcome).getD s).names := by
  obtain ⟨whenTrue, whenFalse⟩ := a
  cases outcome
  · cases whenFalse with
    | none => rfl
    | some f => exact names_fork
  · cases whenTrue with
    | none => rfl
    | some t => exact names_fork

lemma Context.isVar_of_varName? {target : NodeId} (h : cx.arena.varName? target = some x) :
    cx.IsVar target x := by
  unfold Arena.varName? at h
  split at h
  · next he =>
    cases h
    exact he
  · cases h

/-! ## Reaching a point -/

namespace Definite

/-- From where the names `start` are bound, one of the paths leads to where the names `stop` are
bound: if it assigns `v`, then `v` is bound there. -/
structure Reached (v : String) (paths : Language String) (start stop : Set String) : Prop where
  grows : start ⊆ stop
  path : ∃ path ∈ paths, v ∈ path → v ∈ stop

namespace Reached

variable {p q : Language String} {K : Set String}

lemma mem (h : Reached v p N M) (hv : ∀ path ∈ p, v ∈ N ∨ v ∈ path) : v ∈ M := by
  obtain ⟨path, hpath, hbound⟩ := h.path
  rcases hv path hpath with hv | hv
  · exact h.grows hv
  · exact hbound hv

lemma nothing (h : N ⊆ M) : Reached v 1 N M :=
  ⟨h, [], Language.nil_mem_one, fun hv => nomatch hv⟩

lemma assigning {path : List String} (h : N ⊆ M) (hpath : ∀ x ∈ path, x ∈ M) :
    Reached v {path} N M :=
  ⟨h, path, rfl, hpath v⟩

lemma mul (h : Reached v p N M) (h' : Reached v q M K) : Reached v (p * q) N K := by
  obtain ⟨path, hpath, hbound⟩ := h.path
  obtain ⟨path', hpath', hbound'⟩ := h'.path
  refine ⟨h.grows.trans h'.grows, path ++ path', Language.append_mem_mul hpath hpath', fun hv => ?_⟩
  rcases mem_append.1 hv with hv | hv
  · exact h'.grows (hbound hv)
  · exact hbound' hv

lemma imp (h : Reached v p N M) (hle : ∀ path ∈ p, path ∈ q) : Reached v q N M :=
  let ⟨path, hpath, hbound⟩ := h.path
  ⟨h.grows, path, hle path hpath, hbound⟩

lemma inl (h : Reached v p N M) : Reached v (p + q) N M :=
  h.imp fun _ => .inl

lemma inr (h : Reached v q N M) : Reached v (p + q) N M :=
  h.imp fun _ => .inr

lemma star (h : Reached v p N M) : Reached v (KStar.kstar q * p) N M :=
  mul (p := KStar.kstar q) ⟨subset_rfl, [], Language.nil_mem_kstar q, fun hv => nomatch hv⟩ h

lemma mono {N' M' : Set String} (h : Reached v p N M) (hN : N' ⊆ N) (hM : M ⊆ M') :
    Reached v p N' M' :=
  let ⟨path, hpath, hbound⟩ := h.path
  ⟨hN.trans (h.grows.trans hM), path, hpath, fun hv => hM (hbound hv)⟩

end Reached

/-! ## Runs -/

variable {st1 st2 : State}

/-- Only scopes and variables have changed. -/
structure Quiet (st st' : State) : Prop where
  events : st'.events = st.events
  table : st'.table = st.table
  breaks : st'.breaks = st.breaks
  depth : st'.depth = st.depth

lemma Quiet.refl (st : State) : Quiet st st :=
  ⟨rfl, rfl, rfl, rfl⟩

lemma Quiet.trans (h : Quiet st st1) (h' : Quiet st1 st') : Quiet st st' :=
  ⟨h'.events.trans h.events, h'.table.trans h.table, h'.breaks.trans h.breaks, h'.depth.trans h.depth⟩

lemma quiet_within (s : Scope) : Quiet st (st.within s) :=
  ⟨rfl, rfl, rfl, rfl⟩

lemma quiet_onScope {f : Scope → Store → Scope × Store} (h : onScope f cx st = some ((), st')) :
    Quiet st st' ∧ st'.bound = (f st.stack.current st.store).1.names := by
  rw [onScope_run] at h
  cases h
  refine ⟨⟨rfl, rfl, rfl, rfl⟩, ?_⟩
  rw [State.bound, Stack.current_setCurrent]

lemma quiet_onVars {f : Scope → Store → Store} (h : onVars f cx st = some ((), st')) :
    Quiet st st' ∧ st'.bound = st.bound :=
  quiet_onScope h

lemma quiet_onStore {α : Type} {f : Store → α × Store} {a : α}
    (h : onStore f cx st = some (a, st')) :
    Quiet st st' ∧ st'.stack = st.stack ∧ a = (f st.store).1 := by
  rw [onStore_run] at h
  cases h
  exact ⟨⟨rfl, rfl, rfl, rfl⟩, rfl, rfl⟩

lemma quiet_forkCurrent (h : forkCurrent cx st = some (s, st')) :
    Quiet st st' ∧ st'.stack = st.stack ∧ s.names = st.bound := by
  obtain ⟨hquiet, hstack, rfl⟩ := quiet_onStore
    (show onStore st.stack.current.fork cx st = some (s, st') from h)
  exact ⟨hquiet, hstack, names_fork⟩

lemma quiet_mergeIntoCurrent (h : mergeIntoCurrent s cx st = some ((), st')) :
    Quiet st st' ∧ st'.bound = st.bound ∪ s.names := by
  obtain ⟨hquiet, hbound⟩ := quiet_onScope h
  exact ⟨hquiet, hbound.trans names_merge⟩

lemma quiet_replaceCurrent (h : replaceCurrent s cx st = some ((), st')) :
    Quiet st st' ∧ st'.bound = s.names := by
  obtain ⟨hquiet, hbound⟩ := quiet_onScope h
  exact ⟨hquiet, hbound.trans names_replaceWith⟩

lemma quiet_branchScopes {t f : Scope} (h : branchScopes id cx st = some ((t, f), st')) :
    Quiet st st' ∧ st'.stack = st.stack ∧ t.names = st.boundOn id true ∧
      f.names = st.boundOn id false := by
  rw [branchScopes_run] at h
  cases h
  exact ⟨⟨rfl, rfl, rfl, rfl⟩, rfl, names_fork, names_fork⟩

/-- Nothing is assumed at the nodes yet. -/
def Clear (nodes : List NodeId) (st : State) : Prop :=
  ∀ id ∈ nodes, st.table.assertions.get? id = none

/-- What the run does: it changes what is assumed at the nodes `touched` only, and passes the
expressions `passed`.  A read that is passed is in a scope that is reached from `start`, if there is
a path to it. -/
structure Ran (cx : Context) (v : String) (touched passed : List NodeId) (upTo : NodeId → Language String)
    (start : Set String) (st st' : State) : Prop where
  asserts : ∀ id, id ∉ touched → st'.table.assertions.get? id = st.table.assertions.get? id
  /-- The paths lead to reads that are passed. -/
  reads : ∀ read, Possible (upTo read) → read ∈ passed
  visits : ∃ new, st'.events = new ++ st.events ∧
    (∀ id ∈ passed, ∃ visit, .visited visit ∈ new ∧ visit.node = id) ∧
    ∀ visit, .visited visit ∈ new → (cx.arena.varName? visit.node).isSome = true →
      visit.node ∈ passed ∧
        (Possible (upTo visit.node) → Reached v (upTo visit.node) start visit.names)

namespace Ran

variable {touched touched' passed' : List NodeId} {upTo' : NodeId → Language String}
  {first : Language String}

lemma silent (hevents : st'.events = st.events)
    (hasserts : ∀ id, id ∉ touched → st'.table.assertions.get? id = st.table.assertions.get? id) :
    Ran cx v touched [] (fun _ => 0) N st st' :=
  ⟨hasserts, fun _ hp => absurd hp not_possible_zero, [], by rw [hevents]; rfl, by simp, by simp⟩

lemma nothing (hquiet : Quiet st st') : Ran cx v [] [] (fun _ => 0) N st st' :=
  silent hquiet.events fun _ _ => by rw [hquiet.table]

lemma congr (h : Ran cx v touched passed upTo N st1 st2) (hbefore : Quiet st st1)
    (hbehind : Quiet st2 st') : Ran cx v touched passed upTo N st st' := by
  refine ⟨?_, h.reads, ?_⟩
  · rw [← hbefore.table, hbehind.table]
    exact h.asserts
  · rw [← hbefore.events, hbehind.events]
    exact h.visits

lemma quiet (h : Ran cx v touched passed upTo N st st1) (hquiet : Quiet st1 st') :
    Ran cx v touched passed upTo N st st' :=
  h.congr (.refl st) hquiet

lemma mono (h : Ran cx v touched passed upTo N st st') (hsub : ∀ id ∈ touched, id ∈ touched')
    (hN : M ⊆ N) : Ran cx v touched' passed upTo M st st' := by
  obtain ⟨new, hnew, hall, hvisits⟩ := h.visits
  refine ⟨fun id hid => h.asserts id fun hmem => hid (hsub id hmem), h.reads, new, hnew, hall, ?_⟩
  intro visit hvisit hvar
  obtain ⟨hnode, hreached⟩ := hvisits visit hvisit hvar
  exact ⟨hnode, fun hpossible => (hreached hpossible).mono hN subset_rfl⟩

lemma record (event : Event) (h : Ran cx v touched passed upTo N st st1)
    (hevents : st'.events = event :: st1.events)
    (hevent : ∀ visit, event = .visited visit → cx.arena.varName? visit.node = none)
    (hasserts : st'.table.assertions = st1.table.assertions) :
    Ran cx v touched passed upTo N st st' := by
  obtain ⟨new, hnew, hall, hvisits⟩ := h.visits
  refine ⟨fun id hid => ?_, h.reads, event :: new, ?_, fun id hid => ?_, fun visit hvisit hvar => ?_⟩
  · rw [hasserts, h.asserts id hid]
  · rw [hevents, hnew, cons_append]
  · obtain ⟨visit, hvisit, hnode⟩ := hall id hid
    exact ⟨visit, .tail _ hvisit, hnode⟩
  · rcases mem_cons.1 hvisit with heq | hvisit
    · rw [hevent visit heq.symm] at hvar
      cases hvar
    · exact hvisits visit hvisit hvar

lemma along (h : Ran cx v touched passed upTo M st st')
    (hpossible : ∀ read, Possible (upTo' read) → Possible (upTo read))
    (hpaths : ∀ read V, Possible (upTo' read) → Reached v (upTo read) M V →
      Reached v (upTo' read) N V) :
    Ran cx v touched passed upTo' N st st' := by
  obtain ⟨new, hnew, hall, hvisits⟩ := h.visits
  refine ⟨h.asserts, fun read hp => h.reads read (hpossible read hp), new, hnew, hall, ?_⟩
  intro visit hvisit hvar
  obtain ⟨hnode, hreached⟩ := hvisits visit hvisit hvar
  exact ⟨hnode, fun hp => hpaths _ _ hp (hreached (hpossible _ hp))⟩

lemma after (h : Ran cx v touched passed upTo M st st')
    (hfirst : Possible first → Reached v first N M) :
    Ran cx v touched passed (fun read => first * upTo read) N st st' :=
  h.along (fun _ hp => (possible_mul.1 hp).2) fun _ _ hp hreached =>
    (hfirst (possible_mul.1 hp).1).mul hreached

lemma star {round : Language String} (h : Ran cx v touched passed upTo N st st') :
    Ran cx v touched passed (fun read => KStar.kstar round * upTo read) N st st' :=
  h.along (fun _ hp => (possible_mul.1 hp).2) fun _ _ _ hreached => hreached.star

lemma skip (h : Ran cx v touched passed upTo N st st') :
    Ran cx v touched passed (fun _ => 0) M st st' :=
  h.along (fun _ hp => absurd hp not_possible_zero) fun _ _ hp => absurd hp not_possible_zero

lemma or (h : Ran cx v touched passed upTo N st st') (h' : Ran cx v touched passed upTo' N st st') :
    Ran cx v touched passed (fun read => upTo read + upTo' read) N st st' := by
  obtain ⟨new, hnew, hall, hvisits⟩ := h.visits
  obtain ⟨_, hnew', -, hvisits'⟩ := h'.visits
  obtain rfl := append_cancel_right (hnew'.symm.trans hnew)
  refine ⟨h.asserts, fun read hp => (possible_add.1 hp).elim (h.reads read) (h'.reads read), _, hnew,
    hall, fun visit hvisit hvar => ⟨(hvisits visit hvisit hvar).1, fun hp => ?_⟩⟩
  rcases possible_add.1 hp with hp | hp
  · exact ((hvisits visit hvisit hvar).2 hp).inl
  · exact ((hvisits' visit hvisit hvar).2 hp).inr

lemma both (h : Ran cx v touched passed upTo N st st1)
    (h' : Ran cx v touched' passed' upTo' N st1 st2) (hdisjoint : passed.Disjoint passed') :
    Ran cx v (touched ++ touched') (passed ++ passed') (fun read => upTo read + upTo' read) N st st2 := by
  obtain ⟨new, hnew, hall, hvisits⟩ := h.visits
  obtain ⟨new', hnew', hall', hvisits'⟩ := h'.visits
  refine ⟨fun id hid => ?_, fun read hp => ?_, new' ++ new,
    by rw [hnew', hnew, append_assoc], ?_, ?_⟩
  · rw [mem_append, not_or] at hid
    rw [h'.asserts id hid.2, h.asserts id hid.1]
  · rw [mem_append]
    exact (possible_add.1 hp).imp (h.reads read) (h'.reads read)
  · intro id hid
    rcases mem_append.1 hid with hid | hid
    · obtain ⟨visit, hvisit, hnode⟩ := hall id hid
      exact ⟨visit, mem_append_right _ hvisit, hnode⟩
    · obtain ⟨visit, hvisit, hnode⟩ := hall' id hid
      exact ⟨visit, mem_append_left _ hvisit, hnode⟩
  · -- A read of one part is not on the paths through the other.
    intro visit hvisit hvar
    rcases mem_append.1 hvisit with hvisit | hvisit
    · obtain ⟨hnode, hreached⟩ := hvisits' visit hvisit hvar
      refine ⟨mem_append_right _ hnode, fun hpossible => ?_⟩
      rcases possible_add.1 hpossible with hp | hp
      · exact absurd hnode (hdisjoint (h.reads _ hp))
      · exact (hreached hp).inr
    · obtain ⟨hnode, hreached⟩ := hvisits visit hvisit hvar
      refine ⟨mem_append_left _ hnode, fun hpossible => ?_⟩
      rcases possible_add.1 hpossible with hp | hp
      · exact (hreached hp).inl
      · exact absurd (h'.reads _ hp) (hdisjoint hnode)

lemma andThen (h : Ran cx v touched passed upTo N st st1)
    (h' : Ran cx v touched' passed' upTo' M st1 st2) (hfirst : Possible first → Reached v first N M)
    (hdisjoint : passed.Disjoint passed') :
    Ran cx v (touched ++ touched') (passed ++ passed') (fun read => upTo read + first * upTo' read)
      N st st2 :=
  h.both (h'.after hfirst) hdisjoint

end Ran

/-- The code can be run from here: no expression stands in it twice, nothing is assumed at one yet,
and there is room for its levels of nesting. -/
structure Ready (cx : Context) (nodes : List NodeId) (levels : Nat) (st : State) : Prop where
  nodup : nodes.Nodup
  clear : Clear nodes st
  room : st.depth + levels ≤ cx.options.maxDepth.toNat

namespace Ready

variable {nodes nodes' : List NodeId} {k l : Nat}

lemma quiet (h : Ready cx nodes k st) (hquiet : Quiet st st') : Ready cx nodes k st' where
  nodup := h.nodup
  clear := by
    rw [Clear, hquiet.table]
    exact h.clear
  room := hquiet.depth ▸ h.room

lemma weaken (h : Ready cx nodes l st) (hle : k ≤ l) : Ready cx nodes k st :=
  ⟨h.nodup, h.clear, (Nat.add_le_add_left hle _).trans h.room⟩

lemma comm (h : Ready cx nodes (max k l) st) : Ready cx nodes (max l k) st :=
  max_comm k l ▸ h

lemma left (h : Ready cx (nodes ++ nodes') (max k l) st) : Ready cx nodes k st :=
  weaken ⟨h.nodup.of_append_left, fun id hid => h.clear id (mem_append_left _ hid), h.room⟩
    (le_max_left ..)

lemma disjoint (h : Ready cx (nodes ++ nodes') k st) : nodes.Disjoint nodes' :=
  (nodup_append'.1 h.nodup).2.2

lemma after (h : Ready cx (nodes ++ nodes') (max k l) st) (hran : Ran cx v nodes passed upTo N st st')
    (hdepth : st'.depth = st.depth) : Ready cx nodes' l st' := by
  refine weaken ⟨h.nodup.of_append_right, fun id hid => ?_, hdepth ▸ h.room⟩ (le_max_right ..)
  rw [hran.asserts id fun hmem => h.disjoint hmem hid, h.clear id (mem_append_right _ hid)]

lemma tail (h : Ready cx (id :: nodes) k st) : Ready cx nodes k st :=
  ⟨h.nodup.of_cons, fun other hother => h.clear other (.tail _ hother), h.room⟩

lemma head (h : Ready cx (id :: nodes) k st) (hran : Ran cx v nodes passed upTo N st st') :
    st'.table.assertions.get? id = none :=
  (hran.asserts id (nodup_cons.1 h.nodup).1).trans (h.clear id (.head _))

end Ready

end Definite

end FlowTyping

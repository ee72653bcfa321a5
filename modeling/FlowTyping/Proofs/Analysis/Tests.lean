import FlowTyping.Proofs.Analysis.Engine
import FlowTyping.Proofs.Scope.Paths

/-!
# What tests add

A test on a variable leaves all variables as they are.  It makes two new scopes, one for either
outcome, and attaches them to the node of the test.  What these scopes know, apart from where their
variables are kept, is said name by name (`Typing`).
-/

namespace FlowTyping

open Arena Evaluator NodeTable Option Store Ty Variable

variable {P : Ty → Prop} {s : Scope} {σ : Store} {name : String} {st st' : State} {id node : NodeId}

/-- What is known of each name: none where it is not bound, and none inside where it is bound and
nothing is known of its value. -/
abbrev Typing := String → Option (Option Ty)

namespace Typing

/-- The name is bound, with the given type. -/
def set (Γ : Typing) (name : String) (type : Option Ty) : Typing := fun other =>
  if other = name then some type else Γ other

/-- The name is taken to have a type, and to be bound if `define` says so. -/
def narrow (Γ : Typing) (name : String) (type : Option Ty) (define : Bool) : Typing := fun other =>
  if other = name then
    match type with
    | some t => if define || (Γ name).isSome then some (some t) else none
    | none => if define then some ((Γ name).getD none) else Γ name
  else Γ other

/-- Either of two typings; a name on one side only is taken as it is there. -/
def join (Γ Δ : Typing) : Typing := fun name =>
  match Γ name, Δ name with
  | some a, some b => some (if a == b then a else join? a b)
  | some a, none => some a
  | none, b => b

end Typing

namespace Scope

variable {other : Scope}

/-- What the scope knows of its names. -/
def known (s : Scope) (σ : Store) : Typing := fun name =>
  (s.var? σ name).map type

lemma typeOf?_eq_known (s : Scope) (σ : Store) (name : String) :
    s.typeOf? σ name = (s.known σ name).join := by
  unfold typeOf? known
  cases s.var? σ name <;> rfl

lemma known_isSome (s : Scope) (σ : Store) (name : String) :
    (s.known σ name).isSome = s.contains name := by
  simp [known, var?, contains, Dict.contains, slot?]

/-! ## Single variables -/

lemma var?_updateVar (hs : s.Wf P σ) (name : String) (f : Variable → Variable) (other : String) :
    s.var? (s.updateVar σ name f) other =
      if other = name then (s.var? σ name).map f else s.var? σ other := by
  unfold updateVar var?
  cases hslot : s.slot? name with
  | none =>
    by_cases h : other = name
    · rw [if_pos h, h, hslot]
      rfl
    · rw [if_neg h]
  | some slot =>
    by_cases h : other = name
    · rw [if_pos h, h, hslot]
      simp only [map_some, read_update_self (hs.lt ⟨name, hslot⟩)]
    · rw [if_neg h]
      refine map_congr fun k hk => read_update_of_ne (fun he : slot = k => h ?_) σ f
      exact hs.placed.inj hk (he ▸ hslot)

lemma var?_bindNew (hs : s.Wf P σ) (name : String) (v : Variable) (other : String) :
    (s.bindNew σ name v).1.var? (s.bindNew σ name v).2 other =
      if other = name then some v else s.var? σ other := by
  unfold bindNew var? slot?
  dsimp only
  rw [Dict.get?_insert]
  split
  · rw [map_some, read_alloc]
  · exact map_congr fun k hk => read_alloc_of_lt (hs.lt ⟨other, hk⟩) v

lemma known_updateVar (hs : s.Wf P σ) (name : String) {f : Variable → Variable}
    (hf : ∀ v, (f v).type = v.type) : s.known (s.updateVar σ name f) = s.known σ := by
  funext other
  unfold known
  rw [var?_updateVar hs]
  split
  · next h =>
    rw [h, map_map]
    exact map_congr fun v _ => hf v
  · rfl

lemma known_markUsed (hs : s.Wf P σ) (name : String) :
    s.known (s.markUsed σ name) = s.known σ :=
  known_updateVar hs name fun _ => rfl

lemma known_bindNew (hs : s.Wf P σ) (name : String) (v : Variable) :
    (s.bindNew σ name v).1.known (s.bindNew σ name v).2 = (s.known σ).set name v.type := by
  funext other
  unfold known Typing.set
  rw [var?_bindNew hs]
  split <;> rfl

lemma known_update (hs : s.Wf P σ) {slot : Slot} {f : Variable → Variable} {type : Option Ty}
    (hslot : s.slot? name = some slot) (hf : ∀ v, (f v).type = type) :
    s.known (σ.update slot f) = (s.known σ).set name type := by
  funext other
  have hupdate := var?_updateVar hs name f other
  simp only [updateVar, hslot] at hupdate
  unfold known Typing.set
  rw [hupdate]
  split
  · simp [var?, hslot, hf]
  · rfl

lemma known_declare (hs : s.Wf P σ) (name : String) (type : Option Ty) (kind : VarKind)
    (line : Line) :
    (s.declare σ name type kind line).1.known (s.declare σ name type kind line).2 =
      (s.known σ).set name type :=
  known_bindNew hs name _

lemma known_assign (hs : s.Wf P σ) (name : String) (type : Option Ty) (line : Line) :
    (s.assign σ name type line).1.known (s.assign σ name type line).2 =
      (s.known σ).set name type := by
  unfold assign
  cases hslot : s.slot? name with
  | some slot => exact known_update hs hslot fun _ => rfl
  | none => exact known_bindNew hs name _

lemma known_narrow (hs : s.Wf P σ) (name : String) (t : Ty) (line : Line) :
    (s.narrow σ name t line).1.known (s.narrow σ name t line).2 =
      (s.known σ).set name (some t) := by
  unfold narrow
  cases hslot : s.slot? name with
  | some slot => exact known_update hs hslot fun _ => rfl
  | none => exact known_bindNew hs name _

lemma known_ensure (hs : s.Wf P σ) (name : String) (line : Line) :
    (s.ensure σ name line).2.1.known (s.ensure σ name line).2.2 =
      (s.known σ).set name ((s.known σ name).getD none) := by
  funext other
  unfold ensure
  cases hslot : s.slot? name with
  | some slot =>
    dsimp only [Typing.set]
    split
    · next h => simp [known, h, var?, hslot]
    · rfl
  | none =>
    refine (congrFun (known_bindNew hs name { name, line }) other).trans ?_
    simp [Typing.set, known, var?, hslot]

/-! ## Paths -/

lemma known_fork (hs : s.Wf P σ) : (s.fork σ).1.known (s.fork σ).2 = s.known σ := by
  funext name
  unfold known
  rw [var?_fork hs.placed, map_map]
  rfl

lemma map_type_joinVar? (a b : Option Variable) : (joinVar? a b).map type =
    match a.map type, b.map type with
    | some a, some b => some (if a == b then a else join? a b)
    | some a, none => some a
    | none, b => b := by
  cases a <;> cases b <;> rfl

lemma known_merge (hs : s.Wf P σ) (ho : other.Wf P σ) (h : other.Apart s) :
    (s.merge other σ).1.known (s.merge other σ).2 = (s.known σ).join (other.known σ) := by
  funext name
  rw [known, var?_merge hs ho h, map_type_joinVar?]
  rfl

lemma known_merged (hs : s.Wf P σ) (ho : other.Wf P σ) :
    (merged s other σ).1.known (merged s other σ).2 = (s.known σ).join (other.known σ) := by
  funext name
  rw [known, var?_merged hs ho, map_type_joinVar?, map_map]
  rfl

end Scope

open Scope State

/-- Nothing that was there before is changed, except for facts about nodes. -/
structure Adds (st st' : State) : Prop where
  stack : st'.stack = st.stack
  breaks : st'.breaks = st.breaks
  depth : st'.depth = st.depth
  events : st'.events = st.events
  size_le : st.store.size ≤ st'.store.size
  read_eq : ∀ k, k < st.store.size → st'.store.read k = st.store.read k

namespace Adds

variable {st'' : State}

lemma refl (st : State) : Adds st st :=
  ⟨rfl, rfl, rfl, rfl, le_rfl, fun _ _ => rfl⟩

lemma trans (h : Adds st st') (h' : Adds st' st'') : Adds st st'' where
  stack := h'.stack.trans h.stack
  breaks := h'.breaks.trans h.breaks
  depth := h'.depth.trans h.depth
  events := h'.events.trans h.events
  size_le := Nat.le_trans h.size_le h'.size_le
  read_eq k hk := (h'.read_eq k (Nat.lt_of_lt_of_le hk h.size_le)).trans (h.read_eq k hk)

lemma var?_eq (h : Adds st st') (hs : s.Wf P st.store) (name : String) :
    s.var? st'.store name = s.var? st.store name :=
  map_congr fun k hk => h.read_eq k (hs.lt ⟨name, hk⟩)

lemma known_eq (h : Adds st st') (hs : s.Wf P st.store) :
    s.known st'.store = s.known st.store := by
  funext name
  rw [Scope.known, h.var?_eq hs, Scope.known]

end Adds

/-! ## Facts about nodes -/

namespace IdMap

variable {α : Type} {m : IdMap α} {other : NodeId} {a : α}

lemma get?_insert : (m.insert id a).get? other = if id = other then some a else m.get? other := by
  simp [get?, insert, find]

lemma get?_erase : (m.erase id).get? other = if id = other then none else m.get? other := by
  obtain ⟨log⟩ := m
  simp only [get?, erase]
  induction log with
  | nil => simp [find]
  | cons r rest ih =>
    obtain ⟨key, b⟩ := r
    by_cases hkey : key = id
    · subst hkey
      by_cases hother : key = other
      · simpa [find, hother] using ih
      · simpa [find, hother] using ih
    · by_cases hother : key = other
      · subst hother
        simp [find, hkey, Ne.symm hkey]
      · simpa [find, hkey, hother] using ih

end IdMap

lemma NodeTable.get?_setAssertions (table : NodeTable) (id other : NodeId) (a : Assertions) :
    (table.setAssertions id a).assertions.get? other =
      if id = other then if a.isEmpty then none else some a else table.assertions.get? other := by
  unfold setAssertions
  split <;> simp [IdMap.get?_insert, IdMap.get?_erase, *]

lemma NodeTable.types_setAssertions (table : NodeTable) (id : NodeId) (a : Assertions) :
    (table.setAssertions id a).types = table.types := by
  unfold setAssertions
  split <;> rfl

/-- The scope on one outcome of a condition. -/
def Assertions.on (a : Assertions) (outcome : Bool) : Option Scope :=
  if outcome then a.whenTrue else a.whenFalse

lemma Assertions.on_of_isEmpty {a : Assertions} (h : a.isEmpty = true) (outcome : Bool) :
    a.on outcome = none := by
  rw [isEmpty, Bool.and_eq_true, isNone_iff_eq_none, isNone_iff_eq_none] at h
  cases outcome
  exacts [h.2, h.1]

lemma Assertions.on_swapped (a : Assertions) (outcome : Bool) :
    a.swapped.on outcome = a.on (!outcome) := by
  cases outcome <;> rfl

/-- The scope that a condition implies on an outcome, where it says something. -/
def State.assumed (st : State) (id : NodeId) (outcome : Bool) : Option Scope :=
  (st.table.assertions.get? id).bind (·.on outcome)

lemma State.assumed_eq_none (h : st.table.assertions.get? id = none) (outcome : Bool) :
    st.assumed id outcome = none := by
  rw [assumed, h]
  rfl

lemma State.assumed_setAssertions (st : State) (id : NodeId) (a : Assertions) (outcome : Bool) :
    State.assumed { st with table := st.table.setAssertions id a } id outcome = a.on outcome := by
  rw [assumed, get?_setAssertions, if_pos rfl]
  split
  · next h => exact (a.on_of_isEmpty h outcome).symm
  · rfl

/-- What is known of the names where a test says something about a reference. -/
def Reference.narrowTyping (r : Reference) (Γ : Typing) (type : Option Ty) (define : Bool) : Typing :=
  match r with
  | .var name => Γ.narrow name type define
  | .chain _ => Γ

/-- What a test says about the reference on an outcome. -/
def Narrowing.on (result : Narrowing) (outcome : Bool) : Option Ty :=
  if outcome then result.whenTrue else result.whenFalse

/-- Whether an outcome of a test proves that the reference is bound. -/
def Defines.on (defines : Defines) (outcome : Bool) : Bool :=
  if outcome then defines == .whenTrue else defines == .whenFalse

lemma Defines.on_neither (outcome : Bool) : Defines.neither.on outcome = false := by
  cases outcome <;> rfl

variable {cx : Context} {r : Reference} {target : NodeId} {guard : Guard}

lemma Reference.known_narrowIn (r : Reference) (hs : s.Wf P σ) (type : Option Ty) (define : Bool)
    (line : Line) :
    (r.narrowIn type define line s σ).1.known (r.narrowIn type define line s σ).2 =
      r.narrowTyping (s.known σ) type define := by
  unfold Reference.narrowIn Reference.narrowTyping
  cases r with
  | chain key => cases type <;> rfl
  | var name =>
    cases type with
    | some t =>
      dsimp only
      split
      · next h =>
        rw [known_narrow hs]
        funext other
        simp only [Typing.set, Typing.narrow, known_isSome, h, if_true]
      · next h =>
        funext other
        have hnone : s.known σ name = none := by
          rw [← not_isSome_iff_eq_none, known_isSome]
          simp_all
        simp only [Typing.narrow, known_isSome, h]
        split
        · next hname => simp [hname, hnone]
        · rfl
    | none =>
      dsimp only
      split
      · next h =>
        rw [known_ensure hs]
        funext other
        simp only [Typing.set, Typing.narrow, h, if_true]
      · next h =>
        funext other
        simp only [Typing.narrow, h]
        split
        · next hname => simp [hname]
        · rfl

namespace Analysis

variable {type : Option Ty} {define : Bool} {line : Line} {o : Option Scope}

lemma narrowedScope_cases (h : narrowedScope r type define line cx st = some (o, st')) :
    (o = some (r.narrowIn type define line (st.stack.current.fork st.store).1
        (st.stack.current.fork st.store).2).1 ∧
      st' = { st with store := (r.narrowIn type define line (st.stack.current.fork st.store).1
        (st.stack.current.fork st.store).2).2 }) ∨ o = none ∧ st' = st := by
  unfold narrowedScope at h
  split at h
  · obtain ⟨ho, hst'⟩ := Prod.mk.inj (some.inj h)
    exact .inl ⟨ho.symm, hst'.symm⟩
  · exact .inr (of_pure h)

lemma narrowedScope_spec (hst : st.Wf P) (ht : KnownIn P type)
    (h : narrowedScope r type define line cx st = some (o, st')) :
    Adds st st' ∧ st'.table = st.table ∧ ∀ s, o = some s → s.Wf P st'.store ∧
      s.known st'.store = r.narrowTyping (st.stack.current.known st.store) type define := by
  rcases narrowedScope_cases h with ⟨rfl, rfl⟩ | ⟨rfl, rfl⟩
  · have hfork := wf_fork hst.current
    have hc := r.change_narrowIn hfork (typesIn_fork hst.types) (Nat.le_refl _) ht define line
    have hsize := @size_le_size_fork st.stack.current st.store
    refine ⟨⟨rfl, rfl, rfl, rfl, Nat.le_trans hsize hc.size_le, fun k hk => ?_⟩, rfl, ?_⟩
    · have hnot : ¬ (st.stack.current.fork st.store).1.Owns k := fun ho =>
        Nat.lt_irrefl k (Nat.lt_of_lt_of_le hk (owns_fork ho).1)
      exact (hc.read_eq k (Nat.lt_of_lt_of_le hk hsize) hnot).trans (read_fork_of_lt hk)
    · rintro s hs
      obtain rfl := some.inj hs
      exact ⟨hc.wf, by rw [r.known_narrowIn hfork, known_fork hst.current]⟩
  · exact ⟨.refl _, rfl, fun s hs => nomatch hs⟩

end Analysis

/-! ## Tests on variables -/

/-- A test at a node: it only adds, and its scopes know what `Δ` says on either outcome. -/
structure Tested (P : Ty → Prop) (node : NodeId) (Δ : Bool → Typing) (st st' : State) : Prop where
  adds : Adds st st'
  types : st'.table.types = st.table.types
  others : ∀ id, id ≠ node → st'.table.assertions.get? id = st.table.assertions.get? id
  known : ∀ outcome s, st'.assumed node outcome = some s →
    s.Wf P st'.store ∧ s.known st'.store = Δ outcome

lemma Tested.refl {Δ : Bool → Typing} (hfresh : st.table.assertions.get? node = none) :
    Tested P node Δ st st where
  adds := .refl st
  types := rfl
  others _ _ := rfl
  known outcome s hs := by
    rw [assumed_eq_none hfresh] at hs
    cases hs

namespace Analysis

variable {defines : Defines} {γ : Type} {result : Narrowing}

lemma attachNarrowing_cases (h : attachNarrowing node r result defines cx st = some ((), st')) :
    st' = st ∨ ∃ line whenTrue st1 whenFalse st2,
      narrowedScope r (result.on true) (defines.on true) line cx st = some (whenTrue, st1) ∧
      narrowedScope r (result.on false) (defines.on false) line cx st1 = some (whenFalse, st2) ∧
      st' = { st2 with table := st2.table.setAssertions node ⟨whenTrue, whenFalse⟩ } := by
  unfold attachNarrowing at h
  split at h
  · exact .inl (of_pure h).2
  · replace h := bind_rest h rfl
    obtain ⟨whenTrue, st1, h1, h⟩ := of_bind h
    obtain ⟨whenFalse, st2, h2, h⟩ := of_bind h
    cases h
    exact .inr ⟨_, _, _, _, _, h1, h2, rfl⟩

/-- A test only adds, whatever was known at its node.  Where nothing was, its scopes are new, and know
what the test says. -/
lemma attachNarrowing_spec (hP : Stable P) (hst : st.Fit P)
    (ht : ∀ outcome, KnownIn P (result.on outcome))
    (h : attachNarrowing node r result defines cx st = some ((), st')) :
    Adds st st' ∧ (st.table.assertions.get? node = none →
      Tested P node (fun outcome => r.narrowTyping (st.stack.current.known st.store)
        (result.on outcome) (defines.on outcome)) st st') := by
  rcases attachNarrowing_cases h with rfl | ⟨line, whenTrue, st1, whenFalse, st2, h1, h2, rfl⟩
  · exact ⟨.refl _, .refl⟩
  · obtain ⟨hadds1, htable1, hs1⟩ := narrowedScope_spec hst.toWf (ht true) h1
    have hst1 : st1.Wf P :=
      ((giving_holding hP).narrowedScope r (ht true) _ _ [] hst (Nat.zero_le _) .nil h1).1.wf
    obtain ⟨hadds2, htable2, hs2⟩ := narrowedScope_spec hst1 (ht false) h2
    obtain ⟨hstack, hbreaks, hdepth, hevents, hsize, hread⟩ := hadds1.trans hadds2
    refine ⟨⟨hstack, hbreaks, hdepth, hevents, hsize, hread⟩, fun _ =>
      ⟨⟨hstack, hbreaks, hdepth, hevents, hsize, hread⟩, ?_, fun id hid => ?_, fun outcome s hs => ?_⟩⟩
    · rw [types_setAssertions, htable2, htable1]
    · rw [get?_setAssertions, if_neg hid.symm, htable2, htable1]
    · rw [assumed_setAssertions] at hs
      cases outcome with
      | true =>
        -- The scope on the other outcome is made later, out of new variables.
        obtain ⟨hwf, hknown⟩ := hs1 s hs
        exact ⟨hwf.mono hadds2.size_le, by rw [hadds2.known_eq hwf, hknown]⟩
      | false =>
        obtain ⟨hwf, hknown⟩ := hs2 s hs
        exact ⟨hwf, by rw [hknown, hadds1.stack, hadds1.known_eq hst.current]⟩

lemma negate_cases {operand : NodeId} {type : Option Ty}
    (h : negate node operand type cx st = some ((), st')) :
    (∃ a copy st1, st.table.assertions.get? operand = some a ∧
      onStore a.fork cx st = some (copy, st1) ∧
      st' = { st1 with table := st1.table.setAssertions node copy.swapped }) ∨
    st' = st ∨ ∃ r, cx.arena.reference? operand = some r ∧
      attachNarrowing node r (narrow type .truthy).swapped .neither cx st = some ((), st') := by
  replace h := bind_rest h rfl
  cases ha : st.table.assertions.get? operand with
  | some a =>
    rw [ha] at h
    obtain ⟨copy, st1, hcopy, h⟩ := of_bind h
    cases h
    exact .inl ⟨a, copy, st1, rfl, hcopy, rfl⟩
  | none =>
    rw [ha] at h
    replace h := bind_rest h rfl
    cases hr : cx.arena.reference? operand with
    | none =>
      rw [hr] at h
      exact .inr (.inl (of_pure h).2)
    | some r =>
      rw [hr] at h
      exact .inr (.inr ⟨r, rfl, h⟩)

lemma narrow_on (hP : Closed P) {current : Option Ty} (h : KnownIn P current)
    (guard : Guard) (outcome : Bool) : KnownIn P ((narrow current guard).on outcome) := by
  cases outcome
  exacts [(hP.narrow h guard (hP.guardIn guard)).2, (hP.narrow h guard (hP.guardIn guard)).1]

lemma tested_attachNarrowing (hP : Closed P) (hst : st.Wf P)
    (ht : ∀ outcome, KnownIn P (result.on outcome)) (hfresh : st.table.assertions.get? node = none)
    (h : attachNarrowing node (.var name) result defines cx st = some ((), st')) :
    Tested P node (fun outcome => (st.stack.current.known st.store).narrow name (result.on outcome)
      (defines.on outcome)) st st' :=
  (attachNarrowing_spec hP.toStable (hst.fit hP.ofName) ht h).2 hfresh

lemma tested_narrowReference (hP : Closed P) (hst : st.Wf P)
    (hfresh : st.table.assertions.get? node = none)
    (htarget : cx.arena.expr? target = some (.var name))
    (h : narrowReference node target guard defines cx st = some ((), st')) :
    Tested P node (fun outcome => (st.stack.current.known st.store).narrow name
      ((narrow (st.stack.current.known st.store name).join guard).on outcome)
      (defines.on outcome)) st st' := by
  have href : cx.arena.reference? target = some (.var name) := by simp [reference?, htarget]
  replace h := bind_rest h rfl
  rw [href] at h
  have ht := narrow_on hP (hst.types.typeOf? st.stack.current name) guard
  rw [← typeOf?_eq_known]
  exact tested_attachNarrowing hP hst ht hfresh h

lemma fixes_attachNarrowing {f : State → γ} (hstore : ∀ st σ, f { st with store := σ } = f st)
    (htable : ∀ st table, f { st with table := table } = f st) (node : NodeId) (r : Reference)
    (result : Narrowing) (defines : Defines) :
    Fixes cx f (attachNarrowing node r result defines) := by
  have hscope : ∀ type define line, Fixes cx f (narrowedScope r type define line) := by
    intro type define line
    unfold narrowedScope
    split
    · refine (fixes_forkCurrent hstore).bind fun fork => ?_
      exact Fixes.bind (.onStore hstore) fun _ => .pure
    · exact .pure
  intro st a st' h
  rcases attachNarrowing_cases h with rfl | ⟨line, whenTrue, st1, whenFalse, st2, h1, h2, rfl⟩
  · rfl
  · rw [htable, hscope _ _ _ h2, hscope _ _ _ h1]

lemma fixes_parentExpectsBool {f : State → γ} (id : NodeId) :
    Fixes cx f (parentExpectsBool id) :=
  .of_run fun st => parentExpectsBool_run cx st id

/-- A reference in the place of a condition is tested, unless something is known of the condition. -/
lemma narrowTruthiness_cases {type : Option Ty}
    (h : narrowTruthiness node type cx st = some ((), st')) :
    st' = st ∨ st.table.assertions.get? node = none ∧ ∃ r, cx.arena.reference? node = some r ∧
      attachNarrowing node r (narrow type .truthy) .neither cx st = some ((), st') := by
  replace h := bind_rest h (parentExpectsBool_run cx st node)
  replace h := bind_rest h rfl
  split at h
  · next hcond =>
    replace h := bind_rest h rfl
    rw [Bool.and_eq_true, isNone_iff_eq_none] at hcond
    cases href : cx.arena.reference? node with
    | none =>
      simp only [href] at h
      exact .inl (of_pure h).2
    | some r =>
      simp only [href] at h
      exact .inr ⟨hcond.2, r, rfl, h⟩
  · exact .inl (of_pure h).2

lemma fixes_narrowTruthiness {f : State → γ} (hstore : ∀ st σ, f { st with store := σ } = f st)
    (htable : ∀ st table, f { st with table := table } = f st) (id : NodeId) (type : Option Ty) :
    Fixes cx f (narrowTruthiness id type) := by
  intro st a st' h
  rcases narrowTruthiness_cases h with rfl | ⟨-, r, -, h⟩
  · rfl
  · exact fixes_attachNarrowing hstore htable _ _ _ _ h

end Analysis

/-- The state behind a read of a variable. -/
def State.markRead (st : State) (name : String) : State :=
  { st with store := st.stack.current.markUsed st.store name }

lemma State.Wf.markRead (h : st.Wf P) (name : String) : (st.markRead name).Wf P := by
  have hc := change_markUsed (n := st.store.size) h.current h.types name
  have hwf := (Step.of_change h hc (h.breaks_apart_of_change hc)).wf
  rwa [Stack.setCurrent_current] at hwf

namespace Analysis

variable {type : Option Ty}

/-- A read of a variable marks it, gives its type, and is a test where a condition stands. -/
lemma narrowTruthiness_of_inferVar (hst : st.Wf P)
    (h : inferVar node name cx st = some (type, st')) :
    type = (st.stack.current.known st.store name).join ∧
      narrowTruthiness node type cx (st.markRead name) = some ((), st') := by
  obtain ⟨_, st1, hmark, h⟩ := of_bind h
  rw [onVars_run, Stack.setCurrent_current] at hmark
  cases hmark
  replace h := bind_rest h rfl
  replace h := bind_rest h rfl
  obtain ⟨_, htruth, htype⟩ := of_result h
  have hknown := congrFun (known_markUsed hst.current name) name
  rw [typeOf?_eq_known, hknown] at htype
  refine ⟨htype, ?_⟩
  rw [typeOf?_eq_known, hknown, ← htype] at htruth
  exact htruth

lemma adds_narrowTruthiness (hP : Closed P) (hst : st.Wf P) (ht : KnownIn P type)
    (h : narrowTruthiness node type cx st = some ((), st')) : Adds st st' := by
  rcases narrowTruthiness_cases h with rfl | ⟨-, r, -, h⟩
  · exact .refl _
  · exact (attachNarrowing_spec hP.toStable (hst.fit hP.ofName) (narrow_on hP ht .truthy) h).1

lemma tested_narrowTruthiness (hP : Closed P) (hst : st.Wf P) (ht : KnownIn P type)
    (hfresh : st.table.assertions.get? node = none)
    (hnode : cx.arena.expr? node = some (.var name))
    (h : narrowTruthiness node type cx st = some ((), st')) :
    Tested P node (fun outcome => (st.stack.current.known st.store).narrow name
      ((narrow type .truthy).on outcome) false) st st' := by
  rcases narrowTruthiness_cases h with rfl | ⟨-, r, hr, h⟩
  · exact .refl hfresh
  · obtain rfl : r = .var name := by simpa [reference?, hnode] using hr.symm
    simpa only [Defines.on_neither] using
      tested_attachNarrowing hP hst (narrow_on hP ht .truthy) hfresh h

lemma tested_inferVar (hP : Closed P) (hst : st.Wf P)
    (hfresh : st.table.assertions.get? node = none)
    (hnode : cx.arena.expr? node = some (.var name))
    (h : inferVar node name cx st = some (type, st')) :
    type = (st.stack.current.known st.store name).join ∧
      Tested P node (fun outcome => (st.stack.current.known st.store).narrow name
        ((narrow type .truthy).on outcome) false) (st.markRead name) st' := by
  obtain ⟨htype, h⟩ := narrowTruthiness_of_inferVar hst h
  refine ⟨htype, ?_⟩
  have ht : KnownIn P type := by
    rw [htype, ← typeOf?_eq_known]
    exact hst.types.typeOf? st.stack.current name
  have htested := tested_narrowTruthiness hP (hst.markRead name) ht hfresh hnode h
  have hknown : (st.markRead name).stack.current.known (st.markRead name).store =
    st.stack.current.known st.store := known_markUsed hst.current name
  rwa [hknown] at htested

lemma tested_narrowNullComparison (hP : Closed P) {op : BinaryOp} {left right : NodeId}
    {negated : Bool} (hst : st.Wf P) (hfresh : st.table.assertions.get? node = none)
    (hcompared : comparedWithNull? cx.arena left right = some target)
    (htarget : cx.arena.expr? target = some (.var name))
    (hop : nullGuard? op = some (guard, negated))
    (h : narrowNullComparison node op left right cx st = some ((), st')) :
    Tested P node (fun outcome => (st.stack.current.known st.store).narrow name
      ((narrow (st.stack.current.known st.store name).join guard).on (outcome != negated)) false)
      st st' := by
  have href : cx.arena.reference? target = some (.var name) := by simp [reference?, htarget]
  have ht := narrow_on hP (hst.types.typeOf? st.stack.current name) guard
  replace h := bind_rest h rfl
  rw [hcompared, hop] at h
  dsimp only at h
  rw [← typeOf?_eq_known]
  split at h
  · obtain ⟨-, rfl⟩ := of_pure h
    exact .refl hfresh
  · rw [href] at h
    have hsides : ∀ outcome, (if negated
          then (narrow (st.stack.current.typeOf? st.store name) guard).swapped
          else narrow (st.stack.current.typeOf? st.store name) guard).on outcome =
        (narrow (st.stack.current.typeOf? st.store name) guard).on (outcome != negated) := by
      intro outcome
      cases negated <;> cases outcome <;> rfl
    simpa only [hsides, Defines.on_neither] using
      tested_attachNarrowing hP hst (fun outcome => hsides outcome ▸ ht _) hfresh h

lemma fixes_inferVar (id : NodeId) (name : String) :
    Fixes cx (fun st => (st.stack.current, st.events)) (inferVar id name) := by
  have hmark : Fixes cx (fun st => (st.stack.current, st.events))
      (onVars fun s σ => s.markUsed σ name) := by
    intro st a st' h
    cases h
    simp
  refine hmark.bind fun _ => Fixes.bind (.of_run fun _ => rfl) fun _ => ?_
  refine Fixes.bind (.of_run fun _ => rfl) fun _ => ?_
  exact (fixes_narrowTruthiness (fun _ _ => rfl) (fun _ _ => rfl) ..).bind fun _ => .pure

end Analysis

end FlowTyping

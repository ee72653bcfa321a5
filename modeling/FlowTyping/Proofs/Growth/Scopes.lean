import FlowTyping.Proofs.Analysis.Knowledge
import FlowTyping.Proofs.Analysis.Tests

/-!
# Scopes that lose nothing

A scope grows to another one that binds at least its names, with at least their marks, and has at
least its flags.  Types are left out: they change both ways.  Only that nothing is known of a variable
may be asked to stay so.
-/

namespace FlowTyping

open List Option Assertions Bool

variable {types : Prop} {v w : Variable} {W : Watch} {s t : Scope} {σ τ : Store} {name : String}
  {paths : List Scope}

/-- The second variable has the marks of the first. -/
structure Variable.MarksLe (v w : Variable) : Prop where
  used : v.used = true → w.used = true
  written : v.written = true → w.written = true
  byReference : v.byReference = true → w.byReference = true

lemma Variable.MarksLe.refl (v : Variable) : v.MarksLe v :=
  ⟨id, id, id⟩

lemma Variable.MarksLe.trans {u : Variable} (h : u.MarksLe v) (h' : v.MarksLe w) :
    u.MarksLe w :=
  ⟨h'.used ∘ h.used, h'.written ∘ h.written, h'.byReference ∘ h.byReference⟩

/-- Besides, nothing is known of the second variable where nothing is known of the first, if types
matter. -/
structure Variable.Leads (types : Prop) (v w : Variable) : Prop extends v.MarksLe w where
  unknown : types → v.type = none → w.type = none

lemma Variable.Leads.refl (v : Variable) : v.Leads types v :=
  ⟨.refl v, fun _ => id⟩

lemma Variable.Leads.trans {u : Variable} (h : u.Leads types v)
    (h' : v.Leads types w) : u.Leads types w :=
  ⟨h.toMarksLe.trans h'.toMarksLe, fun ht => h'.unknown ht ∘ h.unknown ht⟩

/-- Which variables are watched, and whether it matters that nothing is known of them. -/
structure Watch where
  names : String → Prop
  types : Prop

/-- All variables are watched, whatever their types are. -/
abbrev Watch.all : Watch :=
  ⟨fun _ => True, False⟩

/-- A variable is watched of which nothing is known. -/
abbrev Watch.unknown (name : String) : Watch :=
  ⟨(· = name), True⟩

/-- The variable may be given a type. -/
def Watch.Free (W : Watch) (name : String) : Prop :=
  W.types → ¬ W.names name

/-- The second flags have those set that the first have. -/
structure ScopeFlags.Le (f g : ScopeFlags) : Prop where
  isGlobal : f.isGlobal = true → g.isGlobal = true
  isStatic : f.isStatic = true → g.isStatic = true
  isStrict : f.isStrict = true → g.isStrict = true
  isClosure : f.isClosure = true → g.isClosure = true
  isArrow : f.isArrow = true → g.isArrow = true
  isDynamic : f.isDynamic = true → g.isDynamic = true

namespace ScopeFlags.Le

variable {f g k : ScopeFlags}

lemma refl (f : ScopeFlags) : f.Le f :=
  ⟨id, id, id, id, id, id⟩

lemma trans (h : f.Le g) (h' : g.Le k) : f.Le k :=
  ⟨h'.isGlobal ∘ h.isGlobal, h'.isStatic ∘ h.isStatic, h'.isStrict ∘ h.isStrict,
    h'.isClosure ∘ h.isClosure, h'.isArrow ∘ h.isArrow, h'.isDynamic ∘ h.isDynamic⟩

lemma union_left (f g : ScopeFlags) : f.Le (f.union g) := by
  constructor <;> simp +contextual [ScopeFlags.union]

lemma union_right (f g : ScopeFlags) : g.Le (f.union g) := by
  constructor <;> simp +contextual [ScopeFlags.union]

lemma union (h : f.Le k) (h' : g.Le k) : (f.union g).Le k where
  isGlobal hm := (or_eq_true_iff.1 hm).elim h.isGlobal h'.isGlobal
  isStatic hm := (or_eq_true_iff.1 hm).elim h.isStatic h'.isStatic
  isStrict hm := (or_eq_true_iff.1 hm).elim h.isStrict h'.isStrict
  isClosure hm := (or_eq_true_iff.1 hm).elim h.isClosure h'.isClosure
  isArrow hm := (or_eq_true_iff.1 hm).elim h.isArrow h'.isArrow
  isDynamic hm := (or_eq_true_iff.1 hm).elim h.isDynamic h'.isDynamic

end ScopeFlags.Le

namespace Scope

/-- The scope `t` binds the names that `s` binds, with their marks, and has the flags of `s`. -/
structure GrowsTo (s : Scope) (σ : Store) (t : Scope) (τ : Store) : Prop where
  vars : ∀ {name v}, s.var? σ name = some v → ∃ w, t.var? τ name = some w ∧ v.MarksLe w
  flags : s.flags.Le t.flags

/-- The same for the variables that are watched. -/
structure Leads (W : Watch) (s : Scope) (σ : Store) (t : Scope) (τ : Store) : Prop where
  vars : ∀ {name v}, W.names name → s.var? σ name = some v →
    ∃ w, t.var? τ name = some w ∧ v.Leads W.types w
  flags : s.flags.Le t.flags

namespace Leads

variable {u : Scope} {υ : Store}

lemma growsTo (h : s.Leads .all σ t τ) : s.GrowsTo σ t τ where
  vars hv := by
    obtain ⟨w, hw, hvw⟩ := h.vars trivial hv
    exact ⟨w, hw, hvw.toMarksLe⟩
  flags := h.flags

lemma of_var?_eq (hvars : ∀ name, t.var? τ name = s.var? σ name) (hflags : t.flags = s.flags) :
    s.Leads W σ t τ :=
  ⟨fun {name v} _ hv => ⟨v, (hvars name).trans hv, .refl v⟩, hflags ▸ .refl _⟩

lemma refl (s : Scope) (σ : Store) : s.Leads W σ s σ :=
  .of_var?_eq (fun _ => rfl) rfl

lemma trans (h : s.Leads W σ t τ) (h' : t.Leads W τ u υ) : s.Leads W σ u υ := by
  refine ⟨fun hname hv => ?_, h.flags.trans h'.flags⟩
  obtain ⟨w, hw, hvw⟩ := h.vars hname hv
  obtain ⟨x, hx, hwx⟩ := h'.vars hname hw
  exact ⟨x, hx, hvw.trans hwx⟩

lemma contains_eq (s : Scope) (σ : Store) (name : String) :
    s.contains name = (s.var? σ name).isSome := by
  simp [contains, var?, slot?, Dict.contains]

lemma contains (h : s.Leads W σ t τ) (hname : W.names name) (hs : s.contains name = true) :
    t.contains name = true := by
  rw [contains_eq s σ] at hs
  obtain ⟨v, hv⟩ := isSome_iff_exists.1 hs
  obtain ⟨w, hw, -⟩ := h.vars hname hv
  rw [contains_eq t τ, hw]
  rfl

lemma reads (h : s.Leads W σ t τ) (hname : W.names name) (hs : s.reads σ name = true) :
    t.reads τ name = true := by
  rw [Scope.reads, Option.any_eq_true] at hs
  obtain ⟨v, hv, hused⟩ := hs
  obtain ⟨w, hw, hvw⟩ := h.vars hname hv
  rw [Scope.reads, hw]
  exact hvw.used hused

end Leads

variable {P : Ty → Prop} {other : Scope}

/-! ## Single variables -/

lemma leads_updateVar (hs : s.Wf P σ) (name : String) {f : Variable → Variable}
    (hf : W.names name → ∀ v : Variable, v.Leads W.types (f v)) :
    s.Leads W σ s (s.updateVar σ name f) := by
  refine ⟨fun {other v} hother hv => ?_, .refl _⟩
  rw [var?_updateVar hs]
  split
  · next h =>
    subst h
    exact ⟨f v, by rw [hv, map_some], hf hother v⟩
  · exact ⟨v, hv, .refl v⟩

lemma leads_markUsed (hs : s.Wf P σ) (name : String) : s.Leads W σ s (s.markUsed σ name) :=
  leads_updateVar hs name fun _ _ => ⟨⟨fun _ => rfl, id, id⟩, fun _ => id⟩

lemma leads_markWritten (hs : s.Wf P σ) (name : String) (line : Line) :
    s.Leads W σ s (s.markWritten σ name line) :=
  leads_updateVar hs name fun _ _ => ⟨⟨id, fun _ => rfl, id⟩, fun _ => id⟩

lemma leads_markByReference (hs : s.Wf P σ) (name : String) :
    s.Leads W σ s (s.markByReference σ name) :=
  leads_updateVar hs name fun _ _ => ⟨⟨id, id, fun _ => rfl⟩, fun _ => id⟩

lemma leads_bindNew (hs : s.Wf P σ) (hname : s.slot? name = none) (v : Variable) :
    s.Leads W σ (s.bindNew σ name v).1 (s.bindNew σ name v).2 := by
  refine ⟨fun {other w} _ hw => ⟨w, ?_, .refl w⟩, .refl _⟩
  rw [var?_bindNew hs, if_neg, hw]
  rintro rfl
  rw [var?, hname] at hw
  cases hw

lemma leads_assign (hs : s.Wf P σ) (name : String) {type : Option Ty}
    (hfree : type.isSome = true → s.contains name = true → W.Free name) (line : Line) :
    s.Leads W σ (s.assign σ name type line).1 (s.assign σ name type line).2 := by
  unfold assign
  cases hslot : s.slot? name with
  | some slot =>
    have hbound : s.contains name = true := by simp [Leads.contains_eq s σ, var?, hslot]
    have htype (hname : W.names name) (ht : W.types) : type = none :=
      not_isSome_iff_eq_none.1 fun h => hfree h hbound ht hname
    have hgrows := leads_updateVar hs name
      (f := fun v => { v with type, written := true, typeChanged := true, line })
      fun hname _ => ⟨⟨id, fun _ => rfl, id⟩, fun ht _ => htype hname ht⟩
    rw [updateVar, hslot] at hgrows
    exact hgrows.trans (.of_var?_eq (fun _ => rfl) rfl)
  | none => exact (leads_bindNew hs hslot _).trans (.of_var?_eq (fun _ => rfl) rfl)

lemma leads_narrow (hs : s.Wf P σ) (hfree : W.Free name) (t : Ty) (line : Line) :
    s.Leads W σ (s.narrow σ name t line).1 (s.narrow σ name t line).2 := by
  unfold narrow
  cases hslot : s.slot? name with
  | some slot =>
    have hgrows := leads_updateVar hs name (f := fun v => { v with type := some t })
      fun hname _ => ⟨⟨id, id, id⟩, fun ht => absurd hname (hfree ht)⟩
    rwa [updateVar, hslot] at hgrows
  | none => exact leads_bindNew hs hslot _

lemma leads_ensure (hs : s.Wf P σ) (name : String) (line : Line) :
    s.Leads W σ (s.ensure σ name line).2.1 (s.ensure σ name line).2.2 := by
  unfold ensure
  cases hslot : s.slot? name with
  | some slot => exact .refl s σ
  | none => exact leads_bindNew hs hslot _

lemma leads_setChain (key : String) (type : Option Ty) :
    s.Leads W σ (s.setChain key type) σ := by
  cases type <;> exact .of_var?_eq (fun _ => rfl) rfl

lemma leads_markDynamic : s.Leads W σ s.markDynamic σ :=
  ⟨fun {_ v} _ hv => ⟨v, hv, .refl v⟩, id, id, id, id, id, fun _ => rfl⟩

lemma leads_narrowIn (hs : s.Wf P σ) {r : Reference} (hfree : ∀ name, r = .var name → W.Free name)
    (type : Option Ty) (define : Bool) (line : Line) :
    s.Leads W σ (r.narrowIn type define line s σ).1 (r.narrowIn type define line s σ).2 := by
  unfold Reference.narrowIn
  split
  · split
    · exact leads_narrow hs (hfree _ rfl) ..
    · exact .refl s σ
  · split
    · exact leads_ensure hs ..
    · exact .refl s σ
  · next key t => exact leads_setChain key (some t)
  · exact .refl s σ

/-! ## Paths -/

lemma leads_fork (hs : s.Wf P σ) : s.Leads W σ (s.fork σ).1 (s.fork σ).2 := by
  refine ⟨fun {name v} _ hv => ⟨unchanged v, ?_, ⟨id, id, id⟩, fun _ => id⟩, .refl _⟩
  rw [var?_fork hs.placed, hv, map_some]

lemma leads_forkScope (hs : s.Wf P σ) (o : Option Scope) :
    s.Leads W σ s (forkScope o σ).2 := by
  cases o with
  | none => exact .refl s σ
  | some t =>
    exact .of_var?_eq (fun name => map_congr fun k hk => read_fork_of_lt (hs.lt ⟨name, hk⟩))
      rfl

lemma leads_forkAssertions {a : Assertions} {outcome : Bool} (ha : ∀ s ∈ a.scopes, s.Wf P σ)
    (ht : (a.fork σ).1.on outcome = some t) :
    ∃ s, a.on outcome = some s ∧ s.Leads W σ t (a.fork σ).2 := by
  obtain ⟨whenTrue, whenFalse⟩ := a
  cases outcome with
  | true =>
    cases whenTrue with
    | none => cases ht
    | some s =>
      obtain rfl : (s.fork σ).1 = t := some.inj ht
      have hs : s.Wf P σ := ha s (by simp [scopes])
      exact ⟨s, rfl, (leads_fork hs).trans (leads_forkScope (wf_fork hs) whenFalse)⟩
  | false =>
    cases whenFalse with
    | none => cases ht
    | some s =>
      obtain rfl : (s.fork (forkScope whenTrue σ).2).1 = t := some.inj ht
      have hs : s.Wf P σ := ha s (by simp [scopes])
      have hle : σ.size ≤ (forkScope whenTrue σ).2.size := by
        cases whenTrue with
        | none => exact le_rfl
        | some t => exact size_le_size_fork
      exact ⟨s, rfl, (leads_forkScope hs whenTrue).trans (leads_fork (hs.mono hle))⟩

lemma type_mergeVar_eq_none :
    (mergeVar v w).type = none ↔ v.type = none ∨ w.type = none := by
  unfold mergeVar
  by_cases heq : (v.type == w.type) = true <;> cases hv : v.type <;> cases hw : w.type <;>
    simp_all [Ty.join?]

lemma joinVar?_some_left (v : Variable) (o : Option Variable) :
    ∃ w, joinVar? (some v) o = some w ∧ v.Leads types w := by
  cases o with
  | none => exact ⟨v, rfl, .refl v⟩
  | some w =>
    refine ⟨_, rfl, ?_, fun _ hv => type_mergeVar_eq_none.2 (.inl hv)⟩
    constructor <;> simp +contextual [mergeVar]

lemma joinVar?_some_right (o : Option Variable) (v : Variable) :
    ∃ w, joinVar? o (some v) = some w ∧ v.Leads types w := by
  cases o with
  | none => exact ⟨v, rfl, .refl v⟩
  | some w =>
    refine ⟨_, rfl, ?_, fun _ hv => type_mergeVar_eq_none.2 (.inr hv)⟩
    constructor <;> simp +contextual [mergeVar]

section Merge

variable (hs : s.Wf P σ) (ho : other.Wf P σ)

include hs ho

lemma leads_merge_left (hapart : other.Apart s) :
    s.Leads W σ (s.merge other σ).1 (s.merge other σ).2 := by
  refine ⟨fun {name v} _ hv => ?_, .union_left ..⟩
  rw [var?_merge hs ho hapart, hv]
  exact joinVar?_some_left ..

lemma leads_merge_right (hapart : other.Apart s) :
    other.Leads W σ (s.merge other σ).1 (s.merge other σ).2 := by
  refine ⟨fun {name v} _ hv => ?_, .union_right ..⟩
  rw [var?_merge hs ho hapart, hv]
  exact joinVar?_some_right ..

lemma leads_of_merge (hapart : other.Apart s) (h : s.Leads W σ t τ) (h' : other.Leads W σ t τ) :
    (s.merge other σ).1.Leads W (s.merge other σ).2 t τ := by
  refine ⟨fun {name v} hname hv => ?_, .union h.flags h'.flags⟩
  rw [var?_merge hs ho hapart] at hv
  cases hours : s.var? σ name with
  | none =>
    rw [hours, joinVar?_none_left] at hv
    exact h'.vars hname hv
  | some ours =>
    obtain ⟨w, hw, hle⟩ := h.vars hname hours
    cases htheirs : other.var? σ name with
    | none =>
      rw [hours, htheirs, joinVar?_none_right] at hv
      exact h.vars hname (hours.trans hv)
    | some theirs =>
      obtain ⟨w', hw', hle'⟩ := h'.vars hname htheirs
      obtain rfl : w = w' := some.inj (hw.symm.trans hw')
      rw [hours, htheirs] at hv
      obtain rfl : mergeVar ours theirs = v := some.inj hv
      refine ⟨w, hw, ⟨fun hm => ?_, fun hm => ?_, fun hm => ?_⟩, fun ht hv => ?_⟩
      · exact (or_eq_true_iff.1 hm).elim hle.used hle'.used
      · exact (or_eq_true_iff.1 hm).elim hle.written hle'.written
      · exact (or_eq_true_iff.1 hm).elim hle.byReference hle'.byReference
      · exact (type_mergeVar_eq_none.1 hv).elim (hle.unknown ht) (hle'.unknown ht)

lemma leads_merged_left : s.Leads W σ (merged s other σ).1 (merged s other σ).2 := by
  refine ⟨fun {name v} _ hv => ?_, .union_left ..⟩
  rw [var?_merged hs ho, hv]
  obtain ⟨w, hw, hvw⟩ := joinVar?_some_left (unchanged v) (other.var? σ name)
  exact ⟨w, hw, ⟨hvw.used, hvw.written, hvw.byReference⟩, hvw.unknown⟩

lemma leads_merged_right : other.Leads W σ (merged s other σ).1 (merged s other σ).2 := by
  refine ⟨fun {name v} _ hv => ?_, .union_right ..⟩
  rw [var?_merged hs ho, hv]
  exact joinVar?_some_right ..

lemma leads_replaceWith (hapart : other.Apart s) :
    other.Leads W σ (s.replaceWith other σ).1 (s.replaceWith other σ).2 :=
  .of_var?_eq (fun name => var?_replaceWith hs.placed ho.placed.nodup hapart name) rfl

end Merge

lemma leads_mergeAll (hP : ∀ a b, P a → P b → P (Ty.join a b)) (hs : s.Wf P σ)
    (hpaths : ∀ t ∈ paths, t.Wf P σ) (hσ : σ.TypesIn P) (hapart : ∀ t ∈ paths, t.Apart s)
    (hpair : paths.Pairwise Apart) :
    ∀ t ∈ s :: paths, t.Leads W σ (s.mergeAll paths σ).1 (s.mergeAll paths σ).2 := by
  induction paths generalizing s σ with
  | nil =>
    intro t ht
    obtain rfl := mem_singleton.1 ht
    exact .refl t σ
  | cons path paths ih =>
    rw [forall_mem_cons] at hpaths hapart
    rw [pairwise_cons] at hpair
    have hc := change_merge hP hs hpaths.1 hσ le_rfl
    have hlt : ∀ t ∈ paths, ∀ k, t.Owns k → k < σ.size := fun t ht k hk => (hpaths.2 t ht).lt hk
    have hrest := ih hc.wf (fun t ht => (hpaths.2 t ht).mono hc.size_le) hc.types
      (fun t ht => hc.apart (hlt t ht) (hapart.2 t ht)) hpair.2
    rw [forall_mem_cons] at hrest
    refine forall_mem_cons.2 ⟨?_, forall_mem_cons.2 ⟨?_, fun t ht => ?_⟩⟩
    · exact (leads_merge_left hs hpaths.1 hapart.1).trans hrest.1
    · exact (leads_merge_right hs hpaths.1 hapart.1).trans hrest.1
    · refine Leads.trans (.of_var?_eq (fun name => ?_) rfl) (hrest.2 t ht)
      exact hc.var?_eq (hlt t ht) (hapart.2 t ht) name

section Absorb

variable (hs : s.Wf P σ) (hσ : σ.TypesIn P) (hwf : ∀ p ∈ paths, p.Wf P σ)
  (hapart : ∀ p ∈ paths, p.Apart s)

include hs hσ hwf hapart

lemma leads_absorbAll :
    s.Leads W σ s (paths.foldl (fun σ path => s.absorbUsage path σ) σ) := by
  refine ⟨fun {name v} _ hv => ?_, .refl _⟩
  rw [var?_absorbAll hs hσ hwf hapart, hv, map_some]
  refine ⟨_, rfl, ⟨?_, id, id⟩, fun _ => id⟩
  simp +contextual [readIf]

lemma reads_absorbAll {path : Scope} (hpath : path ∈ paths) (hread : path.reads σ name = true)
    (hname : s.contains name = true) :
    s.reads (paths.foldl (fun σ path => s.absorbUsage path σ) σ) name = true := by
  rw [Leads.contains_eq s σ] at hname
  obtain ⟨v, hv⟩ := isSome_iff_exists.1 hname
  have hany : (paths.any fun p => (p.var? σ name).any Variable.used) = true :=
    any_eq_true.2 ⟨path, hpath, hread⟩
  rw [Scope.reads, var?_absorbAll hs hσ hwf hapart, hany, hv]
  simp [readIf]

end Absorb

end Scope

end FlowTyping

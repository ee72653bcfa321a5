import FlowTyping.Proofs.Scope.Paths
import FlowTyping.Proofs.Ty.Canonical

/-!
# Joins do not depend on the order of the paths

A join is built path by path, and each step looks at what is there already: equal types are kept as
they are spelled, others are united.  The result is the same for every order all the same.

**Sums.**  What a join says is a sum over the paths: `Ty.KnownSum` for types, `Variable.SumsUp` for
variables, `Scope.IsJoin` for whole scopes.  Every step of a join adds one summand
(`Variable.SumsUp.merge`, `Scope.isJoin_joinAll`).
-/

namespace FlowTyping

open Dict List Option Scope Ty Variable

variable {types : List (Option Ty)} {v : Variable} {vs vs' : List Variable} {σ : Store}
  {paths : List Scope}

/-! ## Sums of types -/

namespace Ty

/-- What is known of a value that has one of the types; one that is unknown leaves nothing known. -/
inductive KnownSum : Option Ty → List (Option Ty) → Prop
  | unknown {types : List (Option Ty)} : none ∈ types → KnownSum none types
  | known {t : Ty} {ts : List Ty} : SumsUp t ts → KnownSum (some t) (ts.map some)

namespace KnownSum

variable {r r' a : Option Ty} {types' : List (Option Ty)}

lemma singleton (ha : KnownIn Canonical a) : KnownSum a [a] := by
  cases a with
  | none => exact .unknown (mem_singleton_self none)
  | some t => exact .known (.singleton (ha t rfl))

lemma join? (h : KnownSum r types) (ha : KnownIn Canonical a) :
    KnownSum (join? r a) (types ++ [a]) := by
  cases h with
  | unknown hmem => exact .unknown (mem_append_left _ hmem)
  | @known t ts hsum =>
    cases a with
    | none => exact .unknown (mem_append_right _ (mem_singleton_self none))
    | some u =>
      have hmap : ts.map some ++ [some u] = (ts ++ [u]).map some := by simp
      rw [hmap]
      exact .known (hsum.join (ha u rfl))

lemma add_of_beq (h : KnownSum r types) (ha : KnownIn Canonical a) (heq : (r == a) = true) :
    KnownSum r (types ++ [a]) := by
  cases h with
  | unknown hmem => exact .unknown (mem_append_left _ hmem)
  | @known t ts hsum =>
    cases a with
    | none => cases heq
    | some u =>
      have hmap : ts.map some ++ [some u] = (ts ++ [u]).map some := by simp
      rw [hmap]
      exact .known (hsum.add_of_eqv (ha u rfl) heq)

lemma beq_of_perm (h : KnownSum r types) (h' : KnownSum r' types') (hperm : types.Perm types') :
    (r == r') = true := by
  cases h with
  | unknown hmem =>
    cases h' with
    | unknown _ => rfl
    | known _ => simpa using hperm.subset hmem
  | known hsum =>
    cases h' with
    | unknown hmem => simpa using hperm.symm.subset hmem
    | known hsum' =>
      exact hsum.eqv_of_perm hsum' ((map_perm_map_iff fun _ _ => some.inj).1 hperm)

end KnownSum

end Ty

/-! ## Sums of variables -/

namespace Variable

/-- Equal types, or nothing known of either, and the same marks and line. -/
structure Agrees (v w : Variable) : Prop where
  type : (v.type == w.type) = true
  used : v.used = w.used
  written : v.written = w.written
  typeChanged : v.typeChanged = w.typeChanged
  byReference : v.byReference = w.byReference
  line : v.line = w.line

/-- The variable has a type and the marks of all variables in the list, and the last of their
lines. -/
structure SumsUp (r : Variable) (vs : List Variable) : Prop where
  type : KnownSum r.type (vs.map type)
  used : r.used = vs.any used
  written : r.written = vs.any written
  typeChanged : r.typeChanged = vs.any typeChanged
  byReference : r.byReference = vs.any byReference
  line_mem : ∃ v ∈ vs, v.line = r.line
  line_le : ∀ v ∈ vs, v.line ≤ r.line

namespace SumsUp

variable {r r' : Variable}

lemma singleton (hv : v.TypeIn Canonical) : SumsUp v [v] where
  type := .singleton hv
  used := by simp
  written := by simp
  typeChanged := by simp
  byReference := by simp
  line_mem := ⟨v, .head _, rfl⟩
  line_le w hw := by
    rw [mem_singleton.1 hw]
    exact UInt32.le_refl _

lemma le_max_line (a b : Line) : a ≤ max a b ∧ b ≤ max a b := by
  show a ≤ (if a ≤ b then b else a) ∧ b ≤ (if a ≤ b then b else a)
  split
  · next hle => exact ⟨hle, UInt32.le_refl b⟩
  · next hle => exact ⟨UInt32.le_refl a, (UInt32.le_total a b).resolve_left hle⟩

lemma merge (h : SumsUp r vs) (hv : v.TypeIn Canonical) :
    SumsUp (mergeVar r v) (vs ++ [v]) where
  type := by
    rw [map_append, map_singleton]
    show KnownSum (if _ then _ else _) _
    split
    · next heq => exact h.type.add_of_beq hv heq
    · exact h.type.join? hv
  used := by simp [mergeVar, h.used]
  written := by simp [mergeVar, h.written]
  typeChanged := by simp [mergeVar, h.typeChanged]
  byReference := by simp [mergeVar, h.byReference]
  line_mem := by
    obtain ⟨w, hw, hline⟩ := h.line_mem
    by_cases hle : r.line ≤ v.line
    · exact ⟨v, mem_append_right _ (.head _), (if_pos hle).symm⟩
    · exact ⟨w, mem_append_left _ hw, hline.trans (if_neg hle).symm⟩
  line_le w hw := by
    have hmax : r.line ≤ max r.line v.line ∧ v.line ≤ max r.line v.line := le_max_line ..
    rcases mem_append.1 hw with hw | hw
    · exact UInt32.le_trans (h.line_le w hw) hmax.1
    · rw [mem_singleton.1 hw]
      exact hmax.2

lemma agrees (h : SumsUp r vs) (h' : SumsUp r' vs') (hperm : vs.Perm vs') : r.Agrees r' where
  type := h.type.beq_of_perm h'.type (hperm.map _)
  used := by rw [h.used, h'.used, hperm.any_eq]
  written := by rw [h.written, h'.written, hperm.any_eq]
  typeChanged := by rw [h.typeChanged, h'.typeChanged, hperm.any_eq]
  byReference := by rw [h.byReference, h'.byReference, hperm.any_eq]
  line := by
    obtain ⟨v, hv, hline⟩ := h.line_mem
    obtain ⟨w, hw, hline'⟩ := h'.line_mem
    refine UInt32.le_antisymm ?_ ?_
    · exact hline ▸ h'.line_le v (hperm.subset hv)
    · exact hline' ▸ h.line_le w (hperm.symm.subset hw)

end SumsUp

end Variable

/-! ## Sums of scopes -/

namespace ScopeFlags

lemma union_comm (a b : ScopeFlags) : a.union b = b.union a := by
  simp only [union, Bool.or_comm]

lemma union_assoc (a b c : ScopeFlags) : (a.union b).union c = a.union (b.union c) := by
  simp only [union, Bool.or_assoc]

lemma union_self (a : ScopeFlags) : a.union a = a := by
  simp only [union, Bool.or_self]

lemma empty_union (a : ScopeFlags) : union {} a = a := by
  simp only [union, Bool.false_or]

/-- The flags set in any of the list. -/
def unionAll (flags : List ScopeFlags) : ScopeFlags :=
  flags.foldl union {}

lemma unionAll_perm {flags flags' : List ScopeFlags} (h : flags.Perm flags') :
    unionAll flags = unionAll flags' := by
  have : RightCommutative union :=
    ⟨fun a b c => by rw [union_assoc, union_comm b c, ← union_assoc]⟩
  exact h.foldl_eq _

end ScopeFlags

namespace Scope

variable {s other : Scope} {τ τ' : Store}

/-- The types of the scope's variables and chains are canonical. -/
structure CanonicalTypes (s : Scope) (σ : Store) : Prop where
  vars : ∀ e ∈ s.vars.entries, (σ.read e.2).TypeIn Canonical
  chains : ∀ e ∈ s.chains.entries, e.2.Canonical

lemma CanonicalTypes.var? {name : String} (h : s.CanonicalTypes σ) (hv : s.var? σ name = some v) :
    v.TypeIn Canonical := by
  obtain ⟨slot, hslot, rfl⟩ := map_eq_some_iff.1 hv
  exact h.vars _ (mem_of_find hslot)

lemma CanonicalTypes.chain? (h : s.CanonicalTypes σ) (key : String) :
    KnownIn Canonical (s.chain? key) :=
  fun t ht => h.chains (key, t) (mem_of_find ht)

lemma get?_mergeChains (ours theirs : Dict Ty) (key : String) :
    (mergeChains ours theirs).get? key = join? (ours.get? key) (theirs.get? key) := by
  obtain ⟨entries⟩ := ours
  simp only [mergeChains, Dict.filterMap, Dict.get?]
  induction entries with
  | nil => rfl
  | cons entry rest ih =>
    obtain ⟨name, t⟩ := entry
    rw [filterMap_cons, Dict.find]
    cases hget : Dict.find name theirs.entries with
    | none =>
      simp only [map_none, ih, beq_iff_eq]
      split
      · next hname =>
        subst hname
        rw [hget]
        cases Dict.find name rest <;> rfl
      · rfl
    | some u =>
      simp only [map_some, Dict.find, ih, beq_iff_eq]
      split
      · next hname =>
        subst hname
        rw [hget]
        rfl
      · rfl

lemma chain?_merge (key : String) :
    (s.merge other σ).1.chain? key = join? (s.chain? key) (other.chain? key) :=
  get?_mergeChains s.chains other.chains key

/-- What is known of a name where paths meet that say different things of it, or nothing. -/
inductive VarSum : Option Variable → List Variable → Prop
  | unbound : VarSum none []
  | bound {r : Variable} {vs : List Variable} : r.SumsUp vs → VarSum (some r) vs

lemma VarSum.agrees {r r' : Option Variable} (h : VarSum r vs) (h' : VarSum r' vs')
    (hperm : vs.Perm vs') : Rel Agrees r r' := by
  have hne : ∀ {r : Variable} {vs : List Variable}, r.SumsUp vs → vs ≠ [] := fun hsum =>
    let ⟨_, hv, _⟩ := hsum.line_mem
    ne_nil_of_mem hv
  cases h with
  | unbound =>
    cases h' with
    | unbound => exact .none
    | bound hsum => exact absurd hperm.nil_eq.symm (hne hsum)
  | bound hsum =>
    cases h' with
    | unbound => exact absurd hperm.eq_nil (hne hsum)
    | bound hsum' => exact .some (hsum.agrees hsum' hperm)

lemma VarSum.join {r : Option Variable} {next : Option Variable} (h : VarSum r vs)
    (hnext : ∀ v, next = some v → v.TypeIn Canonical) :
    VarSum (joinVar? r next) (vs ++ next.toList) := by
  cases h with
  | unbound =>
    cases next with
    | none => exact .unbound
    | some v => exact .bound (.singleton (hnext v rfl))
  | bound hsum =>
    cases next with
    | none => simpa using VarSum.bound hsum
    | some v => exact .bound (hsum.merge (hnext v rfl))

lemma varSum_joinVars? {vars : List (Option Variable)}
    (h : ∀ v, some v ∈ vars → v.TypeIn Canonical) :
    VarSum (joinVars? vars) (vars.filterMap id) := by
  -- The induction is on the last path: it is the one that is joined last.
  induction vars using reverseRecOn with
  | nil => exact .unbound
  | append_singleton vars next ih =>
    have hvars := ih fun v hv => h v (mem_append_left _ hv)
    have hlast : [next].filterMap id = next.toList := by
      cases next <;> rfl
    rw [joinVars?, foldl_append, filterMap_append, hlast]
    exact hvars.join fun v hv => h v (mem_append_right _ (hv ▸ .head _))

/-- The scope says what the paths say together. -/
structure IsJoin (joined : Scope) (τ : Store) (paths : List Scope) (σ : Store) : Prop where
  nodup : joined.vars.keys.Nodup
  names : ∀ name, joined.contains name = true ↔ ∃ s ∈ paths, s.contains name = true
  flags : joined.flags = ScopeFlags.unionAll (paths.map flags)
  chains : ∀ key, KnownSum (joined.chain? key) (paths.map fun s => s.chain? key)
  vars : ∀ name, VarSum (joined.var? τ name) (paths.filterMap fun s => s.var? σ name)

/-- The same names with agreeing variables, the same flags, and equal chains under the same keys. -/
structure Agree (a : Scope) (σ : Store) (b : Scope) (τ : Store) : Prop where
  names : a.vars.keys.Perm b.vars.keys
  flags : a.flags = b.flags
  chains : ∀ key, (a.chain? key == b.chain? key) = true
  vars : ∀ name, Rel Agrees (a.var? σ name) (b.var? τ name)

lemma IsJoin.agree {joined joined' : Scope} {paths' : List Scope} (h : joined.IsJoin τ paths σ)
    (h' : joined'.IsJoin τ' paths' σ) (hperm : paths.Perm paths') : joined.Agree τ joined' τ' where
  names := by
    refine (perm_ext_iff_of_nodup h.nodup h'.nodup).2 fun name => ?_
    have hnames : joined.contains name = true ↔ joined'.contains name = true := by
      rw [h.names, h'.names]
      exact exists_congr fun s => and_congr_left' hperm.mem_iff
    rwa [contains, contains, contains_iff, contains_iff] at hnames
  flags := by rw [h.flags, h'.flags, ScopeFlags.unionAll_perm (hperm.map _)]
  chains key := (h.chains key).beq_of_perm (h'.chains key) (hperm.map _)
  vars name := (h.vars name).agrees (h'.vars name) (hperm.filterMap _)

/-! ## Joining paths adds them up -/

lemma flags_mergeAll (paths : List Scope) :
    (s.mergeAll paths σ).1.flags = (paths.map flags).foldl ScopeFlags.union s.flags := by
  induction paths generalizing s σ with
  | nil => rfl
  | cons path paths ih => rw [mergeAll_cons, ih, map_cons, foldl_cons, merge]

lemma knownSum_chain?_mergeAll {key : String} (h : KnownSum (s.chain? key) types)
    (hpaths : ∀ t ∈ paths, KnownIn Canonical (t.chain? key)) :
    KnownSum ((s.mergeAll paths σ).1.chain? key) (types ++ paths.map fun t => t.chain? key) := by
  induction paths generalizing s σ types with
  | nil => simpa using h
  | cons path paths ih =>
    rw [forall_mem_cons] at hpaths
    have hstep := h.join? hpaths.1
    rw [← chain?_merge (σ := σ)] at hstep
    rw [mergeAll_cons, map_cons, append_cons]
    exact ih hstep hpaths.2

lemma isJoin_mergeAll {first : Scope} {rest : List Scope}
    (hwf : ∀ t ∈ first :: rest, Placed t.vars σ)
    (htypes : ∀ t ∈ first :: rest, t.CanonicalTypes σ)
    (hapart : (first :: rest).Pairwise Apart) :
    (first.mergeAll rest σ).1.IsJoin (first.mergeAll rest σ).2 (first :: rest) σ := by
  have hwf' : ∀ t ∈ first :: rest, t.Wf (fun _ => True) σ := fun t ht =>
    ⟨hwf t ht, fun _ _ => trivial⟩
  rw [forall_mem_cons] at hwf'
  obtain ⟨hfirst, hrest⟩ := pairwise_cons.1 hapart
  have hchange := change_mergeAll (n := σ.size) (fun _ _ _ _ => trivial) hwf'.1 hwf'.2
    σ.typesIn_true le_rfl
  refine ⟨hchange.wf.placed.nodup, fun name => ?_, ?_, fun key => ?_, fun name => ?_⟩
  · rw [contains_mergeAll]
    simp
  · rw [flags_mergeAll, ScopeFlags.unionAll, map_cons, foldl_cons,
      ScopeFlags.empty_union]
  · rw [forall_mem_cons] at htypes
    exact knownSum_chain?_mergeAll (.singleton (htypes.1.chain? key)) fun t ht =>
      (htypes.2 t ht).chain? key
  · rw [var?_mergeAll (fun _ _ _ _ => trivial) hwf'.1 hwf'.2 σ.typesIn_true
      (fun t ht => (hfirst t ht).symm) hrest]
    have hsum : VarSum (joinVars? ((first :: rest).map fun t => t.var? σ name))
        (((first :: rest).map fun t => t.var? σ name).filterMap id) := by
      refine varSum_joinVars? fun v hv => ?_
      obtain ⟨t, ht, hv⟩ := mem_map.1 hv
      exact (htypes t ht).var? hv
    rwa [filterMap_map] at hsum

/-! ## A path and its own copy -/

lemma fst_mergeVars_of_contains {entries : List (String × Slot)} {vars : Dict Slot}
    (h : ∀ e ∈ entries, vars.contains e.1 = true) : (mergeVars entries vars σ).1 = vars := by
  fun_induction mergeVars entries vars σ with
  | case1 => rfl
  | case2 _ _ _ _ _ _ _ _ ih => exact ih (forall_mem_cons.1 h).2
  | case3 _ _ _ _ _ _ _ _ _ ih => exact ih (forall_mem_cons.1 h).2
  | case4 name _ _ _ _ hnone =>
    have := (forall_mem_cons.1 h).1
    simp [Dict.contains, hnone] at this

lemma mergeVar_unchanged (v : Variable) : mergeVar v (unchanged v) = v := by
  have htype : (v.type == v.type) = true := by
    cases v.type with
    | none => rfl
    | some t => exact eqv_refl t
  simp only [mergeVar, unchanged, htype, if_true, Bool.or_self, Bool.or_false]
  have : max v.line v.line = v.line := ite_self _
  rw [this]

/-- The scopes hold the same variables and say the same of every name and chain. -/
structure SaysSame (a : Scope) (σ : Store) (b : Scope) (τ : Store) : Prop where
  vars : b.vars = a.vars
  flags : b.flags = a.flags
  chain? : ∀ key, b.chain? key = a.chain? key
  var? : ∀ name, b.var? τ name = a.var? σ name

lemma saysSame_merge_fork (hs : Placed s.vars σ) (htypes : s.CanonicalTypes σ) :
    s.SaysSame σ (s.merge (s.fork σ).1 (s.fork σ).2).1 (s.merge (s.fork σ).1 (s.fork σ).2).2 where
  vars := by
    refine fst_mergeVars_of_contains fun e he => contains_iff.2 ?_
    rw [← keys_fork (σ := σ)]
    exact mem_map_of_mem he
  flags := ScopeFlags.union_self s.flags
  chain? key := by
    rw [chain?_merge]
    show join? (s.chain? key) (s.chain? key) = s.chain? key
    cases hkey : s.chain? key with
    | none => rfl
    | some t => exact congrArg some (htypes.chain? key t hkey).join_self
  var? name := by
    have hwf : s.Wf (fun _ => True) σ := ⟨hs, fun _ _ => trivial⟩
    have hapart : (s.fork σ).1.Apart s := fun k hk hk' =>
      lt_irrefl k ((hwf.lt hk').trans_le (owns_fork hk).1)
    have hkept : s.var? (s.fork σ).2 name = s.var? σ name :=
      map_congr fun k hk => read_fork_of_lt (hs.lt hk)
    rw [var?_merge (hwf.mono size_le_size_fork) (wf_fork hwf) hapart, hkept, var?_fork hs]
    cases s.var? σ name with
    | none => rfl
    | some v => exact congrArg some (mergeVar_unchanged v)

end Scope

/-! ## Order -/

/-- The join of paths that hold no variable in common, with canonical types, is the same for every
order of the paths; and a path joined with its own copy stays as it is. -/
theorem join_order_irrelevant {σ : Store} {paths paths' : List Scope} (hne : paths ≠ [])
    (hperm : paths.Perm paths') (hplaced : ∀ s ∈ paths, Placed s.vars σ)
    (hapart : paths.Pairwise Apart) (htypes : ∀ s ∈ paths, s.CanonicalTypes σ) :
    (∃ joined τ joined' τ', joinAll paths σ = (some joined, τ) ∧
      joinAll paths' σ = (some joined', τ') ∧ joined.Agree τ joined' τ') ∧
    ∀ s ∈ paths, s.SaysSame σ (s.merge (s.fork σ).1 (s.fork σ).2).1
      (s.merge (s.fork σ).1 (s.fork σ).2).2 := by
  refine ⟨?_, fun s hs => saysSame_merge_fork (hplaced s hs) (htypes s hs)⟩
  have hmem : ∀ {s : Scope}, s ∈ paths' → s ∈ paths := fun hs => hperm.symm.subset hs
  have hapart' : paths'.Pairwise Apart :=
    (hperm.pairwise_iff Apart.symm).1 hapart
  cases paths with
  | nil => exact absurd rfl hne
  | cons first rest =>
    cases paths' with
    | nil => exact absurd hperm.eq_nil hne
    | cons first' rest' =>
      have hjoin := isJoin_mergeAll hplaced htypes hapart
      have hjoin' := isJoin_mergeAll (fun s hs => hplaced s (hmem hs))
        (fun s hs => htypes s (hmem hs)) hapart'
      exact ⟨_, _, _, _, joinAll_cons .., joinAll_cons .., hjoin.agree hjoin' hperm⟩

/-- The bindings of a scope that is written down are placed where no name and no slot repeats. -/
lemma Placed.of_nodup {vars : Dict Slot} (hkeys : vars.keys.Nodup) (hvalues : vars.values.Nodup)
    (hlt : ∀ e ∈ vars.entries, e.2 < σ.size) : Placed vars σ where
  nodup := hkeys
  inj _ _ _ ha hb := eq_of_slot?_eq (s := { vars }) hvalues ha hb
  lt a k ha := hlt (a, k) (mem_of_find ha)

/-- Three ends of a branch.  The first two spell the type of `$x` in different orders, the second
also binds `$y`, and the third has `$x` read. -/
def branchEnds : List Scope :=
  [{ vars := ⟨[("x", 0)]⟩, chains := ⟨[("x->p", .int)]⟩ },
    { vars := ⟨[("y", 2), ("x", 1)]⟩, chains := ⟨[("x->q", .int), ("x->p", .string)]⟩ },
    { vars := ⟨[("x", 3)]⟩, chains := ⟨[("x->p", .int)]⟩, flags := { isDynamic := true } }]

/-- The variables of `branchEnds`. -/
def branchStore : Store :=
  ⟨#[{ name := "x", type := some (.union [.int, .string]), line := 3, written := true },
    { name := "x", type := some (.union [.string, .int]), line := 5, written := true },
    { name := "y", line := 4 },
    { name := "x", type := some .float, line := 2, used := true }]⟩

theorem join_order_irrelevant_branchEnds :
    (∃ joined τ joined' τ', joinAll branchEnds branchStore = (some joined, τ) ∧
      joinAll branchEnds.reverse branchStore = (some joined', τ') ∧
      joined.Agree τ joined' τ') ∧
    ∀ s ∈ branchEnds, s.SaysSame branchStore (s.merge (s.fork branchStore).1 (s.fork branchStore).2).1
      (s.merge (s.fork branchStore).1 (s.fork branchStore).2).2 := by
  refine join_order_irrelevant (by simp [branchEnds]) (reverse_perm _).symm ?_ ?_ ?_
  · have hentries : ∀ s ∈ branchEnds, s.vars.keys.Nodup ∧ s.vars.values.Nodup ∧
        ∀ e ∈ s.vars.entries, e.2 < branchStore.size := by decide
    exact fun s hs => .of_nodup (hentries s hs).1 (hentries s hs).2.1 (hentries s hs).2.2
  · have hvalues : branchEnds.Pairwise fun a b => ∀ k ∈ a.vars.values, k ∉ b.vars.values := by
      decide
    exact hvalues.imp fun h k hk hk' => h k hk.mem_values hk'.mem_values
  · have hvars : ∀ s ∈ branchEnds, ∀ e ∈ s.vars.entries, ∀ t ∈ (branchStore.read e.2).type,
        t.Canonical := by decide
    have hchains : ∀ s ∈ branchEnds, ∀ e ∈ s.chains.entries, e.2.Canonical := by decide
    exact fun s hs => ⟨hvars s hs, hchains s hs⟩

end FlowTyping

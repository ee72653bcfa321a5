import FlowTyping.Proofs.Scope.Placement
import FlowTyping.Scope.Join

/-!
# Copies and joins of scopes

What forking, joining and replacing scopes does to their variables, name by name.

All statements about names need the scopes to be apart: two scopes that share a variable see each
other's writes.
-/

namespace FlowTyping

open List Store Dict Ty

namespace Scope

variable {P : Ty → Prop} {s other replacement t : Scope} {σ : Store} {n k j : Nat}
  {entries : List (String × Slot)} {a : String} {vars : Dict Slot} {paths : List Scope}

/-! ## Forks -/

lemma size_forkVars (entries : List (String × Slot)) (σ : Store) :
    (forkVars entries σ).2.size = σ.size + entries.length := by
  induction entries generalizing σ with
  | nil => rfl
  | cons entry rest ih =>
    obtain ⟨name, slot⟩ := entry
    simp only [forkVars, ih, size_alloc, length_cons]
    omega

lemma map_fst_forkVars (entries : List (String × Slot)) (σ : Store) :
    (forkVars entries σ).1.map Prod.fst = entries.map Prod.fst := by
  induction entries generalizing σ with
  | nil => rfl
  | cons entry rest ih =>
    obtain ⟨name, slot⟩ := entry
    simp [forkVars, ih]

lemma map_snd_forkVars (entries : List (String × Slot)) (σ : Store) :
    (forkVars entries σ).1.map Prod.snd = range' σ.size entries.length := by
  induction entries generalizing σ with
  | nil => rfl
  | cons entry rest ih =>
    obtain ⟨name, slot⟩ := entry
    simp [forkVars, ih, range'_succ]

lemma read_forkVars_of_lt (h : k < σ.size) : (forkVars entries σ).2.read k = σ.read k := by
  induction entries generalizing σ with
  | nil => rfl
  | cons entry rest ih =>
    obtain ⟨name, slot⟩ := entry
    have hlt : k < (σ.alloc { σ.read slot with typeChanged := false }).2.size := by
      simpa using Nat.lt_succ_of_lt h
    simp only [forkVars]
    rw [ih hlt, read_alloc_of_lt h]

/-- A copy of a variable, with the change mark cleared. -/
def unchanged (v : Variable) : Variable :=
  { v with typeChanged := false }

lemma find_forkVars (name : String) (h : ∀ e ∈ entries, e.2 < σ.size) :
    (find name (forkVars entries σ).1).map (forkVars entries σ).2.read =
      (find name entries).map fun k => unchanged (σ.read k) := by
  induction entries generalizing σ with
  | nil => rfl
  | cons entry rest ih =>
    obtain ⟨key, slot⟩ := entry
    have hrest : ∀ e ∈ rest, e.2 < σ.size := fun e he => h e (.tail _ he)
    simp only [forkVars, find]
    by_cases hk : key = name
    · simp only [hk, beq_self_eq_true, if_true, Option.map_some, Option.some.injEq]
      rw [read_forkVars_of_lt (by simp), read_alloc]
      rfl
    · simp only [beq_iff_eq, hk, if_false]
      rw [ih fun e he => by simpa using Nat.lt_succ_of_lt (hrest e he)]
      cases hf : find name rest with
      | none => rfl
      | some k =>
        have : k < σ.size := hrest _ (mem_of_find hf)
        simp [read_alloc_of_lt this]

lemma keys_fork : (s.fork σ).1.vars.keys = s.vars.keys :=
  map_fst_forkVars s.vars.entries σ

lemma size_le_size_fork : σ.size ≤ (s.fork σ).2.size := by
  simp [fork, size_forkVars]

lemma Owns.mem_values (h : s.Owns k) : k ∈ s.vars.values := by
  obtain ⟨name, hname⟩ := h
  exact mem_map_of_mem (mem_of_find hname)

lemma values_fork (s : Scope) (σ : Store) :
    (s.fork σ).1.vars.values = range' σ.size s.vars.entries.length :=
  map_snd_forkVars s.vars.entries σ

lemma nodup_values_fork (s : Scope) (σ : Store) : (s.fork σ).1.vars.values.Nodup := by
  rw [values_fork]
  exact nodup_range'

lemma mem_values_fork (h : k ∈ (s.fork σ).1.vars.values) :
    σ.size ≤ k ∧ k < (s.fork σ).2.size := by
  rw [values_fork, mem_range'_1] at h
  simpa only [fork, size_forkVars] using h

lemma owns_fork (h : (s.fork σ).1.Owns k) : σ.size ≤ k ∧ k < (s.fork σ).2.size :=
  mem_values_fork h.mem_values

lemma eq_of_slot?_eq (h : s.vars.values.Nodup) {b : String} (ha : s.slot? a = some k)
    (hb : s.slot? b = some k) : a = b :=
  congrArg Prod.fst
    (inj_on_of_nodup_map h (mem_of_find ha) (mem_of_find hb) rfl)

lemma placed_fork (h : s.vars.keys.Nodup) : Placed (s.fork σ).1.vars (s.fork σ).2 where
  nodup := by rw [keys_fork]; exact h
  inj _ _ _ := eq_of_slot?_eq (s.nodup_values_fork σ)
  lt a _ hk := (owns_fork ⟨a, hk⟩).2

lemma read_fork_of_lt (h : k < σ.size) : (s.fork σ).2.read k = σ.read k :=
  read_forkVars_of_lt h

lemma var?_fork (h : Placed s.vars σ) (name : String) :
    (s.fork σ).1.var? (s.fork σ).2 name = (s.var? σ name).map unchanged := by
  have := find_forkVars (σ := σ) name fun e he => h.lt_of_mem he
  simpa [var?, slot?, get?, fork, Option.map_map, Function.comp_def] using this

lemma typesIn_forkVars (hσ : σ.TypesIn P) : (forkVars entries σ).2.TypesIn P := by
  induction entries generalizing σ with
  | nil => exact hσ
  | cons entry rest ih =>
    obtain ⟨name, slot⟩ := entry
    exact ih (hσ.alloc (hσ slot))

lemma wf_fork (h : s.Wf P σ) : (s.fork σ).1.Wf P (s.fork σ).2 :=
  ⟨placed_fork h.placed.nodup, h.chains⟩

lemma typesIn_fork (hσ : σ.TypesIn P) : (s.fork σ).2.TypesIn P :=
  typesIn_forkVars hσ

lemma change_fork (hs : s.Wf P σ) (hσ : σ.TypesIn P) (hn : n ≤ σ.size) :
    Change P n t σ (s.fork σ).1 (s.fork σ).2 where
  wf := wf_fork hs
  types := typesIn_fork hσ
  size_le := size_le_size_fork
  read_eq _ hk _ := read_fork_of_lt (Nat.lt_of_lt_of_le hk hn)
  owns _ hk := .inr (Nat.le_trans hn (owns_fork hk).1)

/-! ## Joins -/

lemma read_mergeVars (entries : List (String × Slot)) (vars : Dict Slot) (σ : Store) :
    σ.size ≤ (mergeVars entries vars σ).2.size ∧ ∀ k : Nat, k < σ.size →
      (∀ a, vars.get? a ≠ some k) → (mergeVars entries vars σ).2.read k = σ.read k := by
  fun_induction mergeVars entries vars σ with
  | case1 => exact ⟨le_rfl, fun _ _ _ => rfl⟩
  | case2 _ _ _ _ _ _ _ _ ih => exact ih
  | case3 name theirs rest vars σ ours hours hne other ih =>
    rw [size_update] at ih
    refine ⟨ih.1, fun k hlt h => ?_⟩
    have hk : ours ≠ k := by
      rintro rfl
      exact h name hours
    rw [ih.2 k hlt h, read_update_of_ne hk]
  | case4 name theirs rest vars σ hnone copy σ' heq ih =>
    obtain ⟨hcopy, hsize, -, hread⟩ := eq_of_alloc_eq heq
    refine ⟨by omega, fun k hlt h => ?_⟩
    rw [ih.2 k (by omega) fun a => ?_, hread k hlt]
    rw [get?_insert]
    split
    · intro he
      have : @Eq Nat copy k := Option.some.inj he
      omega
    · exact h a

lemma isSome_get?_mergeVars (entries : List (String × Slot)) (vars : Dict Slot) (σ : Store)
    (a : String) : (mergeVars entries vars σ).1.contains a = true ↔
      vars.contains a = true ∨ a ∈ entries.map Prod.fst := by
  fun_induction mergeVars entries vars σ with
  | case1 => simp
  | case2 name _ _ vars _ _ hours _ ih | case3 name _ _ vars _ _ hours _ _ ih =>
    have hname : vars.contains name = true := by simp [Dict.contains, hours]
    rw [ih, map_cons, mem_cons]
    constructor
    · exact fun h => h.imp id .inr
    · rintro (h | rfl | h)
      exacts [.inl h, .inl hname, .inr h]
  | case4 name _ _ vars _ hnone copy σ' heq ih =>
    rw [ih, map_cons, mem_cons, Dict.contains, get?_insert, Dict.contains]
    split
    · rename_i h
      simp [h]
    · rename_i h
      simp [h]

/-- What is known of a name where two paths meet. -/
def joinVar? : Option Variable → Option Variable → Option Variable
  | some ours, some theirs => some (mergeVar ours theirs)
  | some ours, none => some ours
  | none, theirs => theirs

@[simp]
lemma joinVar?_none_left (v : Option Variable) : joinVar? none v = v := rfl

@[simp]
lemma joinVar?_none_right (v : Option Variable) : joinVar? v none = v := by
  cases v <;> rfl

lemma placed_tail {e : String × Slot} (h : Placed ⟨e :: entries⟩ σ) :
    e.1 ∉ entries.map Prod.fst ∧ Placed ⟨entries⟩ σ := by
  have hnodup := nodup_cons.1 h.nodup
  refine ⟨hnodup.1, h.of_get? hnodup.2 fun _ _ ha => ?_⟩
  exact find_of_mem h.nodup (.tail _ (mem_of_find ha))

lemma map_get?_mergeVars (h : Placed vars σ) (h' : Placed ⟨entries⟩ σ)
    (hdisj : ∀ e ∈ entries, ∀ a, vars.get? a ≠ some e.2) (name : String) :
    ((mergeVars entries vars σ).1.get? name).map (mergeVars entries vars σ).2.read =
      joinVar? ((vars.get? name).map σ.read) ((find name entries).map σ.read) := by
  fun_induction mergeVars entries vars σ with
  | case1 => simp [find]
  | case2 key theirs rest vars σ ours hours heq ih =>
    have heq : ours = theirs := by simpa using heq
    exact absurd (heq ▸ hours) (hdisj (key, theirs) (.head _) key)
  | case3 key theirs rest vars σ ours hours hne other ih =>
    obtain ⟨hkey, htail⟩ := placed_tail h'
    have hours_lt := h.lt hours
    have hrest : ∀ e ∈ rest, ours ≠ e.2 := fun e he h =>
      hdisj e (.tail _ he) key (h ▸ hours)
    rw [ih (h.mono (by simp)) (htail.mono (by simp)) fun e he => hdisj e (.tail _ he)]
    have hfind : ∀ k, find name rest = some k →
        (σ.update ours fun v => mergeVar v other).read k = σ.read k := fun k hk =>
      read_update_of_ne (hrest _ (mem_of_find hk)) ..
    by_cases hname : key = name
    · subst hname
      have : find key rest = none := find_eq_none_iff.2 hkey
      simp [hours, this, find, read_update_self hours_lt, joinVar?, other]
    · have hget : (vars.get? name).map (σ.update ours fun v => mergeVar v other).read =
          (vars.get? name).map σ.read := by
        refine Option.map_congr fun k hk => read_update_of_ne (fun he => hname ?_) ..
        exact h.inj hours (he ▸ hk)
      rw [hget, Option.map_congr hfind]
      simp [find, hname]
  | case4 key theirs rest vars σ hnone copy σ' heq ih =>
    obtain ⟨hcopy, hsize, hnew, hread⟩ := eq_of_alloc_eq heq
    obtain ⟨hkey, htail⟩ := placed_tail h'
    have hrest : ∀ e ∈ rest, e.2 < σ.size := fun e he => htail.lt_of_mem he
    have hne : ∀ e ∈ rest, ∀ a, (vars.insert key copy).get? a ≠ some e.2 := by
      intro e he a hget
      rw [get?_insert] at hget
      split at hget
      · have heq : @Eq Nat copy e.2 := Option.some.inj hget
        have hlt : @LT.lt Nat _ e.2 σ.size := hrest e he
        omega
      · exact hdisj e (.tail _ he) a hget
    rw [ih (h.insert_alloc heq key) (htail.mono (by omega)) hne]
    have hfind : (find name rest).map σ'.read = (find name rest).map σ.read :=
      Option.map_congr fun k hk => hread k (hrest _ (mem_of_find hk))
    by_cases hname : key = name
    · subst hname
      have : find key rest = none := find_eq_none_iff.2 hkey
      simp [hnone, this, find, hnew]
    · have hget : (vars.get? name).map σ'.read = (vars.get? name).map σ.read :=
        Option.map_congr fun k hk => hread k (h.lt hk)
      rw [get?_insert, if_neg (Ne.symm hname), hget, hfind]
      simp [find, hname]

lemma typeIn_mergeVar (hP : ∀ a b, P a → P b → P (join a b)) {v w : Variable}
    (hv : v.TypeIn P) (hw : w.TypeIn P) : (mergeVar v w).TypeIn P := by
  intro t ht
  simp only [mergeVar] at ht
  split at ht
  · exact hv t ht
  · cases hv' : v.type with
    | none => simp [hv', join?] at ht
    | some a =>
      cases hw' : w.type with
      | none => simp [hv', hw', join?] at ht
      | some b =>
        rw [hv', hw'] at ht
        cases ht
        exact hP a b (hv a hv') (hw b hw')

lemma chains_mergeChains (hP : ∀ a b, P a → P b → P (join a b)) {ours theirs : Dict Ty}
    (h : ∀ e ∈ ours.entries, P e.2) (h' : ∀ e ∈ theirs.entries, P e.2) :
    ∀ e ∈ (mergeChains ours theirs).entries, P e.2 := by
  intro e he
  obtain ⟨⟨key, t⟩, ht, he⟩ := mem_filterMap.1 he
  obtain ⟨u, hu, rfl⟩ := Option.map_eq_some_iff.1 he
  obtain ⟨t', ht', rfl⟩ := Option.map_eq_some_iff.1 hu
  exact hP _ _ (h _ ht) (h' _ (mem_of_find ht'))

lemma change_mergeVars (hP : ∀ a b, P a → P b → P (join a b)) (hs : s.Wf P σ)
    (hσ : σ.TypesIn P) (hn : n ≤ σ.size) (entries : List (String × Slot)) :
    Change P n s σ { s with vars := (mergeVars entries s.vars σ).1 } (mergeVars entries s.vars σ).2 := by
  induction entries generalizing s σ with
  | nil => exact .refl hs hσ
  | cons entry rest ih =>
    obtain ⟨name, theirs⟩ := entry
    rw [mergeVars]
    split
    · next ours hours =>
      split
      · exact ih hs hσ hn
      · have h := change_update (n := n) hs hσ hours fun v hv => typeIn_mergeVar hP hv (hσ theirs)
        exact h.trans (ih h.wf h.types (Nat.le_trans hn h.size_le))
    · have h := change_bindNew hs hσ hn name (hσ theirs)
      exact h.trans (ih h.wf h.types (Nat.le_trans hn h.size_le))

lemma change_merge (hP : ∀ a b, P a → P b → P (join a b)) (hs : s.Wf P σ)
    (ho : other.Wf P σ) (hσ : σ.TypesIn P) (hn : n ≤ σ.size) :
    Change P n s σ (s.merge other σ).1 (s.merge other σ).2 :=
  have h := change_mergeVars hP hs hσ hn other.vars.entries
  h.trans (change_of_vars h.wf h.types rfl (chains_mergeChains hP hs.chains ho.chains))

lemma var?_merge (hs : s.Wf P σ) (ho : other.Wf P σ) (h : other.Apart s) (name : String) :
    (s.merge other σ).1.var? (s.merge other σ).2 name =
      joinVar? (s.var? σ name) (other.var? σ name) :=
  map_get?_mergeVars hs.placed ho.placed
    (fun e he a ha => h e.2 ⟨e.1, find_of_mem ho.placed.nodup he⟩ ⟨a, ha⟩) name

lemma contains_merge (name : String) :
    (s.merge other σ).1.contains name = true ↔
      s.contains name = true ∨ other.contains name = true := by
  rw [contains, merge, isSome_get?_mergeVars, contains, contains, contains_iff (d := other.vars)]
  rfl

/-! ## Joins of several paths -/

/-- The join of a scope with further paths. -/
def mergeAll (s : Scope) (paths : List Scope) (σ : Store) : Scope × Store :=
  paths.foldl (fun (joined, σ) s => joined.merge s σ) (s, σ)

@[simp]
lemma mergeAll_nil (s : Scope) (σ : Store) : s.mergeAll [] σ = (s, σ) := rfl

@[simp]
lemma mergeAll_cons (s path : Scope) (paths : List Scope) (σ : Store) :
    s.mergeAll (path :: paths) σ = (s.merge path σ).1.mergeAll paths (s.merge path σ).2 := rfl

lemma joinAll_cons (first : Scope) (rest : List Scope) (σ : Store) :
    joinAll (first :: rest) σ = (some (first.mergeAll rest σ).1, (first.mergeAll rest σ).2) := rfl

lemma change_mergeAll (hP : ∀ a b, P a → P b → P (join a b)) (hs : s.Wf P σ)
    (hpaths : ∀ t ∈ paths, t.Wf P σ) (hσ : σ.TypesIn P) (hn : n ≤ σ.size) :
    Change P n s σ (s.mergeAll paths σ).1 (s.mergeAll paths σ).2 := by
  induction paths generalizing s σ with
  | nil => exact .refl hs hσ
  | cons path paths ih =>
    have h := change_merge hP hs (hpaths path (.head _)) hσ hn
    refine h.trans (ih h.wf (fun t ht => ?_) h.types (Nat.le_trans hn h.size_le))
    exact (hpaths t (.tail _ ht)).mono h.size_le

/-- What is known of a name where several paths meet. -/
def joinVars? (vars : List (Option Variable)) : Option Variable :=
  vars.foldl joinVar? none

lemma var?_mergeAll (hP : ∀ a b, P a → P b → P (join a b)) (hs : s.Wf P σ)
    (hpaths : ∀ t ∈ paths, t.Wf P σ) (hσ : σ.TypesIn P) (h : ∀ t ∈ paths, t.Apart s)
    (hpair : paths.Pairwise Apart) (name : String) :
    (s.mergeAll paths σ).1.var? (s.mergeAll paths σ).2 name =
      joinVars? (s.var? σ name :: paths.map fun t => t.var? σ name) := by
  simp only [joinVars?, foldl_cons, joinVar?_none_left]
  induction paths generalizing s σ with
  | nil => rfl
  | cons path paths ih =>
    have hpath := hpaths path (.head _)
    have hc := change_merge hP hs hpath hσ le_rfl
    have hrest : ∀ t ∈ paths, t.Wf P σ := fun t ht => hpaths t (.tail _ ht)
    have hlt : ∀ t ∈ paths, ∀ k, t.Owns k → k < σ.size := fun t ht k hk => (hrest t ht).lt hk
    have hapart : ∀ t ∈ paths, t.Apart s := fun t ht => h t (.tail _ ht)
    rw [mergeAll_cons, ih hc.wf (fun t ht => (hrest t ht).mono hc.size_le) hc.types
      (fun t ht => hc.apart (hlt t ht) (hapart t ht)) (pairwise_cons.1 hpair).2,
      var?_merge hs hpath (h path (.head _)), map_cons, foldl_cons]
    congr 1
    exact map_congr_left fun t ht => hc.var?_eq (hlt t ht) (hapart t ht) name

lemma contains_mergeAll (paths : List Scope) (name : String) :
    (s.mergeAll paths σ).1.contains name = true ↔
      s.contains name = true ∨ ∃ t ∈ paths, t.contains name = true := by
  induction paths generalizing s σ with
  | nil => simp
  | cons path paths ih => simp [ih, contains_merge, or_assoc]

/-! ## Joins that change neither path -/

section Merged

variable {a b : Scope}

lemma change_merged (hP : ∀ a b, P a → P b → P (join a b)) (ha : a.Wf P σ) (hb : b.Wf P σ)
    (hσ : σ.TypesIn P) (hn : n ≤ σ.size) :
    Change P n t σ (merged a b σ).1 (merged a b σ).2 :=
  (change_fork ha hσ hn).trans <| change_merge hP (wf_fork ha) (hb.mono size_le_size_fork)
    (typesIn_fork hσ) (Nat.le_trans hn size_le_size_fork)

lemma owns_merged (hP : ∀ a b, P a → P b → P (join a b)) (ha : a.Wf P σ) (hb : b.Wf P σ)
    (hσ : σ.TypesIn P) (hk : (merged a b σ).1.Owns k) : σ.size ≤ k := by
  rcases (change_merged (t := {}) hP ha hb hσ le_rfl).owns k hk with ⟨name, hname⟩ | hk
  · cases hname
  · exact hk

lemma var?_merged (ha : a.Wf P σ) (hb : b.Wf P σ) (name : String) :
    (merged a b σ).1.var? (merged a b σ).2 name =
      joinVar? ((a.var? σ name).map unchanged) (b.var? σ name) := by
  have hapart : b.Apart (a.fork σ).1 := fun k hk hk' =>
    Nat.not_le_of_lt (hb.lt hk) (owns_fork hk').1
  have hb' : b.var? (a.fork σ).2 name = b.var? σ name :=
    Option.map_congr fun k hk => read_fork_of_lt (hb.lt ⟨name, hk⟩)
  rw [merged, var?_merge (wf_fork ha) (hb.mono size_le_size_fork) hapart, var?_fork ha.placed, hb']

end Merged

/-! ## Taking over the contents of a scope -/

lemma replaceVars_keeps (entries : List (String × Slot)) (h : vars.keys.Nodup) (hσ : σ.TypesIn P) :
    (replaceVars entries vars σ).1.keys.Nodup ∧ (replaceVars entries vars σ).2.TypesIn P := by
  fun_induction replaceVars entries vars σ with
  | case1 => exact ⟨h, hσ⟩
  | case2 _ _ _ _ _ _ _ _ ih => exact ih h hσ
  | case3 _ new _ _ _ ours _ _ ih => exact ih h (by simpa using hσ.update ours fun _ _ => hσ new)
  | case4 _ _ _ _ _ _ ih => exact ih (nodup_keys_insert h _ _) hσ

lemma size_replaceVars : (replaceVars entries vars σ).2.size = σ.size := by
  fun_induction replaceVars entries vars σ <;> simp_all

lemma get?_replaceVars (a : String) : (replaceVars entries vars σ).1.get? a =
      (vars.get? a).or (find a entries) := by
  fun_induction replaceVars entries vars σ with
  | case1 => simp [find]
  | case2 key new rest vars σ ours hours _ ih | case3 key new rest vars σ ours hours _ ih =>
    rw [ih]
    by_cases h : key = a
    · subst h
      simp [hours]
    · simp [find, h]
  | case4 key new rest vars σ hnone ih =>
    rw [ih, get?_insert]
    by_cases h : key = a
    · subst h
      simp [hnone, find]
    · simp [find, h, Ne.symm h]

lemma snd_replaceVars_congr {vars' : Dict Slot}
    (h : ∀ a ∈ entries.map Prod.fst, vars'.get? a = vars.get? a) :
    (replaceVars entries vars' σ).2 = (replaceVars entries vars σ).2 := by
  fun_induction replaceVars entries vars σ generalizing vars' with
  | case1 => rfl
  | case2 _ _ _ _ _ _ hours heq ih | case3 _ _ _ _ _ _ hours heq ih =>
    simp only [map_cons, forall_mem_cons] at h
    rw [replaceVars, h.1.trans hours]
    simpa [heq] using ih h.2
  | case4 key _ _ _ _ hnone ih =>
    simp only [map_cons, forall_mem_cons] at h
    rw [replaceVars, h.1.trans hnone]
    exact ih fun a ha => by rw [get?_insert, get?_insert, h.2 a ha]

/-- A slot added under a name that is not to come is never written. -/
lemma snd_replaceVars_insert {key : String} (h : key ∉ entries.map Prod.fst) (new : Slot) :
    (replaceVars entries (vars.insert key new) σ).2 = (replaceVars entries vars σ).2 :=
  snd_replaceVars_congr fun a ha => by
    rw [get?_insert, if_neg fun he : a = key => h (he ▸ ha)]

lemma read_replaceVars_of_not_mem (hnd : (entries.map Prod.fst).Nodup)
    (h : ∀ a ∈ entries.map Prod.fst, vars.get? a ≠ some k) :
    (replaceVars entries vars σ).2.read k = σ.read k := by
  induction entries generalizing σ with
  | nil => rfl
  | cons entry rest ih =>
    obtain ⟨key, new⟩ := entry
    simp only [map_cons, nodup_cons, forall_mem_cons] at hnd h
    rw [replaceVars]
    cases hkey : vars.get? key with
    | none => exact (congrArg (read · k) (snd_replaceVars_insert hnd.1 new)).trans (ih hnd.2 h.2)
    | some ours =>
      have hne : ours ≠ k := fun he => h.1 (he ▸ hkey)
      dsimp only
      split
      · exact ih hnd.2 h.2
      · rw [ih hnd.2 h.2, write_eq_update, read_update_of_ne hne]

lemma read_replaceVars {name : String} (h : Placed vars σ)
    (hnd : (entries.map Prod.fst).Nodup) (hdisj : ∀ e ∈ entries, ∀ a, vars.get? a ≠ some e.2)
    (hj : find name entries = some j) (hk : vars.get? name = some k) :
    (replaceVars entries vars σ).2.read k = σ.read j := by
  induction entries generalizing σ with
  | nil => cases hj
  | cons entry rest ih =>
    obtain ⟨key, new⟩ := entry
    simp only [map_cons, nodup_cons, forall_mem_cons] at hnd hdisj
    rw [replaceVars]
    rw [find] at hj
    by_cases hname : key = name
    · subst hname
      have hnew : new = j := by simpa using hj
      have hne : k ≠ new := fun he => hdisj.1 key (he ▸ hk)
      -- The names to come have other slots, so the variable moved here stays.
      simp only [hk, beq_iff_eq, hne, if_false, write_eq_update]
      rw [read_replaceVars_of_not_mem hnd.2 fun a ha hka => hnd.1 (h.inj hka hk ▸ ha),
        read_update_self (h.lt hk), hnew]
    · have hj : find name rest = some j := by simpa [hname] using hj
      cases hkey : vars.get? key with
      | none =>
        exact (congrArg (read · k) (snd_replaceVars_insert hnd.1 new)).trans
          (ih h hnd.2 hdisj.2 hj)
      | some ours =>
        have hne : ours ≠ j := fun he => hdisj.2 (name, j) (mem_of_find hj) key (he ▸ hkey)
        dsimp only
        split
        · exact ih h hnd.2 hdisj.2 hj
        · rw [ih (h.mono (by simp)) hnd.2 hdisj.2 hj, write_eq_update,
            read_update_of_ne hne]

lemma get?_kept (s replacement : Scope) (name : String) :
    (s.vars.filter fun name _ => replacement.vars.contains name).get? name =
      if replacement.vars.contains name then s.vars.get? name else none :=
  get?_filter_keys ..

lemma placed_kept (hs : Placed s.vars σ) (replacement : Scope) :
    Placed (s.vars.filter fun name _ => replacement.vars.contains name) σ := by
  refine hs.of_get? (nodup_keys_filter hs.nodup _) fun a k ha => ?_
  rw [get?_kept] at ha
  split at ha
  · exact ha
  · cases ha

lemma slot?_replaceWith (s replacement : Scope) (σ : Store) (name : String) :
    (s.replaceWith replacement σ).1.slot? name =
      if replacement.contains name then (s.slot? name).or (replacement.slot? name) else none := by
  rw [slot?, replaceWith, get?_replaceVars, get?_kept, contains, Dict.contains, slot?, slot?]
  cases h : replacement.vars.get? name with
  | none => simp [show Dict.find name replacement.vars.entries = none from h]
  | some k => simp [show Dict.find name replacement.vars.entries = some k from h]

lemma owner_of_slot?_replaceWith {name : String}
    (h : (s.replaceWith replacement σ).1.slot? name = some k) :
    s.slot? name = some k ∨ replacement.slot? name = some k := by
  rw [slot?_replaceWith] at h
  split at h
  · exact (Option.or_eq_some_iff.1 h).imp_right And.right
  · cases h

lemma size_replaceWith (s replacement : Scope) (σ : Store) :
    (s.replaceWith replacement σ).2.size = σ.size :=
  size_replaceVars

lemma read_replaceWith_of_not_mem (hr : replacement.vars.keys.Nodup)
    (h : ∀ name, s.slot? name = some k → replacement.contains name = false) :
    (s.replaceWith replacement σ).2.read k = σ.read k := by
  refine read_replaceVars_of_not_mem hr fun a _ ha => ?_
  rw [get?_kept] at ha
  split at ha
  · rename_i hc
    exact absurd (hc.symm.trans (h a ha)) nofun
  · cases ha

lemma read_replaceWith {name : String} (hs : Placed s.vars σ) (hr : replacement.vars.keys.Nodup)
    (h : replacement.Apart s) (hk : s.slot? name = some k) (hj : replacement.slot? name = some j) :
    (s.replaceWith replacement σ).2.read k = σ.read j := by
  refine read_replaceVars (placed_kept hs replacement) hr (fun e he a ha => ?_) hj ?_
  · rw [get?_kept] at ha
    split at ha
    · exact h e.2 ⟨e.1, find_of_mem hr he⟩ ⟨a, ha⟩
    · cases ha
  · rw [get?_kept, Dict.contains, show replacement.vars.get? name = some j from hj]
    exact hk

lemma change_replaceWith (hs : s.Wf P σ) (hr : replacement.Wf P σ) (hσ : σ.TypesIn P)
    (hge : ∀ k, replacement.Owns k → n ≤ k) (h : replacement.Apart s) :
    Change P n s σ (s.replaceWith replacement σ).1 (s.replaceWith replacement σ).2 := by
  obtain ⟨hnodup, htypes⟩ := replaceVars_keeps replacement.vars.entries
    (placed_kept hs.placed replacement).nodup hσ
  have hsize := size_replaceWith s replacement σ
  refine ⟨⟨⟨hnodup, fun a b k ha hb => ?_, fun a k ha => ?_⟩, hr.chains⟩, htypes, Nat.le_of_eq hsize.symm,
    fun k _ hs' => read_replaceWith_of_not_mem hr.placed.nodup fun name hname =>
      absurd ⟨name, hname⟩ hs', ?_⟩
  · rcases owner_of_slot?_replaceWith ha with ha | ha <;>
      rcases owner_of_slot?_replaceWith hb with hb | hb
    · exact hs.placed.inj ha hb
    · exact absurd ⟨a, ha⟩ (h k ⟨b, hb⟩)
    · exact absurd ⟨b, hb⟩ (h k ⟨a, ha⟩)
    · exact hr.placed.inj ha hb
  · rw [hsize]
    exact (owner_of_slot?_replaceWith ha).elim (fun ha => hs.placed.lt ha) fun ha => hr.placed.lt ha
  · rintro k ⟨a, ha⟩
    exact (owner_of_slot?_replaceWith ha).imp (fun ha => ⟨a, ha⟩) fun ha => hge k ⟨a, ha⟩

lemma contains_replaceWith (replacement : Scope) (name : String) :
    (s.replaceWith replacement σ).1.contains name = replacement.contains name := by
  rw [contains, Dict.contains, ← slot?, slot?_replaceWith]
  cases h : replacement.slot? name <;> simp_all [contains, Dict.contains, slot?]

lemma var?_replaceWith (hs : Placed s.vars σ) (hr : replacement.vars.keys.Nodup)
    (h : replacement.Apart s) (name : String) :
    (s.replaceWith replacement σ).1.var? (s.replaceWith replacement σ).2 name =
      replacement.var? σ name := by
  rw [var?, slot?_replaceWith, var?]
  cases hj : replacement.slot? name with
  | none => simp_all [contains, Dict.contains, slot?]
  | some j =>
    have hc : replacement.contains name = true := by simp_all [contains, Dict.contains, slot?]
    rw [hc, if_pos rfl]
    cases hk : s.slot? name with
    | some k => exact congrArg some (read_replaceWith hs hr h hk hj)
    | none =>
      refine congrArg some (read_replaceWith_of_not_mem hr fun a ha => ?_)
      exact absurd ⟨a, ha⟩ (h j ⟨name, hj⟩)

/-- **Taking over a scope keeps the slots.**  The scope gets the names, the variables, the chains and
the flags of its replacement.  A name that both have keeps its slot, so that whoever holds the
variable, under whatever name, sees the new contents; the other variables stay as they are. -/
theorem replaceWith_contents (hs : Placed s.vars σ) (hr : replacement.vars.keys.Nodup)
    (h : replacement.Apart s) :
    ∃ s' σ', s.replaceWith replacement σ = (s', σ') ∧
      (∀ name, s'.slot? name =
        if replacement.contains name then (s.slot? name).or (replacement.slot? name) else none) ∧
      (∀ name, s'.var? σ' name = replacement.var? σ name) ∧
      s'.chains = replacement.chains ∧ s'.flags = replacement.flags ∧ s'.function = s.function ∧
      (∀ (t : Scope) (other name : String), replacement.contains name → s.contains name →
        t.slot? other = s.slot? name → t.var? σ' other = replacement.var? σ name) ∧
      (∀ k, (∀ name, s.slot? name = some k → replacement.contains name = false) →
        σ'.read k = σ.read k) ∧
      σ'.size = σ.size := by
  refine ⟨_, _, rfl, slot?_replaceWith s replacement σ, var?_replaceWith hs hr h, rfl, rfl, rfl,
    fun t other name hname hown ht => ?_, fun k hk => read_replaceWith_of_not_mem hr hk,
    size_replaceWith s replacement σ⟩
  obtain ⟨k, hk⟩ : ∃ k, s.slot? name = some k := Option.isSome_iff_exists.1 hown
  obtain ⟨j, hj⟩ : ∃ j, replacement.slot? name = some j := Option.isSome_iff_exists.1 hname
  rw [var?, ht, hk, var?, hj]
  exact congrArg some (read_replaceWith hs hr h hk hj)

/-- A closure holds the variable of `count` as `total`, and the replacement has one variable under
two names. -/
theorem replaceWith_contents_closure :
    let s : Scope := { vars := ⟨[("count", 0), ("gone", 1)]⟩ }
    let r : Scope := { vars := ⟨[("count", 2), ("alias", 2)]⟩ }
    let t : Scope := { vars := ⟨[("total", 0)]⟩ }
    let σ : Store := ⟨#[{ name := "count", type := some .int, line := 1 },
      { name := "gone", line := 1 }, { name := "count", type := some .float, line := 2 }]⟩
    Placed s.vars σ ∧ r.vars.keys.Nodup ∧ r.Apart s ∧
      t.var? (s.replaceWith r σ).2 "total" = r.var? σ "count" := by
  intro s r t σ
  have hs : ∀ {a k}, s.slot? a = some k → k = 0 ∨ k = 1 := fun {a k} h => by
    have hmem : (a, k) ∈ [("count", 0), ("gone", 1)] := mem_of_find h
    grind
  have hplaced : Placed s.vars σ := by
    refine ⟨by decide, fun _ _ _ => eq_of_slot?_eq (by decide), fun _ k h => ?_⟩
    rcases hs h with rfl | rfl <;> decide
  have hapart : r.Apart s := by
    rintro k ⟨a, ha⟩ ⟨b, hb⟩
    have hmem : (a, k) ∈ [("count", 2), ("alias", 2)] := mem_of_find ha
    rcases hs hb with rfl | rfl <;> simp at hmem
  obtain ⟨s', σ', heq, -, -, -, -, -, hshared, -⟩ := replaceWith_contents hplaced (by decide) hapart
  refine ⟨hplaced, by decide, hapart, ?_⟩
  rw [heq]
  exact hshared t "total" "count" rfl rfl rfl

/-! ## Reads of paths that do not come back -/

lemma change_absorbUsage (hs : s.Wf P σ) (hσ : σ.TypesIn P) (path : Scope) :
    Change P n s σ s (s.absorbUsage path σ) := by
  unfold absorbUsage
  fun_induction absorbVars s path.vars.entries σ with
  | case1 => exact .refl hs hσ
  | case2 _ _ _ _ _ hours _ ih =>
    have h := change_update (n := n) (f := fun v => { v with used := true }) hs hσ hours fun _ hv => hv
    exact h.trans (ih h.wf h.types)
  | case3 _ _ _ _ _ _ _ ih => exact ih hs hσ
  | case4 _ _ _ _ _ ih => exact ih hs hσ

/-- The variable with a mark of reading added. -/
def readIf (b : Bool) (v : Variable) : Variable :=
  { v with used := v.used || b }

lemma map_slot?_absorbVars (hs : Placed s.vars σ) (hnd : (entries.map Prod.fst).Nodup)
    (hdisj : ∀ e ∈ entries, ¬ s.Owns e.2) (name : String) :
    (s.slot? name).map (absorbVars s entries σ).read =
      ((s.slot? name).map σ.read).map
        (readIf ((find name entries).any fun k => (σ.read k).used)) := by
  fun_induction absorbVars s entries σ with
  | case1 => cases s.slot? name <;> simp [find, readIf]
  | case2 key theirs rest σ ours hours hmark ih =>
    simp only [map_cons, nodup_cons] at hnd
    have hlt := hs.lt hours
    have hrest : ∀ e ∈ rest, ¬ s.Owns e.2 := fun e he => hdisj e (.tail _ he)
    have hused : (σ.read theirs).used = true := by simp_all
    rw [ih (hs.mono (by simp)) hnd.2 hrest]
    by_cases hname : key = name
    · subst hname
      have hfind : find key rest = none := find_eq_none_iff.2 hnd.1
      simp [hours, hfind, find, readIf, read_update_self hlt, hused]
    · have hread : (s.slot? name).map (σ.update ours fun v => { v with used := true }).read =
          (s.slot? name).map σ.read :=
        Option.map_congr fun k hk =>
          read_update_of_ne (fun he : ours = k => hname (hs.inj hours (he ▸ hk))) ..
      have hfind : ((find name rest).any fun k =>
            ((σ.update ours fun v => { v with used := true }).read k).used) =
          (find name rest).any fun k => (σ.read k).used := by
        cases hk : find name rest with
        | none => rfl
        | some k =>
          have hne : ours ≠ k := fun he => hrest _ (mem_of_find hk) ⟨key, he ▸ hours⟩
          simp [read_update_of_ne hne]
      rw [hread, hfind]
      simp [find, hname]
  | case3 key theirs rest σ ours hours hmark ih =>
    simp only [map_cons, nodup_cons] at hnd
    have hne : ours ≠ theirs := fun he =>
      hdisj (key, theirs) (.head _) ⟨key, he ▸ hours⟩
    rw [ih hs hnd.2 fun e he => hdisj e (.tail _ he)]
    by_cases hname : key = name
    · subst hname
      have hfind : find key rest = none := find_eq_none_iff.2 hnd.1
      simp_all [find]
    · simp [find, hname]
  | case4 key theirs rest σ hnone ih =>
    simp only [map_cons, nodup_cons] at hnd
    rw [ih hs hnd.2 fun e he => hdisj e (.tail _ he)]
    by_cases hname : key = name
    · subst hname
      simp [hnone]
    · simp [find, hname]

/-- A name of the scope counts as read where it did or where the path that does not come back
reads it. -/
lemma var?_absorbUsage {path : Scope} (hs : s.Wf P σ) (hp : path.Wf P σ) (h : path.Apart s)
    (name : String) : s.var? (s.absorbUsage path σ) name =
      (s.var? σ name).map (readIf ((path.var? σ name).any Variable.used)) := by
  have := map_slot?_absorbVars hs.placed hp.placed.nodup
    (fun e he => h e.2 ⟨e.1, find_of_mem hp.placed.nodup he⟩) name
  rw [var?, absorbUsage, this, var?, var?, Option.any_map]
  rfl

end Scope

end FlowTyping

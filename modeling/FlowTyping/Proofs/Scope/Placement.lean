import FlowTyping.Scope.Basic
import Mathlib.Data.List.Nodup
import Mathlib.Data.Nat.Basic
import Mathlib.Tactic.Common

/-!
# Variables in their places

Scopes refer to variables by slots, so what an operation on one scope means for another depends on
the slots they have in common.  This module says what each operation on a scope does to the slots.

**Stores and dictionaries.**  Reading after writing, and looking up after inserting, erasing and
filtering.

**Placement.**  `Placed` says that a scope has a slot of its own for each name.  It is kept by
inserting a slot that was not taken (`Placed.insert`), in particular a new one.

**Changes.**  `Scope.Change P n` relates a scope and store to those after an operation: the scope
writes to its own variables and to those from slot `n` on, takes no others over, and the types it
records lie in `P`.  Changes compose (`Scope.Change.trans`), and every operation of
`FlowTyping.Scope.Basic` is one.
-/

namespace FlowTyping

open Dict List Option Store Ty

variable {v : Variable} {t : Ty} {f : Variable → Variable} {σ σ' : Store} {k : Nat} {α : Type}
  {name : String} {P : Ty → Prop} {type : Option Ty}

namespace Store

@[simp]
lemma size_alloc (σ : Store) (v : Variable) : (σ.alloc v).2.size = σ.size + 1 := by
  simp [alloc, size]

@[simp]
lemma fst_alloc (σ : Store) (v : Variable) : (σ.alloc v).1 = σ.size := rfl

@[simp]
lemma size_update (σ : Store) (k : Nat) (f : Variable → Variable) :
    (σ.update k f).size = σ.size := by
  simp [update, size]

@[simp]
lemma write_eq_update (σ : Store) (k : Nat) (v : Variable) : σ.write k v = σ.update k fun _ => v := by
  rw [write, update, Store.mk.injEq]
  refine Array.ext (by simp) fun j hj _ => ?_
  rw [Array.getElem_modify, Array.getElem_setIfInBounds (by simpa using hj)]

lemma eq_of_alloc_eq (h : σ.alloc v = (k, σ')) :
    k = σ.size ∧ σ'.size = σ.size + 1 ∧ σ'.read k = v ∧
      ∀ j : Nat, j < σ.size → σ'.read j = σ.read j := by
  have hk : (σ.alloc v).1 = k := by rw [h]
  have hσ : (σ.alloc v).2 = σ' := by rw [h]
  subst hk hσ
  exact ⟨rfl, size_alloc σ v, read_alloc σ v, fun j hj => read_alloc_of_lt hj v⟩

lemma read_of_size_le (h : σ.size ≤ k) : σ.read k = default := by
  simp [read, Array.getElem?_eq_none h]

lemma read_update_of_size_le (h : σ.size ≤ k) (f : Variable → Variable) (j : Nat) :
    (σ.update k f).read j = σ.read j := by
  by_cases hj : k = j
  · subst hj
    rw [read_of_size_le (by simpa using h), read_of_size_le h]
  · exact read_update_of_ne hj σ f

end Store

namespace Dict

variable {a : α} {entries : List (String × α)} {d : Dict α}

lemma mem_of_find (h : find name entries = some a) : (name, a) ∈ entries := by
  induction entries with
  | nil => simp [find] at h
  | cons entry rest ih =>
    obtain ⟨key, value⟩ := entry
    simp only [find] at h
    split at h
    · rename_i hk
      simp_all
    · exact .tail _ (ih h)

lemma find_eq_none_iff : find name entries = none ↔ name ∉ entries.map Prod.fst := by
  induction entries with
  | nil => simp [find]
  | cons entry rest ih =>
    obtain ⟨key, value⟩ := entry
    by_cases h : key = name
    · simp [find, h]
    · simp [find, h, ih, Ne.symm h]

lemma find_of_mem (hnd : (entries.map Prod.fst).Nodup) (h : (name, a) ∈ entries) :
    find name entries = some a := by
  induction entries with
  | nil => simp at h
  | cons entry rest ih =>
    obtain ⟨key, value⟩ := entry
    simp only [map_cons, nodup_cons] at hnd
    rcases mem_cons.1 h with h | h
    · simp_all [find]
    · have hne : key ≠ name := by
        rintro rfl
        exact hnd.1 (mem_map_of_mem h)
      simp [find, hne, ih hnd.2 h]

lemma contains_iff : d.contains name = true ↔ name ∈ d.keys := by
  rw [contains, get?, isSome_iff_ne_none, ne_eq, find_eq_none_iff, not_not, keys]

lemma mem_put {e : String × α} (h : e ∈ put name a entries) : e.2 = a ∨ e ∈ entries := by
  induction entries with
  | nil => simp_all [put]
  | cons entry rest ih =>
    obtain ⟨key, old⟩ := entry
    simp only [put] at h
    split at h
    · rcases mem_cons.1 h with rfl | h
      · exact .inl rfl
      · exact .inr (.tail _ h)
    · rcases mem_cons.1 h with rfl | h
      · exact .inr (.head _)
      · exact (ih h).imp_right (mem_cons_of_mem _)

lemma map_fst_put (name : String) (a : α) (entries : List (String × α)) :
    (put name a entries).map Prod.fst =
      if name ∈ entries.map Prod.fst then entries.map Prod.fst
      else entries.map Prod.fst ++ [name] := by
  induction entries with
  | nil => simp [put]
  | cons entry rest ih =>
    obtain ⟨key, old⟩ := entry
    by_cases h : key = name
    · simp [put, h]
    · simp only [put, beq_iff_eq, h, if_false, map_cons, ih, mem_cons, Ne.symm h,
        false_or]
      split <;> simp

lemma nodup_keys_insert (h : d.keys.Nodup) (name : String) (a : α) :
    (d.insert name a).keys.Nodup := by
  simp only [keys, insert, map_fst_put]
  split
  · exact h
  · rename_i hn
    exact nodup_append.2 ⟨h, by simp, by simpa using fun x b hb => fun he => hn (by
      simp only [List.mem_map, Prod.exists]
      exact ⟨x, b, hb, he⟩ )⟩

lemma get?_insert (d : Dict α) (name other : String) (a : α) :
    (d.insert name a).get? other = if other = name then some a else d.get? other := by
  by_cases h : other = name
  · subst h
    simp
  · simp [h, get?_insert_of_ne (Ne.symm h)]

lemma find_filter (p : String → Bool) (name : String) (entries : List (String × α)) :
    find name (entries.filter fun e => p e.1) = if p name then find name entries else none := by
  induction entries with
  | nil => simp [find]
  | cons entry rest ih =>
    obtain ⟨key, value⟩ := entry
    by_cases hp : p key <;> by_cases hk : key = name <;> simp_all [find]

lemma get?_erase (d : Dict α) (name other : String) :
    (d.erase name).get? other = if other = name then none else d.get? other := by
  have h := find_filter (fun key => key != name) other d.entries
  by_cases ho : other = name <;> simp_all [get?, erase]

lemma get?_filter_keys (d : Dict α) (p : String → Bool) (name : String) :
    (d.filter fun key _ => p key).get? name = if p name then d.get? name else none :=
  find_filter p name d.entries

lemma nodup_keys_filter (h : d.keys.Nodup) (p : String → α → Bool) : (d.filter p).keys.Nodup :=
  List.Nodup.sublist (filter_sublist.map _) h

lemma nodup_keys_erase (h : d.keys.Nodup) (name : String) : (d.erase name).keys.Nodup :=
  List.Nodup.sublist (filter_sublist.map _) h

end Dict

/-- Each name is bound once, to a variable of its own that is in the store. -/
structure Placed (vars : Dict Slot) (σ : Store) : Prop where
  nodup : vars.keys.Nodup
  inj : ∀ ⦃a b k⦄, vars.get? a = some k → vars.get? b = some k → a = b
  lt : ∀ ⦃a⦄ ⦃k : Nat⦄, vars.get? a = some k → k < σ.size

namespace Placed

variable {vars : Dict Slot} (h : Placed vars σ)

include h

lemma mono (hle : σ.size ≤ σ'.size) : Placed vars σ' :=
  ⟨h.nodup, h.inj, fun _ _ hk => Nat.lt_of_lt_of_le (h.lt hk) hle⟩

lemma lt_of_mem {e : String × Slot} (he : e ∈ vars.entries) : e.2 < σ.size :=
  h.lt (find_of_mem h.nodup he)

lemma insert (hle : σ.size ≤ σ'.size) (hk : k < σ'.size)
    (hnew : ∀ a, vars.get? a = some k → a = name) : Placed (vars.insert name k) σ' where
  nodup := nodup_keys_insert h.nodup _ _
  inj a b j ha hb := by
    rw [get?_insert] at ha hb
    split at ha <;> split at hb
    · rename_i h1 h2
      rw [h1, h2]
    · rename_i h1 _
      rw [h1, hnew b (some.inj ha ▸ hb)]
    · rename_i _ h2
      rw [h2, hnew a (some.inj hb ▸ ha)]
    · exact h.inj ha hb
  lt a j ha := by
    rw [get?_insert] at ha
    split at ha
    · exact some.inj ha ▸ hk
    · exact Nat.lt_of_lt_of_le (h.lt ha) hle

lemma insert_alloc (heq : σ.alloc v = (k, σ')) (name : String) :
    Placed (vars.insert name k) σ' := by
  obtain ⟨hk, hsize, -⟩ := eq_of_alloc_eq heq
  refine h.insert (by omega) (by omega) fun a ha => ?_
  have := h.lt ha
  omega

lemma of_get? {vars' : Dict Slot} (hnd : vars'.keys.Nodup)
    (hget : ∀ ⦃a k⦄, vars'.get? a = some k → vars.get? a = some k) : Placed vars' σ :=
  ⟨hnd, fun _ _ _ ha hb => h.inj (hget ha) (hget hb), fun _ _ ha => h.lt (hget ha)⟩

end Placed

/-- What is known of a type lies in `P`. -/
def Ty.KnownIn (P : Ty → Prop) (type : Option Ty) : Prop :=
  ∀ t, type = some t → P t

namespace Ty.KnownIn

lemma none : KnownIn P .none :=
  fun _ h => nomatch h

lemma some (h : P t) : KnownIn P (.some t) :=
  fun _ ht => some.inj ht ▸ h

lemma map (h : KnownIn P type) {f : Ty → Ty} (hf : ∀ t, P t → P (f t)) :
    KnownIn P (type.map f) := by
  intro t ht
  obtain ⟨u, hu, rfl⟩ := map_eq_some_iff.1 ht
  exact hf u (h u hu)

lemma imp {Q : Ty → Prop} (h : KnownIn P type) (hPQ : ∀ t, P t → Q t) :
    KnownIn Q type :=
  fun t ht => hPQ t (h t ht)

lemma or {a b : Option Ty} (ha : KnownIn P a) (hb : KnownIn P b) : KnownIn P (a.or b) := by
  intro t ht
  rcases or_eq_some_iff.1 ht with ht | ⟨-, ht⟩
  · exact ha t ht
  · exact hb t ht

lemma bind {o : Option α} {f : α → Option Ty} (h : ∀ a, o = .some a → KnownIn P (f a)) :
    KnownIn P (o.bind f) := by
  intro t ht
  obtain ⟨a, ha, ht⟩ := bind_eq_some_iff.1 ht
  exact h a ha t ht

end Ty.KnownIn

/-- What a variable is known to be lies in `P`. -/
def Variable.TypeIn (P : Ty → Prop) (v : Variable) : Prop :=
  KnownIn P v.type

/-- Every type in the store lies in `P`. -/
def Store.TypesIn (P : Ty → Prop) (σ : Store) : Prop :=
  ∀ k : Nat, (σ.read k).TypeIn P

namespace Store

lemma typesIn_true (σ : Store) : σ.TypesIn fun _ => True :=
  fun _ _ _ => trivial

lemma TypesIn.update (h : σ.TypesIn P) (k : Nat)
    (hf : ∀ v, v.TypeIn P → (f v).TypeIn P) : (σ.update k f).TypesIn P := by
  intro j
  rcases Nat.lt_or_ge k σ.size with hk | hk
  · by_cases hj : k = j
    · subst hj
      rw [read_update_self hk]
      exact hf _ (h k)
    · rw [read_update_of_ne hj]
      exact h j
  · rw [read_update_of_size_le hk]
    exact h j

lemma TypesIn.alloc (h : σ.TypesIn P) (hv : v.TypeIn P) :
    (σ.alloc v).2.TypesIn P := by
  intro j
  rcases Nat.lt_trichotomy j σ.size with hj | rfl | hj
  · rw [read_alloc_of_lt hj]
    exact h j
  · rwa [← fst_alloc σ v, read_alloc]
  · rw [read_of_size_le (by rw [size_alloc]; exact hj)]
    intro t ht
    cases ht

end Store

lemma Store.TypesIn.typeOf? (h : σ.TypesIn P) (s : Scope) (name : String) :
    KnownIn P (s.typeOf? σ name) := by
  refine .bind fun v hv => ?_
  obtain ⟨k, -, rfl⟩ := map_eq_some_iff.1 hv
  exact h k

namespace Scope

variable {s s' : Scope} {n : Nat}

/-- The scope holds the variable in slot `k`. -/
def Owns (s : Scope) (k : Nat) : Prop :=
  ∃ name, s.slot? name = some k

/-- The scopes have no variable in common. -/
def Apart (a b : Scope) : Prop :=
  ∀ k, a.Owns k → ¬ b.Owns k

lemma Apart.symm {a b : Scope} (h : a.Apart b) : b.Apart a :=
  fun k hb ha => h k ha hb

/-- The variables of the scope are in the store, and its chains have types in `P`. -/
structure Wf (P : Ty → Prop) (s : Scope) (σ : Store) : Prop where
  placed : Placed s.vars σ
  chains : ∀ e ∈ s.chains.entries, P e.2

lemma Wf.mono (h : s.Wf P σ) (hle : σ.size ≤ σ'.size) : s.Wf P σ' :=
  ⟨h.placed.mono hle, h.chains⟩

lemma Wf.lt (h : s.Wf P σ) (hk : s.Owns k) : k < σ.size :=
  let ⟨_, hname⟩ := hk
  h.placed.lt hname

/-- What an operation on a scope may do.  It writes to variables of the scope and to slots from `n`
on, and the scope takes over no other slots. -/
structure Change (P : Ty → Prop) (n : Nat) (s : Scope) (σ : Store) (s' : Scope) (σ' : Store) :
    Prop where
  wf : s'.Wf P σ'
  types : σ'.TypesIn P
  size_le : σ.size ≤ σ'.size
  read_eq : ∀ k, k < n → ¬ s.Owns k → σ'.read k = σ.read k
  owns : ∀ k, s'.Owns k → s.Owns k ∨ n ≤ k

namespace Change

lemma refl (hs : s.Wf P σ) (hσ : σ.TypesIn P) : Change P n s σ s σ :=
  ⟨hs, hσ, le_rfl, fun _ _ _ => rfl, fun _ hk => .inl hk⟩

lemma trans {s'' : Scope} {σ'' : Store} (h : Change P n s σ s' σ')
    (h' : Change P n s' σ' s'' σ'') : Change P n s σ s'' σ'' where
  wf := h'.wf
  types := h'.types
  size_le := le_trans h.size_le h'.size_le
  read_eq k hk hs := by
    have hs' : ¬ s'.Owns k := by
      intro ho
      rcases h.owns k ho with ho | ho
      · exact hs ho
      · omega
    rw [h'.read_eq k hk hs', h.read_eq k hk hs]
  owns k hk := by
    rcases h'.owns k hk with hk | hk
    · exact h.owns k hk
    · exact .inr hk

lemma anti {m : Nat} (h : Change P n s σ s' σ') (hle : m ≤ n) : Change P m s σ s' σ' where
  wf := h.wf
  types := h.types
  size_le := h.size_le
  read_eq k hk := h.read_eq k (Nat.lt_of_lt_of_le hk hle)
  owns k hk := (h.owns k hk).imp_right (Nat.le_trans hle)

lemma apart {t : Scope} (h : Change P n s σ s' σ') (hlt : ∀ k, t.Owns k → k < n)
    (ht : t.Apart s) : t.Apart s' := by
  intro k hk hk'
  rcases h.owns k hk' with ho | ho
  · exact ht k hk ho
  · exact Nat.not_le_of_lt (hlt k hk) ho

lemma var?_eq {t : Scope} (h : Change P n s σ s' σ') (hlt : ∀ k, t.Owns k → k < n)
    (ht : t.Apart s) (name : String) : t.var? σ' name = t.var? σ name :=
  map_congr fun k hk => h.read_eq k (hlt k ⟨name, hk⟩) (ht k ⟨name, hk⟩)

end Change

/-! ## The operations -/

lemma Change.of_vars_eq (hs : s.Wf P σ) (hvars : s'.vars = s.vars)
    (hchains : ∀ e ∈ s'.chains.entries, P e.2) (hσ' : σ'.TypesIn P)
    (hsize : σ.size ≤ σ'.size) (hread : ∀ k, k < n → ¬ s.Owns k → σ'.read k = σ.read k) :
    Change P n s σ s' σ' where
  wf := ⟨hvars ▸ hs.placed.mono hsize, hchains⟩
  types := hσ'
  size_le := hsize
  read_eq := hread
  owns k hk := .inl <| by
    obtain ⟨name, hname⟩ := hk
    exact ⟨name, by rw [← hname, slot?, slot?, hvars]⟩

lemma slot?_ensure (s : Scope) (σ : Store) (name : String) (line : Line) :
    (s.ensure σ name line).2.1.slot? name = some (s.ensure σ name line).1 := by
  unfold ensure
  split
  · assumption
  · simp [slot?]

lemma slot?_ensure_of_some {other : String} (h : s.slot? other = some k) (line : Line) :
    (s.ensure σ name line).2.1.slot? other = some k := by
  unfold ensure
  split
  · exact h
  · rename_i hnone
    have hne : other ≠ name := by
      rintro rfl
      rw [hnone] at h
      cases h
    simpa [slot?, get?_insert, hne] using h

section Operations

variable (hs : s.Wf P σ) (hσ : σ.TypesIn P)

include hs hσ

lemma change_update {slot : Slot} (hslot : s.slot? name = some slot)
    (hf : ∀ v, v.TypeIn P → (f v).TypeIn P) : Change P n s σ s (σ.update slot f) := by
  refine .of_vars_eq hs rfl hs.chains (hσ.update slot hf) (by simp) fun k _ hk => ?_
  exact read_update_of_ne (fun he : slot = k => hk ⟨name, he ▸ hslot⟩) ..

lemma change_updateVar (name : String)
    (hf : ∀ v, v.TypeIn P → (f v).TypeIn P) : Change P n s σ s (s.updateVar σ name f) := by
  unfold updateVar
  split
  · exact change_update hs hσ ‹_› hf
  · exact .refl hs hσ

lemma change_markUsed (name : String) :
    Change P n s σ s (s.markUsed σ name) :=
  change_updateVar hs hσ name fun _ hv => hv

lemma change_markWritten (name : String) (line : Line) :
    Change P n s σ s (s.markWritten σ name line) :=
  change_updateVar hs hσ name fun _ hv => hv

lemma change_markByReference (name : String) :
    Change P n s σ s (s.markByReference σ name) :=
  change_updateVar hs hσ name fun _ hv => hv

lemma change_of_vars (hvars : s'.vars = s.vars)
    (hchains : ∀ e ∈ s'.chains.entries, P e.2) : Change P n s σ s' σ :=
  .of_vars_eq hs hvars hchains hσ le_rfl fun _ _ _ => rfl

lemma change_markDynamic :
    Change P n s σ s.markDynamic σ :=
  change_of_vars hs hσ rfl hs.chains

lemma change_forgetChains (base : String) :
    Change P n s σ (s.forgetChains base) σ :=
  change_of_vars hs hσ rfl fun e he => hs.chains e (mem_of_mem_filter he)

lemma change_setChain (key : String) (ht : KnownIn P type) :
    Change P n s σ (s.setChain key type) σ := by
  have hforget := (change_forgetChains (n := n) hs hσ key).wf.chains
  cases type with
  | none => exact change_of_vars hs hσ rfl fun e he => hforget e (mem_of_mem_filter he)
  | some t =>
    refine change_of_vars hs hσ rfl fun e he => ?_
    rcases mem_put he with he | he
    · exact he ▸ ht t rfl
    · exact hforget e he

lemma change_bindNew (hn : n ≤ σ.size) (name : String) (hv : v.TypeIn P) :
    Change P n s σ (s.bindNew σ name v).1 (s.bindNew σ name v).2 where
  wf := ⟨hs.placed.insert_alloc rfl name, hs.chains⟩
  types := hσ.alloc hv
  size_le := by simp [bindNew]
  read_eq k hk _ := read_alloc_of_lt (Nat.lt_of_lt_of_le hk hn) v
  owns k hk := by
    obtain ⟨a, ha⟩ := hk
    simp only [slot?, bindNew, get?_insert] at ha
    split at ha
    · have : @Eq Nat σ.size k := some.inj ha
      exact .inr (this ▸ hn)
    · exact .inl ⟨a, ha⟩

lemma change_declare (hn : n ≤ σ.size) (name : String) (ht : KnownIn P type) (kind : VarKind)
    (line : Line) :
    Change P n s σ (s.declare σ name type kind line).1 (s.declare σ name type kind line).2 :=
  change_bindNew hs hσ hn name ht

lemma change_ensure (hn : n ≤ σ.size) (name : String)
    (line : Line) :
    Change P n s σ (s.ensure σ name line).2.1 (s.ensure σ name line).2.2 := by
  unfold ensure
  split
  · exact .refl hs hσ
  · exact change_bindNew hs hσ hn name KnownIn.none

lemma change_assign (hn : n ≤ σ.size) (name : String) (ht : KnownIn P type) (line : Line) :
    Change P n s σ (s.assign σ name type line).1 (s.assign σ name type line).2 := by
  unfold assign
  split
  · next hslot =>
    have h := change_forgetChains (n := n) hs hσ name
    exact h.trans (change_update h.wf h.types hslot fun _ _ => ht)
  · have h := change_bindNew (v := { name, type, line, written := true, typeChanged := true })
      hs hσ hn name ht
    exact h.trans (change_forgetChains h.wf h.types name)

lemma change_narrow (hn : n ≤ σ.size) (name : String) (ht : P t) (line : Line) :
    Change P n s σ (s.narrow σ name t line).1 (s.narrow σ name t line).2 := by
  unfold narrow
  split
  · exact change_update hs hσ ‹_› fun _ _ => KnownIn.some ht
  · exact change_declare hs hσ hn name (.some ht) ..

lemma change_overrideType (hn : n ≤ σ.size) (name : String) (ht : P t) (line : Line) :
    Change P n s σ (s.overrideType σ name t line).1 (s.overrideType σ name t line).2 := by
  unfold overrideType
  split
  · exact change_update hs hσ ‹_› fun _ _ => KnownIn.some ht
  · exact change_assign hs hσ hn name (.some ht) line

lemma change_remove (name : String) :
    Change P n s σ (s.remove name) σ where
  wf := by
    refine ⟨hs.placed.of_get? (nodup_keys_erase hs.placed.nodup name) fun a k ha => ?_,
      (change_forgetChains (n := n) hs hσ name).wf.chains⟩
    rw [show (s.remove name).vars = s.vars.erase name from rfl, get?_erase] at ha
    split at ha
    · cases ha
    · exact ha
  types := hσ
  size_le := le_rfl
  read_eq _ _ _ := rfl
  owns k hk := .inl <| by
    obtain ⟨a, ha⟩ := hk
    rw [slot?, show (s.remove name).vars = s.vars.erase name from rfl, get?_erase] at ha
    split at ha
    · cases ha
    · exact ⟨a, ha⟩

end Operations

end Scope

end FlowTyping

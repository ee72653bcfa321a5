import FlowTyping.Analysis.Function
import FlowTyping.Proofs.Scope.Paths
import Mathlib.Data.List.Forall2
import Mathlib.Data.Option.Defs
import Mathlib.Order.Basic

/-!
# Scopes compared across two stores

Two analyses that do alike need not give a variable the same slot: one of them may have made copies
that the other does without.  What they say is compared through a matching of slots, and a matching
only grows.
-/

namespace FlowTyping

open Assertions List Option Scope Store

variable {α β α' β' : Type} {exact : Exactness} {ρ ρ' : Matching} {es fs : List (String × Slot)}
  {i j : Slot} {s t : Scope} {σ τ σ' τ' : Store}

section Options

variable {r : α → β → Prop} {r' : α' → β' → Prop} {a : Option α} {b : Option β} (h : Rel r a b)

include h

lemma rel_cases : (a = none ∧ b = none) ∨ ∃ x y, a = some x ∧ b = some y ∧ r x y := by
  cases h with
  | none => exact .inl ⟨rfl, rfl⟩
  | some hxy => exact .inr ⟨_, _, rfl, rfl, hxy⟩

lemma isSome_eq_of_rel : a.isSome = b.isSome := by
  cases h with
  | none => rfl
  | some _ => rfl

lemma rel_map {f : α → α'} {g : β → β'} (hfg : ∀ {x y}, r x y → r' (f x) (g y)) :
    Rel r' (a.map f) (b.map g) := by
  cases h with
  | none => exact .none
  | some hxy => exact .some (hfg hxy)

lemma rel_bind {f : α → Option α'} {g : β → Option β'}
    (hfg : ∀ {x y}, r x y → Rel r' (f x) (g y)) : Rel r' (a.bind f) (b.bind g) := by
  cases h with
  | none => exact .none
  | some hxy => exact hfg hxy

lemma rel_mono {r' : α → β → Prop} (hle : ∀ {x y}, r x y → r' x y) : Rel r' a b := by
  cases h with
  | none => exact .none
  | some hxy => exact .some (hle hxy)

end Options

/-- A matching of slots. -/
abbrev Matching := Slot → Slot → Prop

/-- The matching with one more pair. -/
def Matching.add (ρ : Matching) (i j : Slot) : Matching :=
  fun a b => ρ a b ∨ (a = i ∧ b = j)

lemma Matching.le_add (ρ : Matching) (i j : Slot) : ρ ≤ ρ.add i j :=
  fun _ _ h => .inl h

lemma Matching.add_self (ρ : Matching) (i j : Slot) : ρ.add i j i j :=
  .inr ⟨rfl, rfl⟩

/-- What two analyses have to agree on, besides what is always asked for. -/
structure Exactness where
  /-- What variables and scopes are, besides names, types and lines; what was read on the left was read
  on the right. -/
  marks : Prop
  /-- Which variables were read, and whether types are strict. -/
  reads : Prop
  /-- Which variables changed. -/
  changes : Prop

/-- All marks have to be the same. -/
abbrev Exactness.full : Exactness :=
  ⟨True, True, True⟩

/-- Where marks are asked for, those of the left are marks of the right, and the same where reads
are. -/
def MarksLike (exact : Exactness) (b b' : Bool) : Prop :=
  exact.marks → (b = true → b' = true) ∧ (exact.reads → b = b')

namespace MarksLike

variable {a a' b b' : Bool}

lemma refl (b : Bool) : MarksLike exact b b :=
  fun _ => ⟨id, fun _ => rfl⟩

lemma or (h : MarksLike exact a a') (h' : MarksLike exact b b') :
    MarksLike exact (a || b) (a' || b') := by
  refine fun hm => ⟨fun hab => ?_, fun he => by rw [(h hm).2 he, (h' hm).2 he]⟩
  rcases Bool.or_eq_true_iff.1 hab with ha | hb
  · rw [(h hm).1 ha, Bool.true_or]
  · rw [(h' hm).1 hb, Bool.or_true]

end MarksLike

/-! ## Variables and flags -/

/-- The variables say the same, up to what the exactness leaves open. -/
structure Variable.Like (exact : Exactness) (v w : Variable) : Prop where
  name : v.name = w.name
  type : v.type = w.type
  line : v.line = w.line
  used : MarksLike exact v.used w.used
  written : exact.marks → v.written = w.written
  kind : exact.marks → v.kind = w.kind
  byReference : exact.marks → v.byReference = w.byReference
  typeChanged : exact.changes → v.typeChanged = w.typeChanged

namespace Variable.Like

variable {v w v' w' : Variable}

lemma refl (v : Variable) : Like exact v v :=
  ⟨rfl, rfl, rfl, .refl _, fun _ => rfl, fun _ => rfl, fun _ => rfl, fun _ => rfl⟩

lemma settle (h : Like exact v w) : Like { exact with changes := False } v w :=
  { h with typeChanged := False.elim }

lemma mergeVar (h : Like exact v w) (h' : Like exact v' w') :
    Like exact (Scope.mergeVar v v') (Scope.mergeVar w w') where
  name := h.name
  type := by simp only [Scope.mergeVar, h.type, h'.type]
  line := by simp only [Scope.mergeVar, h.line, h'.line]
  used := h.used.or h'.used
  written hm := by simp only [Scope.mergeVar, h.written hm, h'.written hm]
  kind := h.kind
  byReference hm := by simp only [Scope.mergeVar, h.byReference hm, h'.byReference hm]
  typeChanged hchanges := by
    simp only [Scope.mergeVar, h.typeChanged hchanges, h'.typeChanged hchanges]

lemma capturedCopy (h : Like exact v w) :
    Like exact (Analysis.capturedCopy v) (Analysis.capturedCopy w) where
  name := h.name
  type := h.type
  line := h.line
  used := .refl false
  written _ := rfl
  kind hm := by simp only [Analysis.capturedCopy, h.kind hm]
  byReference _ := rfl
  typeChanged := h.typeChanged

end Variable.Like

/-- The flags are the same, up to what the exactness leaves open. -/
structure ScopeFlags.Like (marks reads : Prop) (a b : ScopeFlags) : Prop where
  isDynamic : a.isDynamic = b.isDynamic
  isGlobal : marks → a.isGlobal = b.isGlobal
  isStatic : marks → a.isStatic = b.isStatic
  isClosure : marks → a.isClosure = b.isClosure
  isArrow : marks → a.isArrow = b.isArrow
  isStrict : reads → a.isStrict = b.isStrict

namespace ScopeFlags.Like

variable {marks reads : Prop} {a b a' b' : ScopeFlags}

lemma refl (a : ScopeFlags) : Like marks reads a a :=
  ⟨rfl, fun _ => rfl, fun _ => rfl, fun _ => rfl, fun _ => rfl, fun _ => rfl⟩

lemma strict (a : ScopeFlags) {b b' : Bool} (h : reads → b = b') :
    Like marks reads { a with isStrict := b } { a with isStrict := b' } :=
  ⟨rfl, fun _ => rfl, fun _ => rfl, fun _ => rfl, fun _ => rfl, h⟩

lemma union (h : Like marks reads a b) (h' : Like marks reads a' b') :
    Like marks reads (a.union a') (b.union b') where
  isDynamic := by simp only [ScopeFlags.union, h.isDynamic, h'.isDynamic]
  isGlobal hm := by simp only [ScopeFlags.union, h.isGlobal hm, h'.isGlobal hm]
  isStatic hm := by simp only [ScopeFlags.union, h.isStatic hm, h'.isStatic hm]
  isClosure hm := by simp only [ScopeFlags.union, h.isClosure hm, h'.isClosure hm]
  isArrow hm := by simp only [ScopeFlags.union, h.isArrow hm, h'.isArrow hm]
  isStrict he := by simp only [ScopeFlags.union, h.isStrict he, h'.isStrict he]

end ScopeFlags.Like

/-! ## Bindings -/

/-- The same names in the same order, bound to matched slots. -/
def VarsLike (ρ : Matching) : List (String × Slot) → List (String × Slot) → Prop :=
  Forall₂ fun e f => e.1 = f.1 ∧ ρ e.2 f.2

namespace VarsLike

variable (h : VarsLike ρ es fs)

include h

lemma mono (hle : ρ ≤ ρ') : VarsLike ρ' es fs :=
  h.imp fun _ _ hef => ⟨hef.1, hle _ _ hef.2⟩

lemma find (name : String) : Rel ρ (Dict.find name es) (Dict.find name fs) := by
  induction h with
  | nil => exact .none
  | @cons e f es fs hef _ ih =>
    obtain ⟨key, i⟩ := e
    obtain ⟨key', j⟩ := f
    obtain ⟨rfl, hij⟩ := hef
    rw [Dict.find, Dict.find]
    split
    · exact .some hij
    · exact ih

lemma put (name : String) (hij : ρ i j) : VarsLike ρ (Dict.put name i es) (Dict.put name j fs) := by
  induction h with
  | nil => exact .cons ⟨rfl, hij⟩ .nil
  | @cons e f es fs hef hrest ih =>
    obtain ⟨key, i'⟩ := e
    obtain ⟨key', j'⟩ := f
    obtain ⟨rfl, hij'⟩ := hef
    rw [Dict.put, Dict.put]
    split
    · exact .cons ⟨rfl, hij⟩ hrest
    · exact .cons ⟨rfl, hij'⟩ ih

lemma filter (p : String → Bool) :
    VarsLike ρ (es.filter fun e => p e.1) (fs.filter fun f => p f.1) := by
  induction h with
  | nil => exact .nil
  | @cons e f es fs hef _ ih =>
    rw [filter_cons, filter_cons, ← hef.1]
    split
    · exact .cons hef ih
    · exact ih

end VarsLike

/-! ## Scopes and views -/

/-- The scopes bind the same names to matched slots and say the same of chains. -/
structure Scope.Like (exact : Exactness) (ρ : Matching) (s t : Scope) : Prop where
  vars : VarsLike ρ s.vars.entries t.vars.entries
  chains : s.chains = t.chains
  flags : s.flags.Like exact.marks exact.reads t.flags
  function : exact.marks → s.function = t.function

/-- The views say the same. -/
structure ScopeView.Like (exact : Exactness) (v w : ScopeView) : Prop where
  vars : Forall₂ (fun e f => e.1 = f.1 ∧ Variable.Like exact e.2 f.2) v.vars w.vars
  chains : v.chains = w.chains
  flags : v.flags.Like exact.marks exact.reads w.flags
  function : exact.marks → v.function = w.function

/-! Full agreement is equality. -/

lemma MarksLike.eq {b b' : Bool} (h : MarksLike .full b b') : b = b' :=
  (h trivial).2 trivial

lemma Variable.Like.eq {v w : Variable} (h : v.Like .full w) : v = w := by
  cases v
  cases w
  obtain ⟨rfl, rfl, rfl, hused, hwritten, hkind, hreference, hchanged⟩ := h
  obtain rfl := hused.eq
  obtain rfl := hwritten trivial
  obtain rfl := hkind trivial
  obtain rfl := hreference trivial
  obtain rfl := hchanged trivial
  rfl

lemma ScopeFlags.Like.eq {a b : ScopeFlags} (h : a.Like True True b) : a = b := by
  cases a
  cases b
  obtain ⟨rfl, hglobal, hstatic, hclosure, harrow, hstrict⟩ := h
  obtain rfl := hglobal trivial
  obtain rfl := hstatic trivial
  obtain rfl := hclosure trivial
  obtain rfl := harrow trivial
  obtain rfl := hstrict trivial
  rfl

lemma ScopeView.Like.eq {v w : ScopeView} (h : v.Like .full w) : v = w := by
  have hvars : v.vars = w.vars :=
    forall₂_eq_eq_eq ▸ h.vars.imp fun _ _ he => Prod.ext he.1 he.2.eq
  have hflags := h.flags.eq
  have hfunction := h.function trivial
  have hchains := h.chains
  cases v
  cases w
  subst hvars hflags hfunction hchains
  rfl

/-- Matched slots exist, are matched one to one, and hold like variables. -/
structure Store.Like (exact : Exactness) (ρ : Matching) (σ τ : Store) : Prop where
  lt_left : ∀ {i j}, ρ i j → i < σ.size
  lt_right : ∀ {i j}, ρ i j → j < τ.size
  inj : ∀ {i j i' j'}, ρ i j → ρ i' j' → (i = i' ↔ j = j')
  read : ∀ {i j}, ρ i j → (σ.read i).Like exact (τ.read j)

namespace Scope.Like

variable (h : Like exact ρ s t)

include h

lemma mono (hle : ρ ≤ ρ') : Like exact ρ' s t :=
  ⟨h.vars.mono hle, h.chains, h.flags, h.function⟩

lemma slot? (name : String) : Rel ρ (s.slot? name) (t.slot? name) :=
  h.vars.find name

lemma contains (name : String) : s.contains name = t.contains name :=
  isSome_eq_of_rel (h.slot? name)

lemma var? (hσ : Store.Like exact ρ σ τ) (name : String) :
    Rel (Variable.Like exact) (s.var? σ name) (t.var? τ name) :=
  rel_map (h.slot? name) hσ.read

lemma typeOf? (hσ : Store.Like exact ρ σ τ) (name : String) :
    s.typeOf? σ name = t.typeOf? τ name := by
  rw [Scope.typeOf?, Scope.typeOf?]
  rcases rel_cases (h.var? hσ name) with ⟨hs, ht⟩ | ⟨v, w, hs, ht, hvw⟩ <;>
    rw [hs, ht]
  exact hvw.type

lemma chain? (key : String) : s.chain? key = t.chain? key := by
  rw [Scope.chain?, Scope.chain?, h.chains]

lemma view (hσ : Store.Like exact ρ σ τ) : (s.view σ).Like exact (t.view τ) := by
  refine ⟨?_, h.chains, h.flags, h.function⟩
  show Forall₂ _ (s.vars.entries.map _) (t.vars.entries.map _)
  rw [forall₂_map_left_iff, forall₂_map_right_iff]
  exact h.vars.imp fun _ _ hef => ⟨hef.1, hσ.read hef.2⟩

/-! ### Operations on chains and flags -/

lemma markDynamic : Like exact ρ s.markDynamic t.markDynamic :=
  ⟨h.vars, h.chains, { h.flags with isDynamic := rfl }, h.function⟩

lemma forgetChains (base : String) : Like exact ρ (s.forgetChains base) (t.forgetChains base) :=
  ⟨h.vars, by rw [Scope.forgetChains, Scope.forgetChains, h.chains], h.flags, h.function⟩

lemma setChain (key : String) (type : Option Ty) :
    Like exact ρ (s.setChain key type) (t.setChain key type) := by
  have hforget := h.forgetChains key
  cases type with
  | none => exact ⟨h.vars, congrArg (·.erase key) hforget.chains, h.flags, h.function⟩
  | some u => exact ⟨h.vars, congrArg (·.insert key u) hforget.chains, h.flags, h.function⟩

lemma remove (name : String) : Like exact ρ (s.remove name) (t.remove name) :=
  ⟨h.vars.filter fun key => key != name, (h.forgetChains name).chains, h.flags, h.function⟩

lemma bind (name : String) (hij : ρ i j) :
    Like exact ρ { s with vars := s.vars.insert name i } { t with vars := t.vars.insert name j } :=
  ⟨h.vars.put name hij, h.chains, h.flags, h.function⟩

end Scope.Like

/-! ## Stores -/

/-- All slots of the store are slots of the second one, with the same contents. -/
structure Store.Extends (σ σ' : Store) : Prop where
  size_le : σ.size ≤ σ'.size
  read_eq : ∀ {k}, k < σ.size → σ'.read k = σ.read k

lemma Store.extends_alloc (σ : Store) (v : Variable) : σ.Extends (σ.alloc v).2 :=
  ⟨by simp, fun hk => read_alloc_of_lt hk v⟩

namespace Store.Like

variable (h : Like exact ρ σ τ)

include h

lemma extend (hσ : σ.Extends σ') (hτ : τ.Extends τ') : Like exact ρ σ' τ' where
  lt_left hij := (h.lt_left hij).trans_le hσ.size_le
  lt_right hij := (h.lt_right hij).trans_le hτ.size_le
  inj := h.inj
  read hij := by
    rw [hσ.read_eq (h.lt_left hij), hτ.read_eq (h.lt_right hij)]
    exact h.read hij

lemma addPair (hi : i < σ.size) (hj : j < τ.size) (hread : (σ.read i).Like exact (τ.read j))
    (hfree : ∀ {a b}, ρ a b → a ≠ i ∧ b ≠ j) : Like exact (ρ.add i j) σ τ where
  lt_left hab := by
    rcases hab with hab | ⟨rfl, -⟩
    exacts [h.lt_left hab, hi]
  lt_right hab := by
    rcases hab with hab | ⟨-, rfl⟩
    exacts [h.lt_right hab, hj]
  inj {a b a' b'} hab hab' := by
    rcases hab with hab | ⟨rfl, rfl⟩ <;> rcases hab' with hab' | ⟨rfl, rfl⟩
    · exact h.inj hab hab'
    · exact iff_of_false (hfree hab).1 (hfree hab).2
    · exact iff_of_false (hfree hab').1.symm (hfree hab').2.symm
    · exact iff_of_true rfl rfl
  read hab := by
    rcases hab with hab | ⟨rfl, rfl⟩
    exacts [h.read hab, hread]

lemma alloc {v w : Variable} (hvw : v.Like exact w) :
    Like exact (ρ.add σ.size τ.size) (σ.alloc v).2 (τ.alloc w).2 := by
  refine (h.extend (σ.extends_alloc v) (τ.extends_alloc w)).addPair (by simp) (by simp) ?_
    fun hab => ⟨Nat.ne_of_lt (h.lt_left hab), Nat.ne_of_lt (h.lt_right hab)⟩
  have hl : (σ.alloc v).2.read σ.size = v := read_alloc σ v
  have hr : (τ.alloc w).2.read τ.size = w := read_alloc τ w
  rw [hl, hr]
  exact hvw

lemma beq_eq (hij : ρ i j) {a b : Slot} (hab : ρ a b) : (i == a) = (j == b) := by
  rw [Bool.eq_iff_iff, beq_iff_eq, beq_iff_eq]
  exact h.inj hij hab

lemma replace (hij : ρ i j) (hσ : σ'.size = σ.size) (hτ : τ'.size = τ.size)
    (hself : (σ'.read i).Like exact (τ'.read j)) (hl : ∀ {a}, i ≠ a → σ'.read a = σ.read a)
    (hr : ∀ {b}, j ≠ b → τ'.read b = τ.read b) : Like exact ρ σ' τ' where
  lt_left hab := hσ ▸ h.lt_left hab
  lt_right hab := hτ ▸ h.lt_right hab
  inj := h.inj
  read {a b} hab := by
    by_cases ha : i = a
    · obtain rfl := (h.inj hij hab).1 ha
      exact ha ▸ hself
    · rw [hl ha, hr fun hb => ha ((h.inj hij hab).2 hb)]
      exact h.read hab

lemma update (hij : ρ i j) {f g : Variable → Variable}
    (hfg : ∀ {v w}, v.Like exact w → (f v).Like exact (g w)) :
    Like exact ρ (σ.update i f) (τ.update j g) := by
  refine h.replace hij (by simp) (by simp) ?_ (fun ha => read_update_of_ne ha ..)
    fun hb => read_update_of_ne hb ..
  rw [read_update_self (h.lt_left hij), read_update_self (h.lt_right hij)]
  exact hfg (h.read hij)

lemma write (hij : ρ i j) {v w : Variable} (hvw : v.Like exact w) :
    Like exact ρ (σ.write i v) (τ.write j w) := by
  exact h.update hij fun _ => hvw

/-- A read that only the right side knows of does no harm where the marks need not be the same. -/
lemma markRight (hexact : exact.marks → ¬ exact.reads) (j : Slot) :
    Like exact ρ σ (τ.update j fun w => { w with used := true }) where
  lt_left := h.lt_left
  lt_right hab := by simpa using h.lt_right hab
  inj := h.inj
  read {a b} hab := by
    by_cases hb : j = b
    · subst hb
      rw [read_update_self (h.lt_right hab)]
      exact { h.read hab with used := fun hm => ⟨fun _ => rfl, fun he => absurd he (hexact hm)⟩ }
    · rw [read_update_of_ne hb]
      exact h.read hab

lemma markLeft (hij : ρ i j) (hused : exact.marks → (τ.read j).used = true) :
    Like exact ρ (σ.update i fun v => { v with used := true }) τ := by
  refine h.replace hij (by simp) rfl ?_ (fun ha => read_update_of_ne ha ..) fun _ => rfl
  rw [read_update_self (h.lt_left hij)]
  exact { h.read hij with used := fun hm => ⟨fun _ => hused hm, fun _ => (hused hm).symm⟩ }

end Store.Like

/-! ## Operations -/

section Operations

variable {s' t' : Scope}

/-- From like stores the operations lead to like stores under a larger matching, with results that
`Q` relates there. -/
def Store.Sim (exact : Exactness) (ρ : Matching) (f : Store → α × Store) (g : Store → β × Store)
    (Q : Matching → α → β → Prop) : Prop :=
  ∀ ⦃ρ' : Matching⦄, ρ ≤ ρ' → ∀ ⦃σ τ : Store⦄, Store.Like exact ρ' σ τ →
    ∃ ρ'', ρ' ≤ ρ'' ∧ Store.Like exact ρ'' (f σ).2 (g τ).2 ∧ Q ρ'' (f σ).1 (g τ).1

namespace Store.Sim

variable {f : Store → α × Store} {g : Store → β × Store} {Q : Matching → α → β → Prop}
  {f' : α → Store → α' × Store} {g' : β → Store → β' × Store} {R : Matching → α' → β' → Prop}

lemma of_result {a : α} {b : β} (h : ∀ ρ', ρ ≤ ρ' → Q ρ' a b) :
    Sim exact ρ (fun σ => (a, σ)) (fun τ => (b, τ)) Q :=
  fun ρ' hle _ _ hσ => ⟨ρ', le_refl _, hσ, h ρ' hle⟩

lemma bind (h : Sim exact ρ f g Q)
    (h' : ∀ ρ', ρ ≤ ρ' → ∀ a b, Q ρ' a b → Sim exact ρ' (f' a) (g' b) R) :
    Sim exact ρ (fun σ => f' (f σ).1 (f σ).2) (fun τ => g' (g τ).1 (g τ).2) R := by
  intro ρ1 hle σ τ hσ
  obtain ⟨ρ2, hle2, hσ2, hQ⟩ := h hle hσ
  obtain ⟨ρ3, hle3, hσ3, hR⟩ := h' ρ2 (le_trans hle hle2) _ _ hQ le_rfl hσ2
  exact ⟨ρ3, le_trans hle2 hle3, hσ3, hR⟩

end Store.Sim

namespace Scope.Like

variable (h : Like exact ρ s t)

include h

lemma bindNew (name : String) {v w : Variable} (hvw : v.Like exact w) :
    Sim exact ρ (fun σ => s.bindNew σ name v) (fun τ => t.bindNew τ name w)
      (Like exact) := by
  intro ρ' hle σ τ hσ
  refine ⟨ρ'.add σ.size τ.size, ρ'.le_add _ _, hσ.alloc hvw, ?_⟩
  exact (h.mono (le_trans hle (ρ'.le_add _ _))).bind name (ρ'.add_self _ _)

lemma declare (name : String) (type : Option Ty) (kind : VarKind) (line : Line) :
    Sim exact ρ (fun σ => s.declare σ name type kind line)
      (fun τ => t.declare τ name type kind line) (Like exact) :=
  h.bindNew name (.refl _)

lemma updateVar (hσ : Store.Like exact ρ σ τ) (name : String) {f g : Variable → Variable}
    (hfg : ∀ {v w}, v.Like exact w → (f v).Like exact (g w)) :
    Store.Like exact ρ (s.updateVar σ name f) (t.updateVar τ name g) := by
  unfold Scope.updateVar
  rcases rel_cases (h.slot? name) with ⟨hs, ht⟩ | ⟨i, j, hs, ht, hij⟩ <;>
    rw [hs, ht]
  · exact hσ
  · exact hσ.update hij hfg

lemma markUsed (hσ : Store.Like exact ρ σ τ) (name : String) :
    Store.Like exact ρ (s.markUsed σ name) (t.markUsed τ name) :=
  h.updateVar hσ name fun hv => { hv with used := .refl true }

lemma markWritten (hσ : Store.Like exact ρ σ τ) (name : String) (line : Line) :
    Store.Like exact ρ (s.markWritten σ name line) (t.markWritten τ name line) :=
  h.updateVar hσ name fun hv => { hv with written := fun _ => rfl, line := rfl }

lemma markByReference (hσ : Store.Like exact ρ σ τ) (name : String) :
    Store.Like exact ρ (s.markByReference σ name) (t.markByReference τ name) :=
  h.updateVar hσ name fun hv => { hv with byReference := fun _ => rfl }

lemma assign (name : String) (type : Option Ty) (line : Line) :
    Sim exact ρ (fun σ => s.assign σ name type line) (fun τ => t.assign τ name type line)
      (Like exact) := by
  unfold Scope.assign
  rcases rel_cases (h.slot? name) with ⟨hs, ht⟩ | ⟨i, j, hs, ht, hij⟩ <;>
    rw [hs, ht]
  · intro ρ' hle σ τ hσ
    obtain ⟨ρ'', hle', hσ', hlike⟩ := h.bindNew name (.refl _) hle hσ
    exact ⟨ρ'', hle', hσ', hlike.forgetChains name⟩
  · intro ρ' hle σ τ hσ
    refine ⟨ρ', le_refl _, hσ.update (hle _ _ hij) fun hv => ?_, (h.mono hle).forgetChains name⟩
    exact { hv with type := rfl, written := fun _ => rfl, line := rfl, typeChanged := fun _ => rfl }

lemma setType (hij : ρ i j) (type : Ty) :
    Sim exact ρ (fun σ => (s, σ.update i fun v => { v with type := some type }))
      (fun τ => (t, τ.update j fun w => { w with type := some type })) (Like exact) := by
  intro ρ' hle σ τ hσ
  refine ⟨ρ', le_refl _, hσ.update (hle _ _ hij) fun hv => ?_, h.mono hle⟩
  exact { hv with type := rfl }

lemma narrow (name : String) (type : Ty) (line : Line) :
    Sim exact ρ (fun σ => s.narrow σ name type line) (fun τ => t.narrow τ name type line)
      (Like exact) := by
  unfold Scope.narrow
  rcases rel_cases (h.slot? name) with ⟨hs, ht⟩ | ⟨i, j, hs, ht, hij⟩ <;>
    rw [hs, ht]
  · exact h.declare name _ _ _
  · exact h.setType hij type

lemma overrideType (name : String) (type : Ty) (line : Line) :
    Sim exact ρ (fun σ => s.overrideType σ name type line)
      (fun τ => t.overrideType τ name type line) (Like exact) := by
  unfold Scope.overrideType
  rcases rel_cases (h.slot? name) with ⟨hs, ht⟩ | ⟨i, j, hs, ht, hij⟩ <;>
    rw [hs, ht]
  · exact h.assign name _ _
  · exact h.setType hij type

lemma ensure (name : String) (line : Line) :
    Sim exact ρ
      (fun σ => (((s.ensure σ name line).1, (s.ensure σ name line).2.1),
        (s.ensure σ name line).2.2))
      (fun τ => (((t.ensure τ name line).1, (t.ensure τ name line).2.1),
        (t.ensure τ name line).2.2))
      fun ρ a b => ρ a.1 b.1 ∧ Like exact ρ a.2 b.2 := by
  unfold Scope.ensure
  rcases rel_cases (h.slot? name) with ⟨hs, ht⟩ | ⟨i, j, hs, ht, hij⟩ <;>
    rw [hs, ht]
  · intro ρ' hle σ τ hσ
    refine ⟨ρ'.add σ.size τ.size, ρ'.le_add _ _, hσ.alloc (.refl _), ρ'.add_self _ _, ?_⟩
    exact (h.mono (le_trans hle (ρ'.le_add _ _))).bind name (ρ'.add_self _ _)
  · intro ρ' hle σ τ hσ
    exact ⟨ρ', le_refl _, hσ, hle _ _ hij, h.mono hle⟩

lemma share (name : String) (hij : ρ i j) :
    Sim exact ρ (fun σ => s.share σ name i) (fun τ => t.share τ name j) (Like exact) := by
  intro ρ' hle σ τ hσ
  refine ⟨ρ', le_refl _, hσ.update (hle _ _ hij) fun hv => ?_, (h.mono hle).bind name (hle _ _ hij)⟩
  exact { hv with byReference := fun _ => rfl }

lemma addSuperglobals (extra : List String) :
    Sim exact ρ (Scope.addSuperglobals extra s) (Scope.addSuperglobals extra t)
      (Like exact) := by
  unfold Scope.addSuperglobals
  generalize Name.superglobals ++ extra = names
  induction names generalizing ρ s t with
  | nil => exact .of_result fun ρ' hle => h.mono hle
  | cons name names ih =>
    exact (h.declare name (some .array) .superglobal 0).bind fun ρ' _ s t h => ih h

/-! ### Narrowing -/

lemma narrowIn (r : Reference) (type : Option Ty) (define : Bool) (line : Line) :
    Sim exact ρ (fun σ => r.narrowIn type define line s σ)
      (fun τ => r.narrowIn type define line t τ) (Like exact) := by
  have hsame : Sim exact ρ (fun σ => (s, σ)) (fun τ => (t, τ)) (Like exact) :=
    .of_result fun ρ' hle => h.mono hle
  unfold Reference.narrowIn
  cases r with
  | var name =>
    cases type with
    | some u =>
      simp only [h.contains name]
      split
      · exact h.narrow name u line
      · exact hsame
    | none =>
      dsimp only
      split
      · intro ρ' hle σ τ hσ
        obtain ⟨ρ'', hle', hσ', -, hlike⟩ := h.ensure name line hle hσ
        exact ⟨ρ'', hle', hσ', hlike⟩
      · exact hsame
  | chain key =>
    cases type with
    | some u => exact .of_result fun ρ' hle => (h.mono hle).setChain key (some u)
    | none => exact hsame

end Scope.Like

/-! ## Copies -/

/-- The same name, bound to slots that hold like variables. -/
abbrev EntriesLike (exact : Exactness) (σ τ : Store) (e f : String × Slot) : Prop :=
  e.1 = f.1 ∧ e.2 < σ.size ∧ f.2 < τ.size ∧ (σ.read e.2).Like exact (τ.read f.2)

lemma EntriesLike.extend {e f : String × Slot} (h : EntriesLike exact σ τ e f) (hσ : σ.Extends σ')
    (hτ : τ.Extends τ') : EntriesLike exact σ' τ' e f := by
  refine ⟨h.1, lt_of_lt_of_le h.2.1 hσ.size_le, lt_of_lt_of_le h.2.2.1 hτ.size_le, ?_⟩
  rw [hσ.read_eq h.2.1, hτ.read_eq h.2.2.1]
  exact h.2.2.2

/-- The scopes say the same, each with the variables of its own store, whatever the slots are and
whatever changed. -/
structure Scope.SaysLike (marks reads : Prop) (s : Scope) (σ : Store) (t : Scope) (τ : Store) :
    Prop where
  vars : Forall₂ (EntriesLike ⟨marks, reads, False⟩ σ τ) s.vars.entries t.vars.entries
  chains : s.chains = t.chains
  flags : s.flags.Like marks reads t.flags
  function : marks → s.function = t.function

lemma Scope.Like.saysLike (h : Like exact ρ s t) (hσ : Store.Like exact ρ σ τ) :
    s.SaysLike exact.marks exact.reads σ t τ :=
  ⟨h.vars.imp fun _ _ hef => ⟨hef.1, hσ.lt_left hef.2, hσ.lt_right hef.2, (hσ.read hef.2).settle⟩,
    h.chains, h.flags, h.function⟩

lemma Scope.forkVars_like (hσ : Store.Like exact ρ σ τ)
    (h : Forall₂ (EntriesLike { exact with changes := False } σ τ) es fs) :
    ∃ ρ', ρ ≤ ρ' ∧ Store.Like exact ρ' (forkVars es σ).2 (forkVars fs τ).2 ∧
      VarsLike ρ' (forkVars es σ).1 (forkVars fs τ).1 := by
  induction es generalizing ρ σ τ fs with
  | nil =>
    cases h
    exact ⟨ρ, le_refl _, hσ, .nil⟩
  | cons e es ih =>
    cases h with
    | @cons _ f _ fs hef hrest =>
      obtain ⟨name, i⟩ := e
      obtain ⟨name', j⟩ := f
      obtain ⟨rfl, hi, hj, hread⟩ := hef
      have hcopy : Variable.Like exact { σ.read i with typeChanged := false }
          { τ.read j with typeChanged := false } := { hread with typeChanged := fun _ => rfl }
      have hσ' := hσ.alloc hcopy
      obtain ⟨ρ', hle, hlike, hvars⟩ := ih hσ' (hrest.imp fun _ _ hef =>
        hef.extend (σ.extends_alloc _) (τ.extends_alloc _))
      refine ⟨ρ', le_trans (ρ.le_add _ _) hle, hlike, .cons ⟨rfl, ?_⟩ hvars⟩
      exact hle _ _ (ρ.add_self _ _)

lemma Scope.SaysLike.fork (h : s.SaysLike exact.marks exact.reads σ t τ)
    (hσ : Store.Like exact ρ σ τ) :
    ∃ ρ', ρ ≤ ρ' ∧ Store.Like exact ρ' (s.fork σ).2 (t.fork τ).2 ∧
      Scope.Like exact ρ' (s.fork σ).1 (t.fork τ).1 := by
  obtain ⟨ρ', hle, hlike, hvars⟩ := forkVars_like hσ h.vars
  exact ⟨ρ', hle, hlike, hvars, h.chains, h.flags, h.function⟩

lemma Scope.Like.fork (h : Like exact ρ s t) :
    Sim exact ρ s.fork t.fork (Like exact) :=
  fun _ hle _ _ hσ => ((h.mono hle).saysLike hσ).fork hσ

/-! ## Joins -/

namespace Scope

variable {paths paths' : List Scope} {vars vars' : Dict Slot}

lemma mergeVars_like (hσ : Store.Like exact ρ σ τ) (hvars : VarsLike ρ vars.entries vars'.entries)
    (h : Forall₂ (fun e f => EntriesLike exact σ τ e f ∧ ∀ name i j, vars.get? name = some i →
      vars'.get? name = some j → (i = e.2 ↔ j = f.2)) es fs) :
    ∃ ρ', ρ ≤ ρ' ∧ Store.Like exact ρ' (mergeVars es vars σ).2 (mergeVars fs vars' τ).2 ∧
      VarsLike ρ' (mergeVars es vars σ).1.entries (mergeVars fs vars' τ).1.entries := by
  induction es generalizing ρ σ τ fs vars vars' with
  | nil =>
    cases h
    exact ⟨ρ, le_refl _, hσ, hvars⟩
  | cons e es ih =>
    cases h with
    | @cons _ f _ fs hef hrest =>
      obtain ⟨name, i⟩ := e
      obtain ⟨name', j⟩ := f
      obtain ⟨⟨rfl, -, -, hread⟩, hsame⟩ := hef
      have hget : Rel ρ (vars.get? name) (vars'.get? name) := hvars.find name
      rw [mergeVars, mergeVars]
      rcases rel_cases hget with ⟨hl, hr⟩ | ⟨i', j', hl, hr, hij'⟩ <;>
        rw [hl, hr]
      · have hle := ρ.le_add σ.size τ.size
        have hput : VarsLike (ρ.add σ.size τ.size) (vars.insert name σ.size).entries
            (vars'.insert name τ.size).entries := VarsLike.put (hvars.mono hle) name (ρ.add_self _ _)
        obtain ⟨ρ', hle', hlike, hmerged⟩ := ih (hσ.alloc hread) hput (hrest.imp fun e f hef =>
            ⟨hef.1.extend (σ.extends_alloc _) (τ.extends_alloc _), fun other a b ha hb => by
              rw [Dict.get?_insert] at ha hb
              by_cases hname : other = name
              · rw [if_pos hname] at ha hb
                cases ha
                cases hb
                exact iff_of_false (Nat.ne_of_gt hef.1.2.1) (Nat.ne_of_gt hef.1.2.2.1)
              · rw [if_neg hname] at ha hb
                exact hef.2 other a b ha hb⟩)
        exact ⟨ρ', le_trans hle hle', hlike, hmerged⟩
      · have hbeq : (i' == i) = (j' == j) := by
          rw [Bool.eq_iff_iff, beq_iff_eq, beq_iff_eq]
          exact hsame name i' j' hl hr
        dsimp only
        rw [hbeq]
        split
        · exact ih hσ hvars hrest
        · refine ih (hσ.update hij' fun hv => hv.mergeVar hread) hvars (hrest.imp fun e f hef =>
            ⟨⟨hef.1.1, by simpa using hef.1.2.1, by simpa using hef.1.2.2.1, ?_⟩, hef.2⟩)
          have hsame := hef.2 name i' j' hl hr
          by_cases he : i' = e.2
          · rw [← he, ← hsame.1 he, read_update_self (hσ.lt_left hij'),
              read_update_self (hσ.lt_right hij')]
            exact (hσ.read hij').mergeVar hread
          · rw [read_update_of_ne he, read_update_of_ne (mt hsame.2 he)]
            exact hef.1.2.2.2

lemma Like.merge (h : Like exact ρ s t) (h' : Like exact ρ s' t') :
    Sim exact ρ (fun σ => s.merge s' σ) (fun τ => t.merge t' τ) (Like exact) := by
  intro ρ' hle σ τ hσ
  obtain ⟨ρ'', hle', hlike, hvars⟩ := mergeVars_like hσ (h.mono hle).vars
    ((h'.mono hle).vars.imp fun e f hef => ⟨⟨hef.1, hσ.lt_left hef.2, hσ.lt_right hef.2, hσ.read hef.2⟩,
      fun name i j hi hj => by
        rcases rel_cases ((h.mono hle).slot? name) with ⟨hs, -⟩ | ⟨a, b, hs, ht, hab⟩
        · cases hs.symm.trans hi
        · cases hs.symm.trans hi
          cases ht.symm.trans hj
          exact hσ.inj hab hef.2⟩)
  refine ⟨ρ'', hle', hlike, hvars, ?_, h.flags.union h'.flags, h.function⟩
  show mergeChains s.chains s'.chains = mergeChains t.chains t'.chains
  rw [h.chains, h'.chains]

lemma Like.merged (h : Like exact ρ s t) (h' : Like exact ρ s' t') :
    Sim exact ρ (fun σ => merged s s' σ) (fun τ => merged t t' τ)
      (Like exact) :=
  h.fork.bind fun _ hle _ _ hfork => hfork.merge (h'.mono hle)

/-- Lists of scopes that are alike one by one. -/
abbrev AllLike (exact : Exactness) (ρ : Matching) : List Scope → List Scope → Prop :=
  Forall₂ (Like exact ρ)

lemma AllLike.mono (h : AllLike exact ρ paths paths')
    (hle : ρ ≤ ρ') : AllLike exact ρ' paths paths' :=
  Forall₂.imp (fun _ _ hst => Like.mono hst hle) h

lemma Like.mergeAll (h : Like exact ρ s t) (hpaths : AllLike exact ρ paths paths') :
    Sim exact ρ (fun σ => s.mergeAll paths σ) (fun τ => t.mergeAll paths' τ)
      (Like exact) := by
  induction paths generalizing ρ s t paths' with
  | nil =>
    cases hpaths
    exact .of_result fun ρ' hle => h.mono hle
  | cons path paths ih =>
    cases hpaths with
    | cons hpath hrest =>
      exact (h.merge hpath).bind fun ρ' hle s t h => ih h (AllLike.mono hrest hle)

lemma AllLike.joinAll (h : AllLike exact ρ paths paths') :
    Sim exact ρ (joinAll paths) (joinAll paths')
      fun ρ => Rel (Like exact ρ) := by
  cases h with
  | nil => exact .of_result fun _ _ => .none
  | cons hpath hrest =>
    exact (hpath.mergeAll hrest).bind fun ρ' _ s t h =>
      Sim.of_result (a := some s) (b := some t) fun ρ'' hle => .some (h.mono hle)

/-! ## Replacing -/

lemma replaceVars_like (hσ : Store.Like exact ρ σ τ)
    (hvars : VarsLike ρ vars.entries vars'.entries) (h : VarsLike ρ es fs) :
    Store.Like exact ρ (replaceVars es vars σ).2 (replaceVars fs vars' τ).2 ∧
      VarsLike ρ (replaceVars es vars σ).1.entries (replaceVars fs vars' τ).1.entries := by
  induction h generalizing σ τ vars vars' with
  | nil => exact ⟨hσ, hvars⟩
  | @cons e f es fs hef _ ih =>
    obtain ⟨name, i⟩ := e
    obtain ⟨name', j⟩ := f
    obtain ⟨rfl, hij⟩ := hef
    have hget : Rel ρ (vars.get? name) (vars'.get? name) := hvars.find name
    rw [replaceVars, replaceVars]
    rcases rel_cases hget with ⟨hl, hr⟩ | ⟨i', j', hl, hr, hij'⟩ <;>
      rw [hl, hr]
    · exact ih hσ (VarsLike.put hvars name hij)
    · dsimp only
      rw [hσ.beq_eq hij' hij]
      split
      · exact ih hσ hvars
      · exact ih (hσ.write hij' (hσ.read hij)) hvars

lemma Like.replaceWith (h : Like exact ρ s t) (h' : Like exact ρ s' t') :
    Sim exact ρ (fun σ => s.replaceWith s' σ) (fun τ => t.replaceWith t' τ)
      (Like exact) := by
  intro ρ' hle σ τ hσ
  have hkept : VarsLike ρ' (s.vars.filter fun name _ => s'.vars.contains name).entries
      (t.vars.filter fun name _ => t'.vars.contains name).entries := by
    have hnames : (s'.vars.contains) = fun name => t'.vars.contains name :=
      funext h'.contains
    show VarsLike ρ' (s.vars.entries.filter _) (t.vars.entries.filter _)
    rw [show (fun e : String × Slot => s'.vars.contains e.1) =
      fun e => t'.vars.contains e.1 from funext fun e => congrFun hnames e.1]
    exact (h.mono hle).vars.filter t'.vars.contains
  obtain ⟨hlike, hvars⟩ := replaceVars_like hσ hkept (h'.mono hle).vars
  exact ⟨ρ', le_refl _, hlike, hvars, h'.chains, h'.flags, h.function⟩

/-! ## Reads of paths that do not come back -/

lemma absorbVars_like (h : Like exact ρ s t) (hσ : Store.Like exact ρ σ τ)
    (hes : VarsLike ρ es fs) : Store.Like exact ρ (absorbVars s es σ) (absorbVars t fs τ) := by
  induction hes generalizing σ τ with
  | nil => exact hσ
  | @cons e f es fs hef _ ih =>
    obtain ⟨name, i⟩ := e
    obtain ⟨name', j⟩ := f
    obtain ⟨rfl, hij⟩ := hef
    rw [absorbVars, absorbVars]
    rcases rel_cases (h.slot? name) with ⟨hl, hr⟩ | ⟨i', j', hl, hr, hij'⟩ <;>
      rw [hl, hr]
    · exact ih hσ
    · dsimp only
      have hused := (hσ.read hij).used
      rw [bne, bne, hσ.beq_eq hij' hij]
      cases j' == j with
      | true => exact ih hσ
      | false =>
        cases hl : (σ.read i).used <;> cases hr : (τ.read j).used <;> rw [hl, hr] at hused
        · exact ih hσ
        · exact ih (hσ.markRight (fun hm he => nomatch (hused hm).2 he) j')
        · exact ih (hσ.markLeft hij' fun hm => nomatch (hused hm).1 rfl)
        · exact ih (hσ.update hij' fun hv => { hv with used := .refl true })

lemma Like.absorbUsage (h : Like exact ρ s t) (h' : Like exact ρ s' t')
    (hσ : Store.Like exact ρ σ τ) :
    Store.Like exact ρ (s.absorbUsage s' σ) (t.absorbUsage t' τ) :=
  absorbVars_like h hσ h'.vars

lemma Like.absorbAll (h : Like exact ρ s t) (hpaths : AllLike exact ρ paths paths')
    (hσ : Store.Like exact ρ σ τ) :
    Store.Like exact ρ (paths.foldl (fun σ path => s.absorbUsage path σ) σ)
      (paths'.foldl (fun τ path => t.absorbUsage path τ) τ) := by
  induction hpaths generalizing σ τ with
  | nil => exact hσ
  | cons hpath _ ih => exact ih (h.absorbUsage hpath hσ)

end Scope

/-! ## Conditions -/

/-- The scopes on either outcome are alike, or missing on both sides. -/
structure Assertions.Like (exact : Exactness) (ρ : Matching) (a b : Assertions) : Prop where
  whenTrue : Rel (Scope.Like exact ρ) a.whenTrue b.whenTrue
  whenFalse : Rel (Scope.Like exact ρ) a.whenFalse b.whenFalse

namespace Assertions.Like

variable {a b : Assertions}

lemma mono (h : Like exact ρ a b) (hle : ρ ≤ ρ') : Like exact ρ' a b :=
  ⟨rel_mono h.whenTrue fun hst => hst.mono hle, rel_mono h.whenFalse fun hst => hst.mono hle⟩

lemma swapped (h : Like exact ρ a b) : Like exact ρ a.swapped b.swapped :=
  ⟨h.whenFalse, h.whenTrue⟩

lemma isEmpty (h : Like exact ρ a b) : a.isEmpty = b.isEmpty := by
  simp only [Assertions.isEmpty, ← not_isSome, isSome_eq_of_rel h.whenTrue,
    isSome_eq_of_rel h.whenFalse]

lemma forkScope {s t : Option Scope} (h : Rel (Scope.Like exact ρ) s t) :
    Sim exact ρ (forkScope s) (forkScope t)
      fun ρ => Rel (Scope.Like exact ρ) := by
  cases h with
  | none => exact .of_result fun _ _ => .none
  | some hst =>
    exact hst.fork.bind fun ρ' _ s t h =>
      Sim.of_result (a := some s) (b := some t) fun ρ'' hle => .some (h.mono hle)

lemma fork (h : Like exact ρ a b) :
    Sim exact ρ a.fork b.fork (Like exact) := by
  intro ρ1 hle1 σ τ hσ
  obtain ⟨ρ2, hle2, hσ2, htrue⟩ := forkScope h.whenTrue hle1 hσ
  have hle : ρ ≤ ρ2 := le_trans hle1 hle2
  obtain ⟨ρ3, hle3, hσ3, hfalse⟩ :=
    forkScope (rel_mono h.whenFalse fun hst => hst.mono hle) le_rfl hσ2
  exact ⟨ρ3, le_trans hle2 hle3, hσ3, rel_mono htrue fun hst => hst.mono hle3, hfalse⟩

end Assertions.Like

end Operations

end FlowTyping

import FlowTyping.Proofs.Ty.Canonical

/-!
# What types mean

A type stands for a set of values: a class for its instances and those of its descendants, a union
for the values of its options, an intersection for the values that all its members share.  What it
means for one value to be in a type can be read in more ways, but every reading treats unions,
intersections and nullable types alike.  That is all that narrowing depends on.

**Faithful equality.**  Where equality of options is faithful to a reading (`Faithful`), no union loses
the value (`IsMembership.unionOf`), and leaving options out loses it only with an option that it is in
(`IsMembership.stripNull`, `IsMembership.without`).  Equality is faithful where no member repeats
below an intersection (`IsMembership.faithful`).
-/

namespace FlowTyping

open Name List

variable {t a b : Ty} {members : List Ty} {M : Ty → Prop} {name : String} {guard : Guard}
  {current : Option Ty} {w : World} {v : Value}

/-- What the outcome of a test says about the types that a value is in. -/
def Guard.Decides (M : Ty → Prop) (passed : Bool) : Guard → Prop
  | isNull => passed = true ↔ M .null
  | looseNull | empty => M .null → passed = true
  | instanceOf className => passed = true ↔ M (.named className)
  | primitive kind => passed = true ↔ M (.primitive kind)
  | truthy => passed = true → ¬ M .null
  | isSet => passed = true ↔ ¬ M .null

/-- The name of the options that a type loses where the test fails. -/
def Guard.leftOut? : Guard → Option String
  | instanceOf className => some className
  | primitive .null => none
  | primitive kind => some kind.keyword
  | _ => none

namespace Ty

/-- The types that satisfy `M` are those that some value is in. -/
structure IsMembership (M : Ty → Prop) : Prop where
  named : ∀ {x y}, key x = key y → M (.named x) → M (.named y)
  mixed : M mixed
  nullable : ∀ {inner}, M (.nullable inner) → M inner ∨ M null
  union : ∀ {members}, M (.union members) ↔ ∃ t ∈ members, M t
  inter : ∀ {members}, M (.inter members) ↔ ∀ t ∈ members, M t

/-- An option that equals another one holds the values of that one. -/
def Faithful (M : Ty → Prop) (t : Ty) : Prop :=
  ∀ a ∈ t.leaves, ∀ b ∈ t.leaves, eqv a b = true → M b → M a

lemma Faithful.mono {u : Ty} (h : t.Faithful M) (hsub : ∀ leaf ∈ u.leaves, leaf ∈ t.leaves) :
    u.Faithful M :=
  fun a ha b hb => h a (hsub a ha) b (hsub b hb)

lemma mem_leaves_of_subset {kept : List Ty} (h : ∀ t ∈ kept, t ∈ members) :
    ∀ leaf ∈ (union kept).leaves, leaf ∈ (union members).leaves := by
  intro leaf hleaf
  obtain ⟨t, ht, hleaf⟩ := mem_leavesOfAll.1 hleaf
  exact mem_leavesOfAll.2 ⟨t, h t ht, hleaf⟩

lemma normalize_eq_union (h : t.normalize = .union members) :
    (union members).leaves = members ∧ ∀ m ∈ members, m ∈ t.leaves ∧ m.IsOption := by
  have hunion : unionOf [t] = .union members := by
    cases t with
    | union _ => exact h
    | nullable _ => exact h
    | _ => cases h
  have hnormal := normal_unionOf [t]
  rw [hunion] at hnormal
  have hoption := hnormal.2.2.1
  refine ⟨leavesOfAll_of_isOption hoption, fun m hm => ⟨?_, hoption m hm⟩⟩
  rcases unionOf_cases [t] with hmixed | hleaf | ⟨options, hoptions, hmem⟩
  · cases hunion.symm.trans hmixed
  · rw [hunion] at hleaf
    exact (isOption_of_mem_leavesOfAll hleaf rfl).elim
  · cases hunion.symm.trans hoptions
    exact leavesOfAll_singleton t ▸ hmem m hm

/-- Below an intersection nothing is nullable and no member repeats another. -/
def PlainParts : Ty → Prop
  | .inter members => ∀ t ∈ members, t.Unrepeated
  | _ => True

namespace IsMembership

variable (hM : IsMembership M)

include hM

/-! ## Equality -/

/-- Types without repeated members that are equal hold the same values.  The induction is on the
depth of the first type. -/
lemma of_eqv (ha : a.Unrepeated) (hb : b.Unrepeated) (h : eqv a b = true) (hv : M a) : M b := by
  generalize hd : a.depth = d
  induction d using Nat.strongRecOn generalizing a b with
  | _ d ih =>
    subst hd
    rcases eqv_cases ha hb h with ⟨x, y, rfl, rfl, hkey⟩ | ⟨p, rfl, rfl⟩ |
      ⟨xs, ys, rfl, rfl, hsame⟩ | ⟨xs, ys, rfl, rfl, hsame⟩
    · exact hM.named hkey hv
    · exact hv
    · obtain ⟨x, hx, hxv⟩ := hM.union.1 hv
      obtain ⟨y, hy, hyx⟩ := (sameMembers_iff.1 hsame).2 x hx
      have hxu := (unrepeated_union.1 ha).1 x hx
      have hyu := (unrepeated_union.1 hb).1 y hy
      exact hM.union.2 ⟨y, hy, ih _ (depth_lt_union hx) hxu hyu (hyu.eqv_symm hxu hyx) hxv rfl⟩
    · -- Each member of the second type has to be found in the first.
      have hback := ha.eqv_symm hb h
      rw [eqv_inter (unrepeated_inter.1 hb).1 (unrepeated_inter.1 ha).1] at hback
      refine hM.inter.2 fun y hy => ?_
      obtain ⟨x, hx, hxy⟩ := (sameMembers_iff.1 hback).2 y hy
      exact ih _ (depth_lt_inter hx) ((unrepeated_inter.1 ha).1 x hx) ((unrepeated_inter.1 hb).1 y hy)
        hxy (hM.inter.1 hv x hx) rfl

/-- The members of the intersection that is kept are all found in the other one, so repeated members
do no harm at the top. -/
lemma faithful (h : ∀ leaf ∈ t.leaves, leaf.PlainParts) : t.Faithful M := by
  intro a ha b hb heq hv
  have hpa := h a ha
  have hpb := h b hb
  cases a with
  | inter xs =>
    cases b with
    | inter ys =>
      rw [eqv_inter hpa hpb] at heq
      refine hM.inter.2 fun x hx => ?_
      obtain ⟨y, hy, hyx⟩ := (sameMembers_iff.1 heq).2 x hx
      exact hM.of_eqv (hpb y hy) (hpa x hx) hyx (hM.inter.1 hv y hy)
    | _ => cases heq
  | named x =>
    cases b with
    | named y => exact hM.named (eqv_named.1 heq).symm hv
    | _ => cases heq
  | primitive p =>
    cases b with
    | primitive q => exact eqv_primitive.1 heq ▸ hv
    | _ => cases heq
  | nullable _ | union _ => exact (isOption_of_mem_leaves ha rfl).elim

/-! ## Unions -/

lemma exists_leaf (h : M t) : ∃ leaf ∈ t.leaves, M leaf := by
  induction t using byMembers with
  | named _ | primitive _ | inter _ _ => exact ⟨_, .head _, h⟩
  | nullable inner ih =>
    rcases hM.nullable h with h | h
    · obtain ⟨leaf, hleaf, hv⟩ := ih h
      exact ⟨leaf, mem_append_left _ hleaf, hv⟩
    · exact ⟨_, mem_append_right _ (.head _), h⟩
  | union members ih =>
    obtain ⟨t, ht, hv⟩ := hM.union.1 h
    obtain ⟨leaf, hleaf, hv⟩ := ih t ht hv
    exact ⟨leaf, mem_leavesOfAll.2 ⟨t, ht, hleaf⟩, hv⟩

lemma unionOf {ts : List Ty} {t : Ty} (hfaithful : (Ty.union ts).Faithful M) (ht : t ∈ ts)
    (h : M t) : M (unionOf ts) := by
  obtain ⟨leaf, hleaf, hv⟩ := hM.exists_leaf (hM.union.2 ⟨t, ht, h⟩)
  rw [leaves] at hleaf
  unfold Ty.unionOf unionWith
  dsimp only
  split
  · exact hM.mixed
  · obtain ⟨u, hu, heq⟩ := exists_mem_distinct hleaf
    have huv : M u := hfaithful u (mem_of_mem_distinct hu) leaf hleaf heq hv
    generalize distinct eqv (leavesOfAll ts) = options at hu
    obtain _ | ⟨a, _ | ⟨b, rest⟩⟩ := options
    · cases hu
    · exact mem_singleton.1 hu ▸ huv
    · show M (if _ then Ty.mixed else .union _)
      split
      · exact hM.mixed
      · exact hM.union.2 ⟨u, hu, huv⟩

/-! ## Leaving options out -/

lemma normalize (hfaithful : t.Faithful M) (h : M t) : M t.normalize := by
  have hself : (Ty.union [t]).Faithful M :=
    hfaithful.mono fun leaf hleaf => leavesOfAll_singleton t ▸ hleaf
  cases t with
  | union _ | nullable _ => exact hM.unionOf hself (.head _) h
  | _ => exact h

lemma unionOf_filter (hfaithful : (Ty.union members).Faithful M) (h : M (.union members))
    {keep : Ty → Bool} (hkeep : ∀ t ∈ members, M t → keep t = true) :
    members.filter keep ≠ [] ∧ M (Ty.unionOf (members.filter keep)) := by
  obtain ⟨t, ht, hv⟩ := hM.union.1 h
  have hmem : t ∈ members.filter keep := mem_filter.2 ⟨ht, hkeep t ht hv⟩
  refine ⟨ne_nil_of_mem hmem, hM.unionOf (hfaithful.mono ?_) hmem hv⟩
  exact mem_leaves_of_subset fun u => mem_of_mem_filter

lemma stripNull (hfaithful : t.Faithful M) (h : M t) (hnull : ¬ M null) :
    M t.stripNull := by
  have hkeep : ∀ u : Ty, M u → (!u.isNull) = true := by
    intro u hu
    unfold isNull
    split
    · exact absurd hu hnull
    · rfl
  fun_induction Ty.stripNull t with
  | case1 inner ih =>
    refine ih (hfaithful.mono fun leaf => mem_append_left _) ?_
    exact (hM.nullable h).resolve_right hnull
  | case2 members hnone => exact absurd hnone (hM.unionOf_filter hfaithful h fun u _ => hkeep u).1
  | case3 members => exact (hM.unionOf_filter hfaithful h fun u _ => hkeep u).2
  | case4 => exact h

lemma without (hfaithful : t.Faithful M) (h : M t)
    (hname : ∀ leaf ∈ t.leaves, leaf.IsOption → leaf.isOptionCalled name = true → ¬ M leaf) :
    M (t.without name) := by
  have hv := hM.normalize hfaithful h
  unfold Ty.without
  split
  · next members heq =>
    obtain ⟨hleaves, hsub⟩ := normalize_eq_union heq
    rw [heq] at hv
    dsimp only
    split
    · exact hv
    · have hfaithful' := hfaithful.mono (u := .union members) fun m hm => (hsub m (hleaves ▸ hm)).1
      refine (hM.unionOf_filter hfaithful' hv fun m hm hmv => ?_).2
      rw [Bool.not_eq_true', Bool.eq_false_iff]
      exact fun hcalled => hname m (hsub m hm).1 (hsub m hm).2 hcalled hmv
  · exact hv

/-- Both sides of a test keep the value, where the options that a failing test leaves out have none
that fails it. -/
lemma narrow {passed : Bool} (hguard : guard.Decides M passed)
    (hfaithful : KnownIn (Faithful M) current)
    (hleftOut : ∀ name, guard.leftOut? = some name → KnownIn (fun t => ∀ leaf ∈ t.leaves,
      leaf.IsOption → leaf.isOptionCalled name = true → M leaf → passed = true) current)
    (hv : KnownIn M current) :
    (passed = true → KnownIn M (Ty.narrow current guard).whenTrue) ∧
      (passed = false → KnownIn M (Ty.narrow current guard).whenFalse) := by
  have hstrip : ¬ M null → KnownIn M (current.map .stripNull) := fun hnull t ht => by
    obtain ⟨u, rfl, rfl⟩ := Option.map_eq_some_iff.1 ht
    exact hM.stripNull (hfaithful u rfl) (hv u rfl) hnull
  have hwithout : ∀ name, guard.leftOut? = some name → passed = false →
      KnownIn M (current.map (·.without name)) := by
    intro name hname hfails t ht
    obtain ⟨u, rfl, rfl⟩ := Option.map_eq_some_iff.1 ht
    refine hM.without (hfaithful u rfl) (hv u rfl) fun leaf hleaf hoption hcalled hin => ?_
    cases hfails.symm.trans (hleftOut name hname u rfl leaf hleaf hoption hcalled hin)
  have hfails : passed = false → passed ≠ true := by rintro rfl; simp
  cases guard with
  | isNull => exact ⟨fun h => .some (hguard.1 h), fun h => hstrip fun hn => hfails h (hguard.2 hn)⟩
  | looseNull | empty =>
    exact ⟨fun _ => .none, fun h => hstrip fun hn => hfails h (hguard hn)⟩
  | instanceOf className =>
    exact ⟨fun h => .some (hM.named (key_dropSeparator _).symm (hguard.1 h)), hwithout _ rfl⟩
  | primitive kind =>
    cases kind with
    | null =>
      exact ⟨fun h => .some (hguard.1 h), fun h => hstrip fun hn => hfails h (hguard.2 hn)⟩
    | _ => exact ⟨fun h => .some (hguard.1 h), hwithout _ rfl⟩
  | truthy => exact ⟨fun h => hstrip (hguard h), fun _ => .none⟩
  | isSet =>
    exact ⟨fun h => hstrip (hguard.1 h), fun h => .some (by_contra fun hn => hfails h (hguard.2 hn))⟩

end IsMembership

end Ty

variable {kind : Primitive}

/-- Values at run time, as far as types and conditions can tell them apart. -/
inductive Value where
  | null
  | bool (b : Bool)
  | int (n : Int64)
  /-- A floating-point number, and whether it is zero. -/
  | float (isZero : Bool)
  | string (s : String)
  /-- An array, and whether it is empty. -/
  | array (isEmpty : Bool)
  /-- An object, by the key of its class. -/
  | object (cls : String)
  deriving DecidableEq, Repr

namespace Value

/-- Whether the value counts as true. -/
def truthy : Value → Bool
  | null => false
  | bool b => b
  | int n => n != 0
  | float isZero => !isZero
  | string s => s != "" && s != "0"
  | array isEmpty => !isEmpty
  | object _ => true

/-- Whether the value equals null by loose comparison; a string is compared with the empty one. -/
def looseNull : Value → Bool
  | string s => s == ""
  | v => !v.truthy

end Value

/-- The classes there are, by their keys, and what can be called. -/
structure World where
  /-- Whether a class is another one or a descendant of it. -/
  isA : String → String → Bool
  isA_refl : ∀ cls, isA cls cls = true
  isA_trans : ∀ a b c, isA a b = true → isA b c = true → isA a c = true
  callable : Value → Bool

/-- A world in which every class is only what it is. -/
def World.discrete : World where
  isA a b := a == b
  isA_refl := by simp
  isA_trans := by simp
  callable _ := false

/-- Whether the value is an instance of the class with the given key. -/
def Value.isInstance (w : World) (key : String) : Value → Bool
  | object cls => w.isA cls key
  | _ => false

/-- Whether the value has the built-in type. -/
def Primitive.holds (w : World) (v : Value) : Primitive → Bool
  | int => match v with | .int _ => true | _ => false
  | float => match v with | .float _ => true | _ => false
  | string => match v with | .string _ => true | _ => false
  | bool => match v with | .bool _ => true | _ => false
  | array => match v with | .array _ => true | _ => false
  | object => match v with | .object _ => true | _ => false
  | callable => w.callable v
  | closure => v.isInstance w "closure"
  | null => v == .null
  | void => false
  | mixed => true

namespace Ty

mutual
/-- Whether the value is one of the type. -/
def holds (w : World) (v : Value) : Ty → Bool
  | .named name => v.isInstance w (key name)
  | .primitive kind => kind.holds w v
  | .nullable inner => v == .null || inner.holds w v
  | .union members => anyHolds w v members
  | .inter members => allHold w v members
def anyHolds (w : World) (v : Value) : List Ty → Bool
  | [] => false
  | t :: ts => t.holds w v || anyHolds w v ts
def allHold (w : World) (v : Value) : List Ty → Bool
  | [] => true
  | t :: ts => t.holds w v && allHold w v ts
end

lemma holds_named :
    (named name).holds w v = v.isInstance w (key name) := by
  rw [holds]

lemma holds_primitive : (primitive kind).holds w v = kind.holds w v := by
  rw [holds]

lemma holds_union :
    (union members).holds w v = true ↔ ∃ t ∈ members, t.holds w v = true := by
  have hany : ∀ ts : List Ty, anyHolds w v ts = ts.any (·.holds w v) := by
    intro ts
    induction ts with
    | nil => rfl
    | cons t ts ih => rw [anyHolds, ih, any_cons]
  rw [holds, hany, any_eq_true]

lemma holds_inter :
    (inter members).holds w v = true ↔ ∀ t ∈ members, t.holds w v = true := by
  have hall : ∀ ts : List Ty, allHold w v ts = ts.all (·.holds w v) := by
    intro ts
    induction ts with
    | nil => rfl
    | cons t ts ih => rw [allHold, ih, all_cons]
  rw [holds, hall, all_eq_true]

lemma isMembership_holds : IsMembership fun t => t.holds w v = true where
  named hkey h := by
    rw [holds_named] at h ⊢
    exact hkey ▸ h
  mixed := rfl
  nullable h := by
    rw [holds, Bool.or_eq_true] at h
    exact h.symm
  union := holds_union
  inter := holds_inter

/-! ## Equality and unions -/

lemma Regular.holds_of_eqv (ha : a.Regular) (hb : b.Regular) (h : eqv a b = true)
    (hv : a.holds w v = true) : b.holds w v = true :=
  isMembership_holds.of_eqv ha.unrepeated hb.unrepeated h hv

lemma Regular.plainParts (h : t.Regular) : t.PlainParts := by
  cases t with
  | inter members => exact fun t ht => ((regular_inter.1 h).1 t ht).unrepeated
  | _ => trivial

lemma regular_join (ha : a.Regular) (hb : b.Regular) : (a.join b).Regular :=
  regular_unionOf (by simp [ha, hb])

lemma holds_join (ha : a.Regular) (hb : b.Regular)
    (h : a.holds w v = true ∨ b.holds w v = true) : (a.join b).holds w v = true := by
  have hfaithful : (union [a, b]).Faithful fun t => t.holds w v = true := by
    refine isMembership_holds.faithful fun leaf hleaf => ?_
    have hts : ∀ t ∈ [a, b], t.Regular := by simp [ha, hb]
    exact (regularParts.of_mem_leavesOfAll hts hleaf).plainParts
  rcases h with h | h
  · exact isMembership_holds.unionOf hfaithful (by simp) h
  · exact isMembership_holds.unionOf hfaithful (by simp) h

end Ty

/-! ## Tests -/

/-- Whether the test holds of a value. -/
def Guard.test (w : World) (v : Value) : Guard → Bool
  | isNull => v == .null
  | looseNull => v.looseNull
  | instanceOf className => v.isInstance w (key className)
  | primitive kind => kind.holds w v
  | truthy => v.truthy
  | isSet => v != .null
  | empty => !v.truthy

/-- The class that is tested for is not called like a built-in type. -/
def Guard.Proper : Guard → Prop
  | instanceOf className => ∀ kind : Primitive, key className ≠ key kind.keyword
  | _ => True

lemma Primitive.eq_of_key_keyword {k : Primitive}
    (h : key k.keyword = key kind.keyword) : k = kind := by
  revert h
  cases k <;> cases kind <;> decide

namespace Ty

variable {m : Ty}

lemma Regular.eq_primitive (hm : m.Regular)
    (h : m.isOptionCalled kind.keyword = true) : m = .primitive kind := by
  cases m with
  | named name => exact absurd (beq_iff_eq.1 h) (hm kind)
  | primitive k => rw [Primitive.eq_of_key_keyword (beq_iff_eq.1 h)]
  | _ => cases h

lemma eq_named_of_isOptionCalled {className : String}
    (hclass : ∀ kind : Primitive, key className ≠ key kind.keyword)
    (h : m.isOptionCalled className = true) :
    ∃ name, m = .named name ∧ key name = key className := by
  cases m with
  | named name => exact ⟨name, rfl, beq_iff_eq.1 h⟩
  | primitive kind => exact absurd (beq_iff_eq.1 h).symm (hclass kind)
  | _ => cases h

lemma holds_ofClass : (ofClass name).holds w v = v.isInstance w (key name) := by
  rw [ofClass, holds_named, key_dropSeparator]

lemma regular_ofClass
    (h : ∀ kind : Primitive, key name ≠ key kind.keyword) : (ofClass name).Regular := by
  rw [ofClass, Regular, key_dropSeparator]
  exact h

lemma regular_narrow (hguard : guard.Proper) (hcurrent : KnownIn Regular current) :
    KnownIn Regular (narrow current guard).whenTrue ∧
      KnownIn Regular (narrow current guard).whenFalse := by
  have hprimitive : ∀ kind, KnownIn Regular (some (.primitive kind)) := fun _ => .some trivial
  have hstrip : KnownIn Regular (current.map .stripNull) :=
    hcurrent.map fun _ => regularParts.stripNull
  have hwithout : ∀ name, KnownIn Regular (current.map (·.without name)) := fun name =>
    hcurrent.map fun _ h => regularParts.without h name
  cases guard with
  | isNull => exact ⟨hprimitive .null, hstrip⟩
  | looseNull => exact ⟨.none, hstrip⟩
  | instanceOf className => exact ⟨.some (regular_ofClass hguard), hwithout className⟩
  | primitive kind =>
    cases kind with
    | null => exact ⟨hprimitive .null, hstrip⟩
    | _ => exact ⟨hprimitive _, hwithout _⟩
  | truthy => exact ⟨hstrip, .none⟩
  | isSet => exact ⟨hstrip, hprimitive .null⟩
  | empty => exact ⟨.none, hstrip⟩

lemma decides_test : guard.Decides (fun t => t.holds w v = true) (guard.test w v) := by
  cases guard with
  | instanceOf className => rw [Guard.Decides, holds_named, Guard.test]
  | primitive kind => rw [Guard.Decides, holds_primitive, Guard.test]
  | _ => cases v <;> simp [Guard.Decides, Guard.test, holds, Primitive.holds, Value.truthy, Value.looseNull]

lemma holds_narrow (hguard : guard.Proper) (hcurrent : KnownIn Regular current)
    (hv : KnownIn (fun t => t.holds w v = true) current) :
    (guard.test w v = true → KnownIn (fun t => t.holds w v = true) (narrow current guard).whenTrue) ∧
      (guard.test w v = false →
        KnownIn (fun t => t.holds w v = true) (narrow current guard).whenFalse) := by
  have hleaf : ∀ t, current = some t → ∀ leaf ∈ t.leaves, leaf.Regular := fun t ht leaf =>
    regularParts.of_mem_leaves (hcurrent t ht)
  refine isMembership_holds.narrow decides_test
    (fun t ht => isMembership_holds.faithful fun leaf h => (hleaf t ht leaf h).plainParts)
    (fun name hname t ht leaf hmem _ hcalled hv => ?_) hv
  cases guard with
  | instanceOf className =>
    cases hname
    obtain ⟨_, rfl, hkey⟩ := eq_named_of_isOptionCalled hguard hcalled
    rw [holds_named, hkey] at hv
    exact hv
  | primitive kind =>
    obtain rfl : kind.keyword = name := by
      cases kind <;> cases hname <;> rfl
    rw [(hleaf t ht leaf hmem).eq_primitive hcalled, holds_primitive] at hv
    exact hv
  | _ => cases hname

end Ty

end FlowTyping

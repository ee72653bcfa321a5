import FlowTyping.Proofs.Ty.NormalForm
import Mathlib.Data.List.DropRight
import Mathlib.Data.List.Perm.Subperm

/-!
# Equality of types without repeated members

Equality of types compares the members of unions and intersections in one direction only: equally
many, and each of the first is found in the second.  Where members repeat this is not symmetric.
Where they do not, it is an equivalence.
-/

namespace FlowTyping

open List Name

variable {x y : String} {eq : Ty → Ty → Bool} {a b : Ty}

lemma Text.eq_of_toLower_eq {c d : Char} (hd : d < 'a' ∨ 'z' < d) (h : c.toLower = d) : c = d := by
  unfold Char.toLower at h
  split at h
  · next hupper =>
    subst h
    simp only [Char.lt_def, ge_iff_le, UInt32.le_iff_toNat_le, UInt32.lt_iff_toNat_lt] at hd hupper
    simp at hd hupper
    omega
  · exact h

lemma Text.toLower_toLower (c : Char) : c.toLower.toLower = c.toLower := by
  unfold Char.toLower
  split
  · next hupper =>
    simp only [ge_iff_le, UInt32.le_iff_toNat_le, UInt32.toNat_add] at hupper ⊢
    simp at hupper ⊢
    omega
  · rfl

namespace Name

lemma key_unqualified (name : String) : key (unqualified name) = key name := by
  simp [key, unqualified, dropWhile_idempotent]

lemma key_dropSeparator (name : String) : key (dropSeparator name) = key name := by
  unfold dropSeparator
  split
  · next rest h => simp [key, unqualified, h]
  · rfl

lemma key_eq_of_foldCase_eq (h : foldCase x = foldCase y) : key x = key y := by
  have hslash : ((· == '\\') ∘ Char.toLower : Char → Bool) = (· == '\\') := by
    funext c
    rw [Bool.eq_iff_iff, Function.comp, beq_iff_eq, beq_iff_eq]
    exact ⟨Text.eq_of_toLower_eq (by decide), by rintro rfl; rfl⟩
  have hkey (name : String) :
      key name = String.ofList ((foldCase name).toList.dropWhile (· == '\\')) := by
    rw [key, foldCase, foldCase, unqualified, String.toList_ofList, String.toList_ofList,
      dropWhile_map, hslash]
  rw [hkey, hkey, h]

lemma key_foldCase (name : String) : key (foldCase name) = key name :=
  key_eq_of_foldCase_eq (by simp [foldCase, Function.comp_def, Text.toLower_toLower])

end Name

namespace Ty

variable {ts members xs ys : List Ty} {t : Ty} {n : Nat}

mutual
/-- Nothing is nullable, and no member repeats another. -/
def Unrepeated : Ty → Prop
  | .named _ => True
  | .primitive _ => True
  | .nullable _ => False
  | .union members => UnrepeatedAll members ∧ members.Pairwise fun a b => eqv a b = false
  | .inter members => UnrepeatedAll members ∧ members.Pairwise fun a b => eqv a b = false
def UnrepeatedAll : List Ty → Prop
  | [] => True
  | t :: ts => t.Unrepeated ∧ UnrepeatedAll ts
end

lemma unrepeatedAll_iff : UnrepeatedAll ts ↔ ∀ t ∈ ts, t.Unrepeated := by
  induction ts with
  | nil => simp [UnrepeatedAll]
  | cons t ts ih => rw [UnrepeatedAll, ih, forall_mem_cons]

lemma unrepeated_union : (union members).Unrepeated ↔
    (∀ t ∈ members, t.Unrepeated) ∧ members.Pairwise fun a b => eqv a b = false := by
  rw [Unrepeated, unrepeatedAll_iff]

lemma unrepeated_inter : (inter members).Unrepeated ↔
    (∀ t ∈ members, t.Unrepeated) ∧ members.Pairwise fun a b => eqv a b = false := by
  rw [Unrepeated, unrepeatedAll_iff]

mutual
/-- No class is called like a built-in type, and no member repeats another. -/
def Regular : Ty → Prop
  | .named name => ∀ kind : Primitive, key name ≠ key kind.keyword
  | .primitive _ => True
  | .nullable _ => False
  | .union members => RegularAll members ∧ members.Pairwise fun a b => eqv a b = false
  | .inter members => RegularAll members ∧ members.Pairwise fun a b => eqv a b = false
def RegularAll : List Ty → Prop
  | [] => True
  | t :: ts => t.Regular ∧ RegularAll ts
end

lemma regularAll_iff : RegularAll ts ↔ ∀ t ∈ ts, t.Regular := by
  induction ts with
  | nil => simp [RegularAll]
  | cons t ts ih => rw [RegularAll, ih, forall_mem_cons]

lemma regular_union : (union members).Regular ↔
    (∀ t ∈ members, t.Regular) ∧ members.Pairwise fun a b => eqv a b = false := by
  rw [Regular, regularAll_iff]

lemma regular_inter : (inter members).Regular ↔
    (∀ t ∈ members, t.Regular) ∧ members.Pairwise fun a b => eqv a b = false := by
  rw [Regular, regularAll_iff]

lemma regularParts : Parts Regular where
  primitive _ := trivial
  nullable _ h := nomatch h
  of_union _ h := (regular_union.1 h).1
  union _ hmembers hnormal := regular_union.2 ⟨hmembers, hnormal.2.2.2⟩

mutual
theorem Regular.unrepeated {t : Ty} (h : t.Regular) : t.Unrepeated := by
  match t with
  | .named _ | .primitive _ => trivial
  | .nullable _ => exact h
  | .union _ => exact ⟨unrepeatedAll_of_regularAll h.1, h.2⟩
  | .inter _ => exact ⟨unrepeatedAll_of_regularAll h.1, h.2⟩
theorem unrepeatedAll_of_regularAll {ts : List Ty} (h : RegularAll ts) : UnrepeatedAll ts := by
  match ts with
  | [] => trivial
  | _ :: _ => exact ⟨h.1.unrepeated, unrepeatedAll_of_regularAll h.2⟩
end

lemma regular_unionOf (hts : ∀ t ∈ ts, t.Regular) : (unionOf ts).Regular :=
  regularParts.unionOf hts

/-! ## Depth -/

lemma depth_lt_union (h : t ∈ members) : t.depth < (union members).depth := by
  exact Nat.lt_succ_of_le (depth_le_depthOfAll h)

lemma depth_lt_inter (h : t ∈ members) : t.depth < (inter members).depth := by
  exact Nat.lt_succ_of_le (depth_le_depthOfAll h)

lemma sameMembers_iff :
    sameMembers eq xs ys = true ↔
      xs.length = ys.length ∧ ∀ x ∈ xs, ∃ y ∈ ys, eq y x = true := by
  simp [sameMembers]

lemma sameMembers_congr {eq' : Ty → Ty → Bool} (h : ∀ x ∈ xs, ∀ y ∈ ys, eq y x = eq' y x) :
    sameMembers eq xs ys = sameMembers eq' xs ys := by
  rw [Bool.eq_iff_iff, sameMembers_iff, sameMembers_iff]
  refine and_congr_right fun _ => forall₂_congr fun x hx => exists_congr fun y => ?_
  exact and_congr_right fun hy => by rw [h x hx y hy]

lemma eqvUpTo_eq {m : Nat} (ha : a.Unrepeated) (hb : b.Unrepeated) (hn : max a.depth b.depth < n)
    (hm : max a.depth b.depth < m) : eqvUpTo n a b = eqvUpTo m a b := by
  induction n generalizing m a b with
  | zero => cases hn
  | succ n ih =>
    obtain ⟨m, rfl⟩ := Nat.exists_eq_succ_of_ne_zero (Nat.ne_zero_of_lt hm)
    -- Members lie below the root, so the smaller budgets are enough for them.
    have hmembers : ∀ xs ys : List Ty, (∀ x ∈ xs, x.Unrepeated) → (∀ y ∈ ys, y.Unrepeated) →
        max (depthOfAll xs) (depthOfAll ys) < n → max (depthOfAll xs) (depthOfAll ys) < m →
        sameMembers (eqvUpTo n) xs ys = sameMembers (eqvUpTo m) xs ys := by
      intro xs ys hxs hys hn hm
      refine sameMembers_congr fun x hx y hy => ?_
      have hx' := depth_le_depthOfAll hx
      have hy' := depth_le_depthOfAll hy
      exact ih (hys y hy) (hxs x hx) (by omega) (by omega)
    cases a with
    | nullable _ => cases ha
    | union xs =>
      cases b with
      | nullable _ => cases hb
      | union ys =>
        rw [depth, depth] at hn hm
        exact hmembers xs ys (unrepeated_union.1 ha).1 (unrepeated_union.1 hb).1 (by omega) (by omega)
      | _ => rfl
    | inter xs =>
      cases b with
      | nullable _ => cases hb
      | inter ys =>
        rw [depth, depth] at hn hm
        exact hmembers xs ys (unrepeated_inter.1 ha).1 (unrepeated_inter.1 hb).1 (by omega) (by omega)
      | _ => rfl
    | named _ => cases b <;> rfl
    | primitive _ => cases b <;> rfl

lemma sameMembers_eqv (hxs : ∀ x ∈ xs, x.Unrepeated) (hys : ∀ y ∈ ys, y.Unrepeated)
    (hn : max (depthOfAll xs) (depthOfAll ys) < n) :
    sameMembers (eqvUpTo n) xs ys = sameMembers eqv xs ys := by
  refine sameMembers_congr fun x hx y hy => ?_
  have hx' := depth_le_depthOfAll hx
  have hy' := depth_le_depthOfAll hy
  exact eqvUpTo_eq (hys y hy) (hxs x hx) (by omega) (Nat.lt_succ_self _)

lemma eqv_union (hxs : ∀ x ∈ xs, x.Unrepeated) (hys : ∀ y ∈ ys, y.Unrepeated) :
    eqv (.union xs) (.union ys) = sameMembers eqv xs ys := by
  refine sameMembers_eqv hxs hys ?_
  rw [depth, depth]
  omega

lemma eqv_inter (hxs : ∀ x ∈ xs, x.Unrepeated) (hys : ∀ y ∈ ys, y.Unrepeated) :
    eqv (.inter xs) (.inter ys) = sameMembers eqv xs ys := by
  refine sameMembers_eqv hxs hys ?_
  rw [depth, depth]
  omega

/-! ## Laws -/

lemma eqvUpTo_self (h : t.depth < n) : eqvUpTo n t t = true := by
  induction n generalizing t with
  | zero => cases h
  | succ n ih =>
    have hmembers : ∀ ts : List Ty, depthOfAll ts < n → sameMembers (eqvUpTo n) ts ts = true := by
      intro ts hts
      refine sameMembers_iff.2 ⟨rfl, fun t ht => ⟨t, ht, ih ?_⟩⟩
      exact (depth_le_depthOfAll ht).trans_lt hts
    cases t with
    | named name => exact beq_self_eq_true (key name)
    | primitive kind => exact beq_self_eq_true kind
    | nullable inner => exact ih (Nat.lt_of_succ_lt_succ h)
    | union members | inter members => exact hmembers members (Nat.lt_of_succ_lt_succ h)

lemma eqv_refl (t : Ty) : eqv t t = true :=
  eqvUpTo_self (Nat.lt_succ_of_le (Nat.le_max_left ..))

lemma exists_mem_distinct (h : t ∈ ts) : ∃ u ∈ distinct eqv ts, eqv u t = true := by
  have hadd : ∀ (options : List Ty) (t : Ty), ∃ u ∈ addOption eqv options t, eqv u t = true := by
    intro options t
    unfold addOption
    split
    · next hold =>
      obtain ⟨u, hu, heq⟩ := any_eq_true.1 hold
      exact ⟨u, hu, heq⟩
    · exact ⟨t, by simp, eqv_refl t⟩
  have hkeep : ∀ (ts : List Ty) {options : List Ty} {u : Ty}, u ∈ options →
      u ∈ ts.foldl (addOption eqv) options := by
    intro ts
    induction ts with
    | nil => exact id
    | cons t ts ih =>
      intro options u hu
      refine ih ?_
      unfold addOption
      split
      · exact hu
      · exact mem_append_left _ hu
  obtain ⟨before, behind, rfl⟩ := append_of_mem h
  rw [distinct, foldl_append, foldl_cons]
  obtain ⟨u, hu, heq⟩ := hadd (before.foldl (addOption eqv) []) t
  exact ⟨u, hkeep behind hu, heq⟩

/-- Where equally many things are matched and no two of them match one, everything is matched. -/
lemma exists_matched {α β : Type} {M : α → β → Prop} {xs : List α} {ys : List β}
    (hlen : xs.length = ys.length) (hmatch : ∀ x ∈ xs, ∃ y ∈ ys, M x y)
    (hone : xs.Pairwise fun a b => ∀ y ∈ ys, M a y → ¬ M b y) :
    ∀ y ∈ ys, ∃ x ∈ xs, M x y := by
  intro y hy
  have : Nonempty β := ⟨y⟩
  choose! f hf hM using hmatch
  have hnodup : (xs.map f).Nodup := by
    refine pairwise_map.2 (hone.imp_of_mem fun {a b} ha hb hab heq => ?_)
    exact hab (f a) (hf a ha) (hM a ha) (heq ▸ hM b hb)
  have hsub : xs.map f ⊆ ys := by
    intro y hy
    obtain ⟨x, hx, rfl⟩ := mem_map.1 hy
    exact hf x hx
  have hperm := (hnodup.subperm hsub).perm_of_length_le (by simp [hlen])
  obtain ⟨x, hx, rfl⟩ := mem_map.1 (hperm.mem_iff.2 hy)
  exact ⟨x, hx, hM x hx⟩

section SameMembers

variable {xs ys zs : List Ty}

lemma sameMembers_symm (hsymm : ∀ y ∈ ys, ∀ x ∈ xs, eq y x = true → eq x y = true)
    (htrans : ∀ x ∈ xs, ∀ y ∈ ys, ∀ x' ∈ xs, eq x y = true → eq y x' = true → eq x x' = true)
    (hpair : xs.Pairwise fun a b => eq a b = false) (h : sameMembers eq xs ys = true) :
    sameMembers eq ys xs = true := by
  obtain ⟨hlen, hmatch⟩ := sameMembers_iff.1 h
  have hone : xs.Pairwise fun a b => ∀ y ∈ ys, eq y a = true → ¬ eq y b = true := by
    refine List.Pairwise.imp_of_mem (fun {a b} ha hb hab y hy hya hyb => ?_) hpair
    have := htrans a ha y hy b hb (hsymm y hy a ha hya) hyb
    rw [hab] at this
    cases this
  refine sameMembers_iff.2 ⟨hlen.symm, fun y hy => ?_⟩
  obtain ⟨x, hx, hyx⟩ := exists_matched hlen hmatch hone y hy
  exact ⟨x, hx, hsymm y hy x hx hyx⟩

lemma sameMembers_trans
    (htrans : ∀ z ∈ zs, ∀ y ∈ ys, ∀ x ∈ xs, eq z y = true → eq y x = true → eq z x = true)
    (h : sameMembers eq xs ys = true) (h' : sameMembers eq ys zs = true) :
    sameMembers eq xs zs = true := by
  obtain ⟨hlen, hmatch⟩ := sameMembers_iff.1 h
  obtain ⟨hlen', hmatch'⟩ := sameMembers_iff.1 h'
  refine sameMembers_iff.2 ⟨hlen.trans hlen', fun x hx => ?_⟩
  obtain ⟨y, hy, hyx⟩ := hmatch x hx
  obtain ⟨z, hz, hzy⟩ := hmatch' y hy
  exact ⟨z, hz, htrans z hz y hy x hx hzy hyx⟩

end SameMembers

lemma eqv_named : eqv (.named x) (.named y) = true ↔ key x = key y := by
  show same x y = true ↔ _
  rw [same, beq_iff_eq]

lemma eqv_primitive {p q : Primitive} : eqv (.primitive p) (.primitive q) = true ↔ p = q := by
  show (p == q) = true ↔ _
  rw [beq_iff_eq]

lemma eqv_cases (ha : a.Unrepeated) (hb : b.Unrepeated) (h : eqv a b = true) :
    (∃ x y, a = .named x ∧ b = .named y ∧ key x = key y) ∨
    (∃ p, a = .primitive p ∧ b = .primitive p) ∨
    (∃ xs ys, a = .union xs ∧ b = .union ys ∧ sameMembers eqv xs ys = true) ∨
    ∃ xs ys, a = .inter xs ∧ b = .inter ys ∧ sameMembers eqv xs ys = true := by
  cases a with
  | nullable _ => cases ha
  | named x =>
    cases b with
    | named y => exact .inl ⟨x, y, rfl, rfl, eqv_named.1 h⟩
    | _ => cases h
  | primitive p =>
    cases b with
    | primitive q => exact .inr (.inl ⟨p, rfl, by rw [eqv_primitive.1 h]⟩)
    | _ => cases h
  | union xs =>
    cases b with
    | nullable _ => cases hb
    | union ys =>
      rw [eqv_union (unrepeated_union.1 ha).1 (unrepeated_union.1 hb).1] at h
      exact .inr (.inr (.inl ⟨xs, ys, rfl, rfl, h⟩))
    | _ => cases h
  | inter xs =>
    cases b with
    | inter ys =>
      rw [eqv_inter (unrepeated_inter.1 ha).1 (unrepeated_inter.1 hb).1] at h
      exact .inr (.inr (.inr ⟨xs, ys, rfl, rfl, h⟩))
    | _ => cases h

/-- No member repeats another, and the type has at most `d` levels. -/
def Shallow (d : Nat) (t : Ty) : Prop :=
  t.Unrepeated ∧ t.depth < d

lemma shallow_of_union {d : Nat} (h : (union members).Shallow (d + 1)) : ∀ t ∈ members, t.Shallow d :=
  fun t ht => ⟨(unrepeated_union.1 h.1).1 t ht,
    (depth_lt_union ht).trans_le (Nat.le_of_lt_succ h.2)⟩

lemma shallow_of_inter {d : Nat} (h : (inter members).Shallow (d + 1)) : ∀ t ∈ members, t.Shallow d :=
  fun t ht => ⟨(unrepeated_inter.1 h.1).1 t ht,
    (depth_lt_inter ht).trans_le (Nat.le_of_lt_succ h.2)⟩

/-- Both laws at once, by induction on the depth: symmetry of a union uses both for its members. -/
lemma eqv_laws (d : Nat) :
    (∀ {a b : Ty}, a.Shallow d → b.Shallow d → eqv a b = true → eqv b a = true) ∧
    ∀ {a b c : Ty}, a.Shallow d → b.Shallow d → c.Shallow d →
      eqv a b = true → eqv b c = true → eqv a c = true := by
  induction d with
  | zero => exact ⟨fun ha => absurd ha.2 (Nat.not_lt_zero _), fun ha => absurd ha.2 (Nat.not_lt_zero _)⟩
  | succ d ih =>
    obtain ⟨hsymm, htrans⟩ := ih
    have hmembers {xs ys : List Ty} (hxs : ∀ x ∈ xs, x.Shallow d) (hys : ∀ y ∈ ys, y.Shallow d) :=
      sameMembers_symm (fun y hy x hx => hsymm (hys y hy) (hxs x hx))
        fun x hx y hy x' hx' => htrans (hxs x hx) (hys y hy) (hxs x' hx')
    have hchain {xs ys zs : List Ty} (hxs : ∀ x ∈ xs, x.Shallow d) (hys : ∀ y ∈ ys, y.Shallow d)
        (hzs : ∀ z ∈ zs, z.Shallow d) : sameMembers eqv xs ys = true → sameMembers eqv ys zs = true →
          sameMembers eqv xs zs = true :=
      sameMembers_trans fun z hz y hy x hx => htrans (hzs z hz) (hys y hy) (hxs x hx)
    constructor
    · intro a b ha hb h
      rcases eqv_cases ha.1 hb.1 h with ⟨x, y, rfl, rfl, hkey⟩ | ⟨p, rfl, rfl⟩ |
        ⟨xs, ys, rfl, rfl, hsame⟩ | ⟨xs, ys, rfl, rfl, hsame⟩
      · exact eqv_named.2 hkey.symm
      · exact eqv_primitive.2 rfl
      · rw [eqv_union (unrepeated_union.1 hb.1).1 (unrepeated_union.1 ha.1).1]
        exact hmembers (shallow_of_union ha) (shallow_of_union hb) ha.1.2 hsame
      · rw [eqv_inter (unrepeated_inter.1 hb.1).1 (unrepeated_inter.1 ha.1).1]
        exact hmembers (shallow_of_inter ha) (shallow_of_inter hb) ha.1.2 hsame
    · intro a b c ha hb hc h h'
      rcases eqv_cases ha.1 hb.1 h with ⟨x, y, rfl, rfl, hkey⟩ | ⟨p, rfl, rfl⟩ |
        ⟨xs, ys, rfl, rfl, hsame⟩ | ⟨xs, ys, rfl, rfl, hsame⟩
      · cases c with
        | named z => exact eqv_named.2 (hkey.trans (eqv_named.1 h'))
        | _ => cases h'
      · exact h'
      · cases c with
        | nullable _ => cases hc.1
        | union zs =>
          rw [eqv_union (unrepeated_union.1 hb.1).1 (unrepeated_union.1 hc.1).1] at h'
          rw [eqv_union (unrepeated_union.1 ha.1).1 (unrepeated_union.1 hc.1).1]
          exact hchain (shallow_of_union ha) (shallow_of_union hb) (shallow_of_union hc) hsame h'
        | _ => cases h'
      · cases c with
        | inter zs =>
          rw [eqv_inter (unrepeated_inter.1 hb.1).1 (unrepeated_inter.1 hc.1).1] at h'
          rw [eqv_inter (unrepeated_inter.1 ha.1).1 (unrepeated_inter.1 hc.1).1]
          exact hchain (shallow_of_inter ha) (shallow_of_inter hb) (shallow_of_inter hc) hsame h'
        | _ => cases h'

namespace Unrepeated

variable {c : Ty}

lemma eqv_symm (ha : a.Unrepeated) (hb : b.Unrepeated) (h : eqv a b = true) : eqv b a = true :=
  (eqv_laws (max a.depth b.depth + 1)).1 ⟨ha, by omega⟩ ⟨hb, by omega⟩ h

lemma eqv_trans (ha : a.Unrepeated) (hb : b.Unrepeated) (hc : c.Unrepeated) (h : eqv a b = true)
    (h' : eqv b c = true) : eqv a c = true :=
  (eqv_laws (max a.depth (max b.depth c.depth) + 1)).2 ⟨ha, by omega⟩ ⟨hb, by omega⟩ ⟨hc, by omega⟩
    h h'

end Unrepeated

lemma Regular.eqv_symm (ha : a.Regular) (hb : b.Regular) (h : eqv a b = true) : eqv b a = true :=
  ha.unrepeated.eqv_symm hb.unrepeated h

end Ty

end FlowTyping

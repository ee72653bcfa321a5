import FlowTyping.Proofs.Ty.Equality

/-!
# Canonical types

A canonical type is in normal form at every level: nothing is nullable, every union is flat and
without repeated options, and no intersection repeats a member.  Such a type is determined by its
options, whatever order they stand in, and so the union of canonical types is a join up to equality.

**Coverage.**  `Covered xs ys`: each of `xs` equals one of `ys`.  Canonical types are equal just when
their options cover each other (`Canonical.covered_of_eqv`, `eqv_unionOf`).

**Sums.**  `SumsUp t ts`: the type `t` is the union of `ts`, up to equality.  A list in another order
has equal sums (`SumsUp.eqv_of_perm`).
-/

namespace FlowTyping.Ty

open List

variable {members ts options us xs ys : List Ty} {t a b c : Ty}

mutual
/-- In normal form at every level, with no member of an intersection repeated. -/
def Canonical : Ty → Prop
  | .named _ => True
  | .primitive _ => True
  | .nullable _ => False
  | .union members => CanonicalAll members ∧ (union members).Normal
  | .inter members => CanonicalAll members ∧ members.Pairwise fun a b => (a == b) = false
def CanonicalAll : List Ty → Prop
  | [] => True
  | t :: ts => t.Canonical ∧ CanonicalAll ts
end

mutual
instance decidableCanonical : (t : Ty) → Decidable t.Canonical
  | .named _ => isTrue trivial
  | .primitive _ => isTrue trivial
  | .nullable _ => isFalse id
  | .union members =>
    have := decidableCanonicalAll members
    inferInstanceAs (Decidable (CanonicalAll members ∧ (union members).Normal))
  | .inter members =>
    have := decidableCanonicalAll members
    inferInstanceAs (Decidable (CanonicalAll members ∧
      members.Pairwise fun a b => (a == b) = false))
instance decidableCanonicalAll : (ts : List Ty) → Decidable (CanonicalAll ts)
  | [] => isTrue trivial
  | t :: ts =>
    have := decidableCanonical t
    have := decidableCanonicalAll ts
    inferInstanceAs (Decidable (t.Canonical ∧ CanonicalAll ts))
end

lemma canonicalAll_iff : CanonicalAll ts ↔ ∀ t ∈ ts, t.Canonical := by
  induction ts with
  | nil => simp [CanonicalAll]
  | cons t ts ih => rw [CanonicalAll, ih, forall_mem_cons]

lemma canonical_union : (union members).Canonical ↔
    (∀ t ∈ members, t.Canonical) ∧ (union members).Normal := by
  rw [Canonical, canonicalAll_iff]

lemma Canonical.normal (h : t.Canonical) : t.Normal := by
  cases t with
  | nullable _ => cases h
  | union _ => exact h.2
  | _ => trivial

mutual
theorem Canonical.unrepeated {t : Ty} (h : t.Canonical) : t.Unrepeated := by
  match t with
  | .named _ | .primitive _ => trivial
  | .nullable _ => exact h
  | .union _ => exact ⟨unrepeatedAll_of_canonicalAll h.1, h.2.2.2.2⟩
  | .inter _ => exact ⟨unrepeatedAll_of_canonicalAll h.1, h.2⟩
theorem unrepeatedAll_of_canonicalAll {ts : List Ty} (h : CanonicalAll ts) : UnrepeatedAll ts := by
  match ts with
  | [] => trivial
  | _ :: _ => exact ⟨h.1.unrepeated, unrepeatedAll_of_canonicalAll h.2⟩
end

namespace Canonical

lemma eqv_symm (ha : a.Canonical) (hb : b.Canonical) (h : eqv a b = true) : eqv b a = true :=
  ha.unrepeated.eqv_symm hb.unrepeated h

lemma eqv_trans (ha : a.Canonical) (hb : b.Canonical) (hc : c.Canonical) (h : eqv a b = true)
    (h' : eqv b c = true) : eqv a c = true :=
  ha.unrepeated.eqv_trans hb.unrepeated hc.unrepeated h h'

end Canonical

/-! ## Options -/

lemma leavesOfAll_singleton (t : Ty) : leavesOfAll [t] = t.leaves := by
  simp [leavesOfAll]

lemma leavesOfAll_append (ts us : List Ty) :
    leavesOfAll (ts ++ us) = leavesOfAll ts ++ leavesOfAll us := by
  induction ts with
  | nil => rfl
  | cons t ts ih => simp [leavesOfAll, ih]

lemma IsOption.leaves_eq (h : t.IsOption) : t.leaves = [t] := by
  cases t with
  | nullable _ => cases h
  | union _ => cases h
  | _ => rfl

lemma leavesOfAll_of_isOption (h : ∀ t ∈ ts, t.IsOption) : leavesOfAll ts = ts := by
  induction ts with
  | nil => rfl
  | cons t ts ih =>
    rw [forall_mem_cons] at h
    rw [leavesOfAll, h.1.leaves_eq, ih h.2, singleton_append]

lemma Canonical.leaves_union (h : (union members).Canonical) :
    (union members).leaves = members := by
  rw [leaves, leavesOfAll_of_isOption h.2.2.2.1]

lemma canonicalParts : Parts Canonical where
  primitive _ := trivial
  nullable _ h := nomatch h
  of_union _ h := (canonical_union.1 h).1
  union _ hmembers hnormal := canonical_union.2 ⟨hmembers, hnormal⟩

lemma canonical_of_mem_leavesOfAll (hts : ∀ t ∈ ts, t.Canonical) {leaf : Ty}
    (h : leaf ∈ leavesOfAll ts) : leaf.Canonical :=
  canonicalParts.of_mem_leavesOfAll hts h

/-- Each of the first types equals one of the others. -/
def Covered (xs ys : List Ty) : Prop :=
  ∀ x ∈ xs, ∃ y ∈ ys, eqv x y = true

namespace Covered

variable {zs : List Ty}

lemma of_subset (h : ∀ x ∈ xs, x ∈ ys) : Covered xs ys :=
  fun x hx => ⟨x, h x hx, eqv_refl x⟩

lemma trans (hxs : ∀ x ∈ xs, x.Canonical) (hys : ∀ y ∈ ys, y.Canonical)
    (hzs : ∀ z ∈ zs, z.Canonical) (h : Covered xs ys) (h' : Covered ys zs) : Covered xs zs := by
  intro x hx
  obtain ⟨y, hy, hxy⟩ := h x hx
  obtain ⟨z, hz, hyz⟩ := h' y hy
  exact ⟨z, hz, (hxs x hx).eqv_trans (hys y hy) (hzs z hz) hxy hyz⟩

lemma append (h : Covered xs ys) (h' : Covered zs us) : Covered (xs ++ zs) (ys ++ us) := by
  intro x hx
  rcases mem_append.1 hx with hx | hx
  · obtain ⟨y, hy, hxy⟩ := h x hx
    exact ⟨y, mem_append_left _ hy, hxy⟩
  · obtain ⟨y, hy, hxy⟩ := h' x hx
    exact ⟨y, mem_append_right _ hy, hxy⟩

lemma length_le (hxs : ∀ x ∈ xs, x.Canonical) (hys : ∀ y ∈ ys, y.Canonical)
    (hpair : xs.Pairwise fun a b => eqv a b = false) (h : Covered xs ys) :
    xs.length ≤ ys.length := by
  choose! f hf heq using h
  have hnodup : (xs.map f).Nodup := by
    refine pairwise_map.2 (hpair.imp_of_mem fun {a b} ha hb hne hfab => ?_)
    have hbf : eqv (f a) b = true :=
      hfab ▸ (hxs b hb).eqv_symm (hys _ (hf b hb)) (heq b hb)
    have hab := (hxs a ha).eqv_trans (hys _ (hf a ha)) (hxs b hb) (heq a ha) hbf
    rw [hne] at hab
    cases hab
  have hsub : xs.map f ⊆ ys := by
    intro y hy
    obtain ⟨x, hx, rfl⟩ := mem_map.1 hy
    exact hf x hx
  simpa using (hnodup.subperm hsub).length_le

lemma distinct_left (xs : List Ty) : Covered (distinct eqv xs) xs :=
  of_subset fun _ => mem_of_mem_distinct

lemma distinct_right (hxs : ∀ x ∈ xs, x.Canonical) : Covered xs (distinct eqv xs) := by
  intro x hx
  obtain ⟨y, hy, hyx⟩ := exists_mem_distinct hx
  exact ⟨y, hy, (hxs y (mem_of_mem_distinct hy)).eqv_symm (hxs x hx) hyx⟩

end Covered

lemma Canonical.covered_of_eqv (ha : a.Canonical) (hb : b.Canonical) (h : eqv a b = true) :
    Covered a.leaves b.leaves := by
  have hself : ∀ {s t : Ty}, eqv s t = true → Covered [s] [t] := fun heq x hx =>
    ⟨_, .head _, mem_singleton.1 hx ▸ heq⟩
  rcases eqv_cases ha.unrepeated hb.unrepeated h with ⟨x, y, rfl, rfl, -⟩ | ⟨p, rfl, rfl⟩ |
    ⟨xs, ys, rfl, rfl, hsame⟩ | ⟨xs, ys, rfl, rfl, -⟩
  · exact hself h
  · exact hself h
  · rw [ha.leaves_union, hb.leaves_union]
    intro x hx
    obtain ⟨y, hy, hyx⟩ := (sameMembers_iff.1 hsame).2 x hx
    exact ⟨y, hy, ((canonical_union.1 hb).1 y hy).eqv_symm ((canonical_union.1 ha).1 x hx) hyx⟩
  · exact hself h

lemma eq_mixed_of_isMixed (h : t.isMixed = true) : t = mixed := by
  cases t with
  | primitive kind => cases kind <;> first | rfl | cases h
  | _ => cases h

lemma isMixed_iff_eqv (ht : t.Canonical) : t.isMixed = true ↔ eqv t mixed = true := by
  constructor
  · intro h
    rw [eq_mixed_of_isMixed h]
    exact eqv_refl _
  · intro h
    rcases eqv_cases ht.unrepeated (b := mixed) trivial h with ⟨x, y, -, heq, -⟩ | ⟨p, rfl, heq⟩ |
      ⟨xs, ys, -, heq, -⟩ | ⟨xs, ys, -, heq, -⟩
    · cases heq
    · cases heq
      rfl
    · cases heq
    · cases heq

/-! ## Unions -/

lemma Covered.any_isMixed (hxs : ∀ x ∈ xs, x.Canonical) (hys : ∀ y ∈ ys, y.Canonical)
    (h : Covered xs ys) (hmixed : xs.any isMixed = true) : ys.any isMixed = true := by
  obtain ⟨x, hx, hmixed⟩ := any_eq_true.1 hmixed
  obtain ⟨y, hy, hxy⟩ := h x hx
  refine any_eq_true.2 ⟨y, hy, (isMixed_iff_eqv (hys y hy)).2 ?_⟩
  exact (hys y hy).eqv_trans (hxs x hx) trivial ((hxs x hx).eqv_symm (hys y hy) hxy)
    ((isMixed_iff_eqv (hxs x hx)).1 hmixed)

lemma unionOf_of_any_isMixed (h : (leavesOfAll ts).any isMixed = true) : unionOf ts = mixed := by
  simp only [unionOf, unionWith, h, if_true]

lemma unionOf_of_not_any_isMixed (h : ¬ (leavesOfAll ts).any isMixed = true) :
    unionOf ts = ofOptions (distinct eqv (leavesOfAll ts)) := by
  simp only [unionOf, unionWith, h]
  rfl

lemma ofOptions_of_maxOptions_lt (h : maxOptions < options.length) :
    ofOptions options = mixed := by
  match options with
  | [] => rfl
  | [t] => exact absurd h (Nat.not_lt.2 (by decide : 1 ≤ maxOptions))
  | _ :: _ :: _ => exact if_pos h

lemma ofOptions_of_length_le {rest : List Ty} (h : (a :: b :: rest).length ≤ maxOptions) :
    ofOptions (a :: b :: rest) = .union (a :: b :: rest) :=
  if_neg (Nat.not_lt.2 h)

lemma unionOf_of_maxOptions_lt (h : maxOptions < (distinct eqv (leavesOfAll ts)).length) :
    unionOf ts = mixed := by
  by_cases hmixed : (leavesOfAll ts).any isMixed = true
  · exact unionOf_of_any_isMixed hmixed
  · rw [unionOf_of_not_any_isMixed hmixed, ofOptions_of_maxOptions_lt h]

lemma canonical_unionOf (hts : ∀ t ∈ ts, t.Canonical) : (unionOf ts).Canonical :=
  canonicalParts.unionOf hts

lemma eqv_ofOptions (hxs : ∀ x ∈ xs, x.Canonical) (hys : ∀ y ∈ ys, y.Canonical)
    (hpairx : xs.Pairwise fun a b => eqv a b = false)
    (hpairy : ys.Pairwise fun a b => eqv a b = false) (h : Covered xs ys) (h' : Covered ys xs) :
    eqv (ofOptions xs) (ofOptions ys) = true := by
  have hlen : xs.length = ys.length :=
    le_antisymm (h.length_le hxs hys hpairx) (h'.length_le hys hxs hpairy)
  match xs, ys with
  | [], [] => exact eqv_refl _
  | [x], [y] =>
    obtain ⟨y', hy', heq⟩ := h x (.head _)
    exact mem_singleton.1 hy' ▸ heq
  | a :: b :: xs, c :: d :: ys =>
    by_cases hle : (a :: b :: xs).length ≤ maxOptions
    · rw [ofOptions_of_length_le hle, ofOptions_of_length_le (hlen ▸ hle),
        eqv_union (fun x hx => (hxs x hx).unrepeated) fun y hy => (hys y hy).unrepeated]
      refine sameMembers_iff.2 ⟨hlen, fun x hx => ?_⟩
      obtain ⟨y, hy, hxy⟩ := h x hx
      exact ⟨y, hy, (hxs x hx).eqv_symm (hys y hy) hxy⟩
    · have hlt := Nat.lt_of_not_le hle
      rw [ofOptions_of_maxOptions_lt hlt, ofOptions_of_maxOptions_lt (hlen ▸ hlt)]
      exact eqv_refl _

lemma eqv_unionOf (hts : ∀ t ∈ ts, t.Canonical) (hus : ∀ u ∈ us, u.Canonical)
    (h : Covered (leavesOfAll ts) (leavesOfAll us))
    (h' : Covered (leavesOfAll us) (leavesOfAll ts)) :
    eqv (unionOf ts) (unionOf us) = true := by
  have hlts : ∀ t ∈ leavesOfAll ts, t.Canonical := fun _ => canonical_of_mem_leavesOfAll hts
  have hlus : ∀ u ∈ leavesOfAll us, u.Canonical := fun _ => canonical_of_mem_leavesOfAll hus
  by_cases hmixed : (leavesOfAll ts).any isMixed = true
  · rw [unionOf_of_any_isMixed hmixed, unionOf_of_any_isMixed (h.any_isMixed hlts hlus hmixed)]
    exact eqv_refl _
  · have hmixed' : ¬ (leavesOfAll us).any isMixed = true := fun hmixed' =>
      hmixed (h'.any_isMixed hlus hlts hmixed')
    have hdts : ∀ t ∈ distinct eqv (leavesOfAll ts), t.Canonical := fun t ht =>
      hlts t (mem_of_mem_distinct ht)
    have hdus : ∀ u ∈ distinct eqv (leavesOfAll us), u.Canonical := fun u hu =>
      hlus u (mem_of_mem_distinct hu)
    rw [unionOf_of_not_any_isMixed hmixed, unionOf_of_not_any_isMixed hmixed']
    refine eqv_ofOptions hdts hdus (pairwise_distinct _) (pairwise_distinct _) ?_ ?_
    · exact .trans hdts hlts hdus (.distinct_left _) (.trans hlts hlus hdus h (.distinct_right hlus))
    · exact .trans hdus hlus hdts (.distinct_left _) (.trans hlus hlts hdts h' (.distinct_right hlts))

lemma eqv_unionOf_of_perm (hts : ∀ t ∈ ts, t.Canonical) (hperm : ts.Perm us) :
    eqv (unionOf ts) (unionOf us) = true := by
  have hcover : ∀ {ts us : List Ty}, ts.Perm us → Covered (leavesOfAll ts) (leavesOfAll us) := by
    intro ts us hperm
    refine .of_subset fun leaf hleaf => ?_
    obtain ⟨t, ht, hleaf⟩ := mem_leavesOfAll.1 hleaf
    exact mem_leavesOfAll.2 ⟨t, hperm.subset ht, hleaf⟩
  exact eqv_unionOf hts (fun u hu => hts u (hperm.symm.subset hu)) (hcover hperm)
    (hcover hperm.symm)

lemma distinct_of_pairwise (h : ts.Pairwise fun a b => eqv a b = false) :
    distinct eqv ts = ts := by
  have hfold : ∀ (ts options : List Ty), (options ++ ts).Pairwise (fun a b => eqv a b = false) →
      ts.foldl (addOption eqv) options = options ++ ts := by
    intro ts
    induction ts with
    | nil => simp
    | cons t ts ih =>
      intro options h
      have hnew : ¬ options.any (eqv · t) = true := by
        intro hany
        obtain ⟨u, hu, heq⟩ := any_eq_true.1 hany
        have := (pairwise_append.1 h).2.2 u hu t (.head _)
        rw [heq] at this
        cases this
      rw [append_cons] at h
      rw [foldl_cons, addOption, if_neg hnew, ih _ h, append_assoc, singleton_append]
  exact hfold ts [] h

lemma unionOf_eq_ofOptions (hoption : ∀ t ∈ options, t.IsOption)
    (hpair : options.Pairwise fun a b => (a == b) = false) :
    unionOf options = ofOptions options := by
  have hmixed : ¬ options.any isMixed = true := by
    intro hmixed
    obtain ⟨t, hmem, hmixed⟩ := any_eq_true.1 hmixed
    have := hoption t hmem
    rw [eq_mixed_of_isMixed hmixed] at this
    exact this
  have hleaves := leavesOfAll_of_isOption hoption
  rw [unionOf_of_not_any_isMixed (by rwa [hleaves]), hleaves, distinct_of_pairwise hpair]

lemma Normal.unionOf_members (h : (union members).Normal) : unionOf members = .union members := by
  obtain ⟨htwo, hle, hoption, hpair⟩ := h
  rw [unionOf_eq_ofOptions hoption hpair]
  match members with
  | a :: b :: rest => exact ofOptions_of_length_le hle

lemma Normal.unionOf_singleton (ht : t.Normal) : unionOf [t] = t := by
  have hself : ∀ {u : Ty}, u.IsOption → unionOf [u] = u := fun hu =>
    unionOf_eq_ofOptions (forall_mem_singleton.2 hu) (pairwise_singleton ..)
  cases t with
  | nullable _ => cases ht
  | union members =>
    refine Eq.trans ?_ ht.unionOf_members
    unfold unionOf unionWith
    rw [leavesOfAll_singleton, leaves]
  | primitive kind => cases kind <;> rfl
  | _ => exact hself trivial

/-- Options that are neither none nor too many are the options of the type that they make. -/
lemma leaves_ofOptions (hoption : ∀ t ∈ options, t.IsOption) (hne : options ≠ [])
    (hle : options.length ≤ maxOptions) : (ofOptions options).leaves = options := by
  match options with
  | [t] => exact (hoption t (.head _)).leaves_eq
  | a :: b :: rest => rw [ofOptions_of_length_le hle, leaves, leavesOfAll_of_isOption hoption]

lemma distinct_ne_nil (h : ts ≠ []) : distinct eqv ts ≠ [] := by
  obtain ⟨t, ht⟩ := exists_mem_of_ne_nil _ h
  obtain ⟨u, hu, -⟩ := exists_mem_distinct ht
  exact ne_nil_of_mem hu

lemma isOption_of_mem_distinct (hmixed : ¬ (leavesOfAll ts).any isMixed = true)
    (h : t ∈ distinct eqv (leavesOfAll ts)) : t.IsOption := by
  simp only [any_eq_true, not_exists, not_and, Bool.not_eq_true] at hmixed
  exact isOption_of_mem_leavesOfAll (mem_of_mem_distinct h) (hmixed t (mem_of_mem_distinct h))

lemma covered_unionOf (hts : ∀ t ∈ leavesOfAll ts, t.Canonical) (hne : leavesOfAll ts ≠ [])
    (hmixed : ¬ (leavesOfAll ts).any isMixed = true)
    (hle : (distinct eqv (leavesOfAll ts)).length ≤ maxOptions) :
    Covered (unionOf ts).leaves (leavesOfAll ts) ∧ Covered (leavesOfAll ts) (unionOf ts).leaves := by
  rw [unionOf_of_not_any_isMixed hmixed, leaves_ofOptions
    (fun _ => isOption_of_mem_distinct hmixed) (distinct_ne_nil hne) hle]
  exact ⟨.distinct_left _, .distinct_right hts⟩

/-- A union may be taken in two steps.  Where the first is widened, so is the whole: more options
cannot make fewer. -/
lemma unionOf_unionOf (hts : ∀ t ∈ ts, t.Canonical) (hus : ∀ u ∈ us, u.Canonical)
    (hne : leavesOfAll ts ≠ []) : eqv (unionOf (unionOf ts :: us)) (unionOf (ts ++ us)) = true := by
  have hall : ∀ t ∈ ts ++ us, t.Canonical := fun t ht =>
    (mem_append.1 ht).elim (hts t) (hus t)
  have hsub : Covered (leavesOfAll ts) (leavesOfAll (ts ++ us)) :=
    .of_subset fun t ht => leavesOfAll_append ts us ▸ mem_append_left _ ht
  have hlts : ∀ t ∈ leavesOfAll ts, t.Canonical := fun _ => canonical_of_mem_leavesOfAll hts
  have hlall : ∀ t ∈ leavesOfAll (ts ++ us), t.Canonical := fun _ =>
    canonical_of_mem_leavesOfAll hall
  have hwide : unionOf ts = mixed → unionOf (ts ++ us) = mixed →
      eqv (unionOf (unionOf ts :: us)) (unionOf (ts ++ us)) = true := by
    intro h h'
    rw [h', h, unionOf_of_any_isMixed (by simp [leavesOfAll, leaves, isMixed])]
    exact eqv_refl _
  by_cases hmixed : (leavesOfAll ts).any isMixed = true
  · exact hwide (unionOf_of_any_isMixed hmixed)
      (unionOf_of_any_isMixed (hsub.any_isMixed hlts hlall hmixed))
  · by_cases hle : (distinct eqv (leavesOfAll ts)).length ≤ maxOptions
    · obtain ⟨hfrom, hto⟩ := covered_unionOf hlts hne hmixed hle
      refine eqv_unionOf (forall_mem_cons.2 ⟨canonical_unionOf hts, hus⟩) hall ?_ ?_
      · rw [leavesOfAll_append, leavesOfAll]
        exact hfrom.append (.of_subset fun _ => id)
      · rw [leavesOfAll_append, leavesOfAll]
        exact hto.append (.of_subset fun _ => id)
    · have hlt := Nat.lt_of_not_le hle
      refine hwide (unionOf_of_maxOptions_lt hlt) (unionOf_of_maxOptions_lt ?_)
      refine hlt.trans_le (Covered.length_le ?_ ?_ (pairwise_distinct _) ?_)
      · exact fun t ht => hlts t (mem_of_mem_distinct ht)
      · exact fun t ht => hlall t (mem_of_mem_distinct ht)
      · refine .trans (fun t ht => hlts t (mem_of_mem_distinct ht)) hlts
          (fun t ht => hlall t (mem_of_mem_distinct ht)) (.distinct_left _) ?_
        exact .trans hlts hlall (fun t ht => hlall t (mem_of_mem_distinct ht)) hsub
          (.distinct_right hlall)

lemma Normal.leaves_ne_nil (ht : t.Normal) : t.leaves ≠ [] := by
  cases t with
  | nullable _ => cases ht
  | union members =>
    rw [leaves, leavesOfAll_of_isOption ht.2.2.1]
    exact ne_nil_of_length_pos (Nat.lt_of_lt_of_le (by decide) ht.1)
  | _ => simp [leaves]

lemma distinct_append_self (ts : List Ty) : distinct eqv (ts ++ ts) = distinct eqv ts := by
  have hfold : ∀ (us options : List Ty), (∀ u ∈ us, ∃ o ∈ options, eqv o u = true) →
      us.foldl (addOption eqv) options = options := by
    intro us options h
    induction us with
    | nil => rfl
    | cons u us ih =>
      rw [forall_mem_cons] at h
      rw [foldl_cons, addOption, if_pos (any_eq_true.2 h.1), ih h.2]
  rw [distinct, foldl_append]
  exact hfold ts (distinct eqv ts) fun t => exists_mem_distinct

lemma Canonical.join_self (ht : t.Canonical) : join t t = t := by
  have hpair : leavesOfAll [t, t] = t.leaves ++ t.leaves := by simp [leavesOfAll]
  have hone : unionOf [t, t] = unionOf [t] := by
    rw [unionOf, unionOf, unionWith, unionWith, hpair, leavesOfAll_singleton, distinct_append_self,
      any_append, Bool.or_self]
  rw [join, hone, ht.normal.unionOf_singleton]

/-! ## Sums -/

/-- The type is the union of the list, up to equality. -/
structure SumsUp (t : Ty) (ts : List Ty) : Prop where
  canonical : t.Canonical
  parts : ∀ u ∈ ts, u.Canonical
  ne_nil : ts ≠ []
  eqv_unionOf : eqv t (unionOf ts) = true

namespace SumsUp

variable {r r' : Ty} {ts' : List Ty}

lemma singleton (ht : t.Canonical) : SumsUp t [t] where
  canonical := ht
  parts u hu := mem_singleton.1 hu ▸ ht
  ne_nil := by simp
  eqv_unionOf := by
    rw [ht.normal.unionOf_singleton]
    exact eqv_refl t

lemma leavesOfAll_ne_nil (h : SumsUp r ts) : leavesOfAll ts ≠ [] := by
  obtain ⟨t, ht⟩ := exists_mem_of_ne_nil ts h.ne_nil
  obtain ⟨leaf, hleaf⟩ := exists_mem_of_ne_nil _ (h.parts t ht).normal.leaves_ne_nil
  exact ne_nil_of_mem (mem_leavesOfAll.2 ⟨t, ht, hleaf⟩)

lemma join (h : SumsUp r ts) (ht : t.Canonical) : SumsUp (r.join t) (ts ++ [t]) := by
  have hsingle : ∀ u ∈ [t], u.Canonical := fun u hu => mem_singleton.1 hu ▸ ht
  have hpair : ∀ {a : Ty}, a.Canonical → ∀ u ∈ [a, t], u.Canonical := fun ha =>
    forall_mem_cons.2 ⟨ha, hsingle⟩
  have hsum := canonical_unionOf h.parts
  have hall : ∀ u ∈ ts ++ [t], u.Canonical := fun u hu =>
    (mem_append.1 hu).elim (h.parts u) (hsingle u)
  have hcover : ∀ {a b : Ty}, a.Canonical → b.Canonical → eqv a b = true →
      Covered (leavesOfAll [a, t]) (leavesOfAll [b, t]) := by
    intro a b ha hb heq
    exact (ha.covered_of_eqv hb heq).append (.of_subset fun _ => id)
  refine ⟨canonical_unionOf (hpair h.canonical), hall, by simp, ?_⟩
  have hstep : eqv (r.join t) (unionOf [unionOf ts, t]) = true :=
    Ty.eqv_unionOf (hpair h.canonical) (hpair hsum) (hcover h.canonical hsum h.eqv_unionOf)
      (hcover hsum h.canonical (h.canonical.eqv_symm hsum h.eqv_unionOf))
  exact (canonical_unionOf (hpair h.canonical)).eqv_trans (canonical_unionOf (hpair hsum))
    (canonical_unionOf hall) hstep (unionOf_unionOf h.parts hsingle h.leavesOfAll_ne_nil)

lemma add_of_eqv (h : SumsUp r ts) (ht : t.Canonical) (heq : eqv r t = true) :
    SumsUp r (ts ++ [t]) := by
  obtain ⟨hcanonical, hparts, hne, hsum⟩ := h.join ht
  refine ⟨h.canonical, hparts, hne, ?_⟩
  have hpair : ∀ u ∈ [r, t], u.Canonical := by simp [h.canonical, ht]
  have hback : Covered (leavesOfAll [r, t]) (leavesOfAll [r]) := by
    intro leaf hleaf
    rw [leavesOfAll_singleton]
    rw [leavesOfAll, leavesOfAll_singleton] at hleaf
    rcases mem_append.1 hleaf with hleaf | hleaf
    · exact ⟨leaf, hleaf, eqv_refl leaf⟩
    · exact ht.covered_of_eqv h.canonical (h.canonical.eqv_symm ht heq) leaf hleaf
  have hself : eqv (unionOf [r]) (r.join t) = true := by
    refine Ty.eqv_unionOf (by simp [h.canonical]) hpair (.of_subset fun leaf hleaf => ?_) hback
    exact mem_append_left _ (leavesOfAll_singleton r ▸ hleaf)
  rw [h.canonical.normal.unionOf_singleton] at hself
  exact h.canonical.eqv_trans hcanonical (canonical_unionOf hparts) hself hsum

lemma eqv_of_perm (h : SumsUp r ts) (h' : SumsUp r' ts') (hperm : ts.Perm ts') :
    eqv r r' = true := by
  have hts := canonical_unionOf h.parts
  have hts' := canonical_unionOf h'.parts
  have hr' := h'.canonical.eqv_symm hts' h'.eqv_unionOf
  exact h.canonical.eqv_trans hts h'.canonical h.eqv_unionOf
    (hts.eqv_trans hts' h'.canonical (eqv_unionOf_of_perm h.parts hperm) hr')

end SumsUp

lemma Normal.members_eq_leaves (h : t.Normal) : t.members = t.leaves := by
  cases t with
  | nullable _ => cases h
  | union options => rw [members, leaves, leavesOfAll_of_isOption h.2.2.1]
  | _ => rfl

lemma any_isMixed_iff : ts.any isMixed = true ↔ mixed ∈ ts := by
  rw [List.any_eq_true]
  constructor
  · rintro ⟨t, ht, hmixed⟩
    exact eq_mixed_of_isMixed hmixed ▸ ht
  · exact fun h => ⟨mixed, h, rfl⟩

lemma ofOptions_eq_mixed (h : ofOptions options = mixed) :
    options = [] ∨ options = [mixed] ∨ maxOptions < options.length := by
  match options with
  | [] => exact .inl rfl
  | [t] => exact .inr (.inl (congrArg (fun t => [t]) h))
  | a :: b :: rest =>
    refine .inr (.inr (Nat.lt_of_not_le fun hle => ?_))
    rw [ofOptions_of_length_le hle] at h
    cases h

/-- A union says nothing just when an option of it does, or there are none or too many of them. -/
lemma unionOf_eq_mixed_iff (hts : ∀ leaf ∈ leavesOfAll ts, leaf.Canonical) :
    unionOf ts = mixed ↔
      mixed ∈ leavesOfAll ts ∨ leavesOfAll ts = [] ∨
        ∃ us ⊆ leavesOfAll ts, (us.Pairwise fun a b => (a == b) = false) ∧
          maxOptions < us.length := by
  constructor
  · intro h
    by_cases hmixed : (leavesOfAll ts).any isMixed = true
    · exact .inl (any_isMixed_iff.1 hmixed)
    · rw [unionOf_of_not_any_isMixed hmixed] at h
      rcases ofOptions_eq_mixed h with hnil | hone | hmany
      · exact .inr (.inl (by_contra fun hne => distinct_ne_nil hne hnil))
      · have hkept : mixed ∈ distinct eqv (leavesOfAll ts) := hone ▸ List.mem_singleton_self mixed
        exact .inl (mem_of_mem_distinct hkept)
      · exact .inr (.inr ⟨_, fun _ => mem_of_mem_distinct, pairwise_distinct _, hmany⟩)
  · rintro (hmixed | hnil | ⟨us, hsub, hpair, hmany⟩)
    · exact unionOf_of_any_isMixed (any_isMixed_iff.2 hmixed)
    · rw [unionOf_of_not_any_isMixed (by simp [hnil]), hnil]
      rfl
    · have hus : ∀ u ∈ us, u.Canonical := fun u hu => hts u (hsub hu)
      have hkept : ∀ t ∈ distinct eqv (leavesOfAll ts), t.Canonical := fun t ht =>
        hts t (mem_of_mem_distinct ht)
      have hcovered : Covered us (distinct eqv (leavesOfAll ts)) :=
        .trans hus hts hkept (.of_subset hsub) (.distinct_right hts)
      exact unionOf_of_maxOptions_lt (hmany.trans_le (hcovered.length_le hus hkept hpair))

lemma covered_members_unionOf (hts : ∀ leaf ∈ leavesOfAll ts, leaf.Canonical)
    (h : unionOf ts ≠ mixed) :
    Covered (unionOf ts).members (leavesOfAll ts) ∧ Covered (leavesOfAll ts) (unionOf ts).members := by
  rw [(normal_unionOf ts).members_eq_leaves]
  rw [ne_eq, unionOf_eq_mixed_iff hts, not_or, not_or] at h
  obtain ⟨hmixed, hne, hfew⟩ := h
  refine covered_unionOf hts hne (any_isMixed_iff.not.2 hmixed) (Nat.le_of_not_lt fun hmany => hfew ?_)
  exact ⟨_, fun _ => mem_of_mem_distinct, pairwise_distinct _, hmany⟩

/-! ## Laws -/

lemma eqv_join_comm (ha : a.Canonical) (hb : b.Canonical) : eqv (join a b) (join b a) = true :=
  eqv_unionOf_of_perm (by simp [ha, hb]) (.swap b a [])

lemma eqv_join_assoc (ha : a.Canonical) (hb : b.Canonical) (hc : c.Canonical) :
    eqv (join (join a b) c) (join a (join b c)) = true := by
  have hjoin : ∀ {s t : Ty}, s.Canonical → t.Canonical → (join s t).Canonical := fun hs ht =>
    canonical_unionOf (by simp [hs, ht])
  -- The union of three types, taken in two steps.
  have hsteps : ∀ {s t u : Ty}, s.Canonical → t.Canonical → u.Canonical →
      eqv (join (join s t) u) (unionOf [s, t, u]) = true := by
    intro s t u hs ht hu
    have hsome : leavesOfAll [s, t] ≠ [] := by
      exact fun h => hs.normal.leaves_ne_nil (List.append_eq_nil_iff.1 h).1
    have hu' : ∀ t ∈ [u], t.Canonical := List.forall_mem_singleton.2 hu
    exact unionOf_unionOf (by simp [hs, ht]) hu' hsome
  have habc : (unionOf [a, b, c]).Canonical := canonical_unionOf (by simp [ha, hb, hc])
  have hbca : (unionOf [b, c, a]).Canonical := canonical_unionOf (by simp [ha, hb, hc])
  have hperm : eqv (unionOf [a, b, c]) (unionOf [b, c, a]) = true :=
    eqv_unionOf_of_perm (by simp [ha, hb, hc]) ((List.Perm.swap b a [c]).trans (.cons b (.swap c a [])))
  have hleft := hjoin (hjoin ha hb) hc
  have hright := hjoin ha (hjoin hb hc)
  have hturned := hjoin (hjoin hb hc) ha
  have hback : eqv (unionOf [b, c, a]) (join a (join b c)) = true :=
    hbca.eqv_trans hturned hright (hturned.eqv_symm hbca (hsteps hb hc ha))
      (eqv_join_comm (hjoin hb hc) ha)
  exact hleft.eqv_trans habc hright (hsteps ha hb hc) (habc.eqv_trans hbca hright hperm hback)

/-- Union is an idempotent, commutative and associative join of canonical types, the order of a whole
list does not matter, and a union either says nothing, for one of three reasons, or has the options
of its parts. -/
theorem join_laws :
    (∀ a : Ty, a.Canonical → join a a = a) ∧
    (∀ a b : Ty, a.Canonical → b.Canonical → (join a b == join b a) = true) ∧
    (∀ a b c : Ty, a.Canonical → b.Canonical → c.Canonical →
      (join (join a b) c == join a (join b c)) = true) ∧
    (∀ ts us : List Ty, (∀ t ∈ ts, t.Canonical) → ts.Perm us → (unionOf ts == unionOf us) = true) ∧
    ∀ ts : List Ty, (∀ leaf ∈ leavesOfAll ts, leaf.Canonical) →
      (unionOf ts = mixed ↔
        mixed ∈ leavesOfAll ts ∨ leavesOfAll ts = [] ∨
          ∃ us ⊆ leavesOfAll ts, (us.Pairwise fun a b => (a == b) = false) ∧ 64 < us.length) ∧
      (unionOf ts ≠ mixed →
        (∀ t ∈ (unionOf ts).members, ∃ leaf ∈ leavesOfAll ts, (t == leaf) = true) ∧
          ∀ leaf ∈ leavesOfAll ts, ∃ t ∈ (unionOf ts).members, (leaf == t) = true) :=
  ⟨fun _ => Canonical.join_self, fun _ _ => eqv_join_comm, fun _ _ _ => eqv_join_assoc,
    fun _ _ => eqv_unionOf_of_perm,
    fun _ hts => ⟨unionOf_eq_mixed_iff hts, covered_members_unionOf hts⟩⟩

/-- The laws at `A|null` and `B&C`. -/
theorem join_laws_nullable_inter :
    (union [named "A", null]).Canonical ∧ (inter [named "B", named "C"]).Canonical ∧
    join (union [named "A", null]) (union [named "A", null]) = union [named "A", null] ∧
    (join (union [named "A", null]) (inter [named "B", named "C"]) ==
      join (inter [named "B", named "C"]) (union [named "A", null])) = true ∧
    (∀ leaf ∈ [named "A", null, inter [named "B", named "C"]],
      ∃ t ∈ (unionOf [union [named "A", null], inter [named "B", named "C"]]).members,
        (leaf == t) = true) := by
  have ha : (union [named "A", null]).Canonical := by decide
  have hb : (inter [named "B", named "C"]).Canonical := by decide
  obtain ⟨hself, hcomm, -, -, hwide⟩ := join_laws
  refine ⟨ha, hb, hself _ ha, hcomm _ _ ha hb, ?_⟩
  have hleaves : ∀ leaf ∈ leavesOfAll [union [named "A", null], inter [named "B", named "C"]],
      leaf.Canonical := by decide
  refine ((hwide _ hleaves).2 fun h => ?_).2
  cases h

end FlowTyping.Ty

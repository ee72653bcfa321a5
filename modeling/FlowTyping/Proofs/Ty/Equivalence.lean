import FlowTyping.Proofs.Ty.Canonical

/-!
# Equality of canonical types

**Spelling.**  `Name.Alike` says when two texts spell one class name, letter by letter.
`Ty.Respelled a b` says that `b` is the tree `a` with its class names spelled differently.  A canonical
type stays canonical when it is respelled (`Respelled.canonical`), equal to itself (`Respelled.eqv`),
and equal to the same types as before (`Respelled.eqv_congr`).
-/

namespace FlowTyping

open List

lemma map_eq_map_iff_forall₂ {α β : Type} {f : α → β} {xs ys : List α} :
    xs.map f = ys.map f ↔ Forall₂ (fun x y => f x = f y) xs ys := by
  rw [← forall₂_eq_eq_eq, forall₂_map_left_iff, forall₂_map_right_iff]

namespace Name

/-- Two spellings of one name: separators in front aside, the same letters up to ASCII case. -/
def Alike (x y : String) : Prop :=
  Forall₂ (fun c d : Char => c.toLower = d.toLower) (x.toList.dropWhile (· == '\\'))
    (y.toList.dropWhile (· == '\\'))

lemma key_eq_iff_alike {x y : String} : key x = key y ↔ Alike x y := by
  rw [key, key, foldCase, foldCase, String.ofList_inj, unqualified, unqualified, String.toList_ofList,
    String.toList_ofList, map_eq_map_iff_forall₂]
  rfl

end Name

namespace Ty

/-! ## Members -/

lemma sameMembers_iff_covered {xs ys : List Ty} (hxs : ∀ x ∈ xs, x.Canonical)
    (hys : ∀ y ∈ ys, y.Canonical) (hpairx : xs.Pairwise fun a b => eqv a b = false)
    (hpairy : ys.Pairwise fun a b => eqv a b = false) :
    sameMembers eqv xs ys = true ↔ Covered xs ys ∧ Covered ys xs := by
  have hcovered : ∀ {us vs : List Ty}, (∀ u ∈ us, u.Canonical) → (∀ v ∈ vs, v.Canonical) →
      sameMembers eqv us vs = true → Covered us vs := by
    intro us vs hus hvs h u hu
    obtain ⟨v, hv, hvu⟩ := (sameMembers_iff.1 h).2 u hu
    exact ⟨v, hv, (hvs v hv).eqv_symm (hus u hu) hvu⟩
  constructor
  · intro h
    refine ⟨hcovered hxs hys h, hcovered hys hxs ?_⟩
    exact sameMembers_symm (fun y hy x hx => (hys y hy).eqv_symm (hxs x hx))
      (fun x hx y hy x' hx' => (hxs x hx).eqv_trans (hys y hy) (hxs x' hx')) hpairx h
  · rintro ⟨hto, hfrom⟩
    refine sameMembers_iff.2 ⟨?_, fun x hx => ?_⟩
    · exact le_antisymm (hto.length_le hxs hys hpairx) (hfrom.length_le hys hxs hpairy)
    · obtain ⟨y, hy, hxy⟩ := hto x hx
      exact ⟨y, hy, (hxs x hx).eqv_symm (hys y hy) hxy⟩

lemma canonical_inter {members : List Ty} : (inter members).Canonical ↔
    (∀ t ∈ members, t.Canonical) ∧ members.Pairwise fun a b => eqv a b = false := by
  rw [Canonical, canonicalAll_iff]
  rfl

lemma eqv_union_iff {xs ys : List Ty} (hxs : (union xs).Canonical) (hys : (union ys).Canonical) :
    eqv (union xs) (union ys) = true ↔ Covered xs ys ∧ Covered ys xs := by
  rw [eqv_union (unrepeated_union.1 hxs.unrepeated).1 (unrepeated_union.1 hys.unrepeated).1]
  exact sameMembers_iff_covered (canonical_union.1 hxs).1 (canonical_union.1 hys).1 hxs.2.2.2.2
    hys.2.2.2.2

lemma eqv_inter_iff {xs ys : List Ty} (hxs : (inter xs).Canonical) (hys : (inter ys).Canonical) :
    eqv (inter xs) (inter ys) = true ↔ Covered xs ys ∧ Covered ys xs := by
  rw [eqv_inter (unrepeated_inter.1 hxs.unrepeated).1 (unrepeated_inter.1 hys.unrepeated).1]
  obtain ⟨hmembersx, hpairx⟩ := canonical_inter.1 hxs
  obtain ⟨hmembersy, hpairy⟩ := canonical_inter.1 hys
  exact sameMembers_iff_covered hmembersx hmembersy hpairx hpairy

/-! ## Spelling -/

/-- The same tree with its class names spelled differently. -/
inductive Respelled : Ty → Ty → Prop
  | named {x y : String} (h : Name.Alike x y) : Respelled (.named x) (.named y)
  | primitive (kind : Primitive) : Respelled (.primitive kind) (.primitive kind)
  | nullable {s t : Ty} (h : Respelled s t) : Respelled (.nullable s) (.nullable t)
  | union {xs ys : List Ty} (h : Forall₂ Respelled xs ys) : Respelled (.union xs) (.union ys)
  | inter {xs ys : List Ty} (h : Forall₂ Respelled xs ys) : Respelled (.inter xs) (.inter ys)

section Pairs

variable {α β : Type} {R : α → β → Prop} {xs : List α} {ys : List β}

lemma exists_right_of_forall₂ (h : Forall₂ R xs ys) {x : α} (hx : x ∈ xs) :
    ∃ y ∈ ys, R x y := by
  obtain ⟨i, rfl⟩ := get_of_mem hx
  have hi : i.1 < ys.length := Nat.lt_of_lt_of_eq i.2 h.length_eq
  exact ⟨ys.get ⟨i, hi⟩, get_mem .., h.get i.2 hi⟩

lemma exists_left_of_forall₂ (h : Forall₂ R xs ys) {y : β} (hy : y ∈ ys) :
    ∃ x ∈ xs, R x y := by
  obtain ⟨i, rfl⟩ := get_of_mem hy
  have hi : i.1 < xs.length := Nat.lt_of_lt_of_eq i.2 h.length_eq.symm
  exact ⟨xs.get ⟨i, hi⟩, get_mem .., h.get hi i.2⟩

lemma pairwise_of_forall₂ {P : α → α → Prop} {Q : β → β → Prop} (h : Forall₂ R xs ys)
    (hxs : xs.Pairwise P) (hpq : ∀ x ∈ xs, ∀ x' ∈ xs, ∀ y y', R x y → R x' y' → P x x' → Q y y') :
    ys.Pairwise Q := by
  induction h with
  | nil => exact .nil
  | @cons x y xs ys hxy hrest ih =>
    rw [pairwise_cons] at hxs
    refine .cons (fun y' hy' => ?_) (ih hxs.2 fun u hu u' hu' => ?_)
    · obtain ⟨x', hx', hxy'⟩ := exists_left_of_forall₂ hrest hy'
      exact hpq x (.head _) x' (.tail _ hx') y y' hxy hxy' (hxs.1 x' hx')
    · exact hpq u (.tail _ hu) u' (.tail _ hu')

end Pairs

/-- A type equals each of its spellings, in both directions.  The induction is on the levels that
equality looks at. -/
lemma Respelled.eqvUpTo {n : Nat} {a b : Ty} (h : Respelled a b) (hn : a.depth < n) :
    eqvUpTo n a b = true ∧ eqvUpTo n b a = true := by
  induction n generalizing a b with
  | zero => cases hn
  | succ n ih =>
    have hmembers : ∀ {xs ys : List Ty}, Forall₂ Respelled xs ys → depthOfAll xs < n →
        sameMembers (Ty.eqvUpTo n) xs ys = true ∧ sameMembers (Ty.eqvUpTo n) ys xs = true := by
      intro xs ys hall hdepth
      have hbelow : ∀ x ∈ xs, x.depth < n := fun x hx =>
        (depth_le_depthOfAll hx).trans_lt hdepth
      refine ⟨sameMembers_iff.2 ⟨hall.length_eq, fun x hx => ?_⟩,
        sameMembers_iff.2 ⟨hall.length_eq.symm, fun y hy => ?_⟩⟩
      · obtain ⟨y, hy, hxy⟩ := exists_right_of_forall₂ hall hx
        exact ⟨y, hy, (ih hxy (hbelow x hx)).2⟩
      · obtain ⟨x, hx, hxy⟩ := exists_left_of_forall₂ hall hy
        exact ⟨x, hx, (ih hxy (hbelow x hx)).1⟩
    cases h with
    | named h =>
      have hkey := Name.key_eq_iff_alike.2 h
      exact ⟨beq_iff_eq.2 hkey, beq_iff_eq.2 hkey.symm⟩
    | primitive kind => exact ⟨beq_self_eq_true kind, beq_self_eq_true kind⟩
    | nullable h => exact ih h (Nat.lt_of_succ_lt_succ hn)
    | union h | inter h => exact hmembers h (Nat.lt_of_succ_lt_succ hn)

namespace Respelled

variable {a a' b b' : Ty}

lemma eqv (h : Respelled a b) : eqv a b = true :=
  (h.eqvUpTo (Nat.lt_succ_of_le (Nat.le_max_left ..))).1

lemma isOption (h : Respelled a b) (ha : a.IsOption) : b.IsOption := by
  cases h with
  | primitive _ => exact ha
  | nullable _ => exact ha
  | union _ => exact ha
  | _ => trivial

/-- A canonical type stays canonical under another spelling: members that are different stay so. -/
lemma canonical (h : Respelled a b) (ha : a.Canonical) : b.Canonical := by
  have hmembers : ∀ {xs ys : List Ty}, (∀ x ∈ xs, ∀ y, Respelled x y → y.Canonical) →
      Forall₂ Respelled xs ys → (∀ x ∈ xs, x.Canonical) →
      (xs.Pairwise fun a b => Ty.eqv a b = false) →
      (∀ y ∈ ys, y.Canonical) ∧ ys.Pairwise fun a b => Ty.eqv a b = false := by
    intro xs ys ih hall hxs hpair
    refine ⟨fun y hy => ?_, pairwise_of_forall₂ hall hpair ?_⟩
    · obtain ⟨x, hx, hxy⟩ := exists_left_of_forall₂ hall hy
      exact ih x hx y hxy
    · intro x hx x' hx' y y' hxy hxy' hne
      rw [← Bool.not_eq_true] at hne ⊢
      intro heq
      have hy := ih x hx y hxy
      have hy' := ih x' hx' y' hxy'
      have hleft := (hxs x hx).eqv_trans hy hy' hxy.eqv heq
      exact hne ((hxs x hx).eqv_trans hy' (hxs x' hx') hleft ((hxs x' hx').eqv_symm hy' hxy'.eqv))
  induction a using byMembers generalizing b with
  | named _ =>
    cases h
    trivial
  | primitive _ =>
    cases h
    trivial
  | nullable _ => cases ha
  | union xs ih =>
    cases h with | union h => ?_
    obtain ⟨hxs, htwo, hle, hoption, hpair⟩ := canonical_union.1 ha
    obtain ⟨hys, hpair⟩ := hmembers (fun x hx y hxy => ih x hx hxy (hxs x hx)) h hxs hpair
    refine canonical_union.2 ⟨hys, h.length_eq ▸ htwo, h.length_eq ▸ hle, fun y hy => ?_, hpair⟩
    obtain ⟨x, hx, hxy⟩ := exists_left_of_forall₂ h hy
    exact hxy.isOption (hoption x hx)
  | inter xs ih =>
    cases h with | inter h => ?_
    obtain ⟨hxs, hpair⟩ := canonical_inter.1 ha
    exact canonical_inter.2 (hmembers (fun x hx y hxy => ih x hx hxy (hxs x hx)) h hxs hpair)

lemma eqv_congr (ha : a.Canonical) (hb : b.Canonical) (h : Respelled a a') (h' : Respelled b b') :
    Ty.eqv a' b' = Ty.eqv a b := by
  have ha' := h.canonical ha
  have hb' := h'.canonical hb
  rw [Bool.eq_iff_iff]
  constructor
  · intro heq
    exact ha.eqv_trans hb' hb (ha.eqv_trans ha' hb' h.eqv heq) (hb.eqv_symm hb' h'.eqv)
  · intro heq
    exact ha'.eqv_trans hb hb' (ha'.eqv_trans ha hb (ha.eqv_symm ha' h.eqv) heq) h'.eqv

end Respelled

lemma exists_alike_of_eqv {a b : Ty} (ha : a.Canonical) (hb : b.Canonical) (h : eqv a b = true) :
    ∀ name ∈ a.names, ∃ other ∈ b.names, Name.Alike name other := by
  have hmembers : ∀ {xs ys : List Ty},
      (∀ x ∈ xs, ∀ y ∈ ys, eqv x y = true →
        ∀ name ∈ x.names, ∃ other ∈ y.names, Name.Alike name other) →
      Covered xs ys → ∀ name ∈ namesOfAll xs, ∃ other ∈ namesOfAll ys, Name.Alike name other := by
    intro xs ys ih hcovered name hname
    obtain ⟨x, hx, hname⟩ := mem_namesOfAll.1 hname
    obtain ⟨y, hy, hxy⟩ := hcovered x hx
    obtain ⟨other, hother, halike⟩ := ih x hx y hy hxy name hname
    exact ⟨other, mem_namesOfAll.2 ⟨y, hy, hother⟩, halike⟩
  induction a using byMembers generalizing b with
  | named x =>
    cases b with
    | named y =>
      intro name hname
      obtain rfl := mem_singleton.1 hname
      exact ⟨y, .head _, Name.key_eq_iff_alike.1 (eqv_named.1 h)⟩
    | _ => cases h
  | primitive _ => exact fun name hname => nomatch hname
  | nullable _ => cases ha
  | union xs ih =>
    cases b with
    | nullable _ => cases hb
    | union ys =>
      have hxs := (canonical_union.1 ha).1
      have hys := (canonical_union.1 hb).1
      exact hmembers (fun x hx y hy => ih x hx (hxs x hx) (hys y hy)) ((eqv_union_iff ha hb).1 h).1
    | _ => cases h
  | inter xs ih =>
    cases b with
    | inter ys =>
      have hxs := (canonical_inter.1 ha).1
      have hys := (canonical_inter.1 hb).1
      exact hmembers (fun x hx y hy => ih x hx (hxs x hx) (hys y hy)) ((eqv_inter_iff ha hb).1 h).1
    | _ => cases h

/-! ## Laws -/

/-- Equality of canonical types is an equivalence.  It takes unions and intersections as the sets of
their members, and class names up to their spelling, at every depth. -/
theorem eqv_equivalence :
    Equivalence (fun a b : {t : Ty // t.Canonical} => (a.1 == b.1) = true) ∧
    (∀ xs ys : List Ty, (union xs).Canonical → (union ys).Canonical →
      ((union xs == union ys) = true ↔
        (∀ x ∈ xs, ∃ y ∈ ys, (x == y) = true) ∧ ∀ y ∈ ys, ∃ x ∈ xs, (y == x) = true)) ∧
    (∀ xs ys : List Ty, (inter xs).Canonical → (inter ys).Canonical →
      ((inter xs == inter ys) = true ↔
        (∀ x ∈ xs, ∃ y ∈ ys, (x == y) = true) ∧ ∀ y ∈ ys, ∃ x ∈ xs, (y == x) = true)) ∧
    (∀ x y : String, (named x == named y) = true ↔ Name.Alike x y) ∧
    (∀ a b a' b' : Ty, a.Canonical → b.Canonical → Respelled a a' → Respelled b b' →
      a'.Canonical ∧ (a == a') = true ∧ (a' == b') = (a == b)) ∧
    ∀ a b : Ty, a.Canonical → b.Canonical → (a == b) = true →
      ∀ name ∈ a.names, ∃ other ∈ b.names, Name.Alike name other := by
  refine ⟨⟨fun a => eqv_refl a.1, fun {a b} => a.2.eqv_symm b.2,
    fun {a b c} => a.2.eqv_trans b.2 c.2⟩, fun xs ys => eqv_union_iff, fun xs ys => eqv_inter_iff,
    fun x y => eqv_named.trans Name.key_eq_iff_alike, ?_, fun a b => exists_alike_of_eqv⟩
  intro a b a' b' ha hb h h'
  exact ⟨h.canonical ha, h.eqv, h.eqv_congr ha hb h'⟩

/-- The equality of `A|(B&\C)` and `(c&b)|\a`, read in both directions. -/
theorem eqv_equivalence_nested :
    (union [named "A", inter [named "B", named "\\C"]]).Canonical ∧
    (union [inter [named "c", named "b"], named "\\a"]).Canonical ∧
    (union [named "A", inter [named "B", named "\\C"]] ==
      union [inter [named "c", named "b"], named "\\a"]) = true ∧
    (union [inter [named "c", named "b"], named "\\a"] ==
      union [named "A", inter [named "B", named "\\C"]]) = true := by
  have ha : (union [named "A", inter [named "B", named "\\C"]]).Canonical := by decide
  have hb : (union [inter [named "c", named "b"], named "\\a"]).Canonical := by decide
  obtain ⟨hequiv, hunion, -⟩ := eqv_equivalence
  have hab := (hunion _ _ ha hb).2 (by decide)
  exact ⟨ha, hb, hab, hequiv.symm (x := ⟨_, ha⟩) (y := ⟨_, hb⟩) hab⟩

end Ty

end FlowTyping

import FlowTyping.Proofs.Analysis.TypeLaws

/-!
# Normal form

A type in normal form is no nullable type, and a union in normal form is flat: it has at least two
and not too many options, none of them says everything, and no option repeats an earlier one.  Only
the root is looked at; below an intersection there may be anything.
-/

namespace FlowTyping.Ty

open List Option

variable {ts options : List Ty} {t leaf : Ty} {P : Ty → Prop}

/-- A type that can be an option of a union. -/
def IsOption : Ty → Prop
  | .nullable _ | .union _ | .primitive .mixed => False
  | _ => True

/-- No nullable type, and a flat union of distinct options where it is a union. -/
def Normal : Ty → Prop
  | .nullable _ => False
  | .union members =>
    2 ≤ members.length ∧ members.length ≤ maxOptions ∧ (∀ t ∈ members, t.IsOption) ∧
      members.Pairwise fun a b => (a == b) = false
  | _ => True

instance (t : Ty) : Decidable t.IsOption := by
  unfold IsOption
  split <;> infer_instance

instance (t : Ty) : Decidable t.Normal := by
  unfold Normal
  split <;> infer_instance

/-! ## Trees and their options -/

lemma depth_le_depthOfAll (h : t ∈ ts) : t.depth ≤ depthOfAll ts := by
  induction ts with
  | nil => cases h
  | cons u ts ih =>
    rcases mem_cons.1 h with rfl | h
    · exact Nat.le_max_left ..
    · exact le_trans (ih h) (Nat.le_max_right ..)

/-- Induction over type trees: what holds of all members of a tree holds of the tree. -/
lemma byMembers (named : ∀ name, P (.named name)) (primitive : ∀ kind, P (.primitive kind))
    (nullable : ∀ inner, P inner → P (.nullable inner))
    (union : ∀ members, (∀ t ∈ members, P t) → P (.union members))
    (inter : ∀ members, (∀ t ∈ members, P t) → P (.inter members)) (t : Ty) : P t := by
  have hdepth : ∀ d, ∀ t : Ty, t.depth < d → P t := by
    intro d
    induction d with
    | zero => exact fun t hd => absurd hd (Nat.not_lt_zero _)
    | succ d ih =>
      intro t hd
      have hbelow : ∀ {ts : List Ty}, depthOfAll ts < d → ∀ u ∈ ts, P u := fun h u hu =>
        ih u (Nat.lt_of_le_of_lt (depth_le_depthOfAll hu) h)
      cases t with
      | named name => exact named name
      | primitive kind => exact primitive kind
      | nullable inner => exact nullable inner (ih inner (Nat.lt_of_succ_lt_succ hd))
      | union members => exact union members (hbelow (Nat.lt_of_succ_lt_succ hd))
      | inter members => exact inter members (hbelow (Nat.lt_of_succ_lt_succ hd))
  exact hdepth (t.depth + 1) t (Nat.lt_succ_self _)

lemma mem_leavesOfAll : leaf ∈ leavesOfAll ts ↔ ∃ t ∈ ts, leaf ∈ t.leaves := by
  induction ts with
  | nil => simp [leavesOfAll]
  | cons t ts ih => simp [leavesOfAll, ih]

/-! ## The union builder -/

lemma isOption_of_mem_leaves (h : leaf ∈ t.leaves) (hmixed : leaf.isMixed = false) :
    leaf.IsOption := by
  induction t using byMembers with
  | named _ | inter _ _ =>
    rw [mem_singleton.1 h]
    trivial
  | primitive kind =>
    obtain rfl : leaf = .primitive kind := mem_singleton.1 h
    cases kind <;> trivial
  | nullable inner ih =>
    rcases mem_append.1 h with h | h
    · exact ih h
    · rw [mem_singleton.1 h]
      trivial
  | union members ih =>
    obtain ⟨t, ht, h⟩ := mem_leavesOfAll.1 h
    exact ih t ht h

lemma isOption_of_mem_leavesOfAll (h : leaf ∈ leavesOfAll ts) (hmixed : leaf.isMixed = false) :
    leaf.IsOption := by
  obtain ⟨t, -, h⟩ := mem_leavesOfAll.1 h
  exact isOption_of_mem_leaves h hmixed

section Distinct

variable {eq : Ty → Ty → Bool} {u : Ty}

lemma mem_of_mem_addOption (h : u ∈ addOption eq options t) : u ∈ options ∨ u = t := by
  unfold addOption at h
  split at h
  · exact .inl h
  · rcases mem_append.1 h with h | h
    · exact .inl h
    · exact .inr (mem_singleton.1 h)

lemma pairwise_addOption (h : options.Pairwise fun a b => eq a b = false) :
    (addOption eq options t).Pairwise fun a b => eq a b = false := by
  unfold addOption
  split
  · exact h
  · next hnew =>
    refine pairwise_append.2 ⟨h, pairwise_singleton .., fun a ha b hb => ?_⟩
    rw [mem_singleton.1 hb]
    simp only [List.any_eq_true, not_exists, not_and, Bool.not_eq_true] at hnew
    exact hnew a ha

lemma foldl_addOption (ts : List Ty) (h : options.Pairwise fun a b => eq a b = false) :
    (ts.foldl (addOption eq) options).Pairwise (fun a b => eq a b = false) ∧
      ∀ u ∈ ts.foldl (addOption eq) options, u ∈ options ∨ u ∈ ts := by
  induction ts generalizing options with
  | nil => exact ⟨h, fun u hu => .inl hu⟩
  | cons t ts ih =>
    obtain ⟨hpair, hmem⟩ := ih (pairwise_addOption (t := t) h)
    refine ⟨hpair, fun u hu => ?_⟩
    rcases hmem u hu with hu | hu
    · exact (mem_of_mem_addOption hu).imp_right fun h : u = t => h ▸ .head _
    · exact .inr (.tail _ hu)

lemma pairwise_distinct (ts : List Ty) :
    (distinct eq ts).Pairwise fun a b => eq a b = false :=
  (foldl_addOption ts List.Pairwise.nil).1

lemma mem_of_mem_distinct (h : u ∈ distinct eq ts) : u ∈ ts :=
  ((foldl_addOption ts List.Pairwise.nil).2 u h).resolve_left not_mem_nil

end Distinct

lemma IsOption.normal (h : t.IsOption) : t.Normal := by
  cases t <;> trivial

lemma normal_ofOptions (hoption : ∀ t ∈ options, t.IsOption)
    (hpair : options.Pairwise fun a b => (a == b) = false) : (ofOptions options).Normal := by
  match options with
  | [] => trivial
  | [t] => exact (hoption t (.head _)).normal
  | a :: b :: rest =>
    show Normal (if _ then mixed else .union _)
    split
    · trivial
    · next hle => exact ⟨by simp, Nat.le_of_not_lt hle, hoption, hpair⟩

lemma normal_unionOf (ts : List Ty) : (unionOf ts).Normal := by
  unfold unionOf unionWith
  dsimp only
  split
  · trivial
  · next hmixed =>
    simp only [List.any_eq_true, not_exists, not_and, Bool.not_eq_true] at hmixed
    refine normal_ofOptions (fun t ht => ?_) (pairwise_distinct _)
    have hleaf := mem_of_mem_distinct ht
    exact isOption_of_mem_leavesOfAll hleaf (hmixed t hleaf)

lemma unionOf_cases (ts : List Ty) :
    unionOf ts = mixed ∨ unionOf ts ∈ leavesOfAll ts ∨
      ∃ options, unionOf ts = .union options ∧ ∀ t ∈ options, t ∈ leavesOfAll ts := by
  unfold unionOf unionWith
  dsimp only
  split
  · exact .inl rfl
  · have hmem : ∀ t ∈ distinct eqv (leavesOfAll ts), t ∈ leavesOfAll ts := fun t =>
      mem_of_mem_distinct
    generalize distinct eqv (leavesOfAll ts) = options at hmem
    match options with
    | [] => exact .inl rfl
    | [t] => exact .inr (.inl (hmem t (.head _)))
    | a :: b :: rest =>
      by_cases hmany : (a :: b :: rest).length > maxOptions
      · exact .inl (if_pos hmany)
      · exact .inr (.inr ⟨_, if_neg hmany, hmem⟩)

/-- A property of types that is handed down to the options of a union, and that a union in normal form
has whose options have it. -/
structure Parts (P : Ty → Prop) : Prop where
  primitive : ∀ kind, P (.primitive kind)
  nullable : ∀ inner, P (.nullable inner) → P inner
  of_union : ∀ members, P (.union members) → ∀ t ∈ members, P t
  union : ∀ members, (∀ t ∈ members, P t) → (Ty.union members).Normal → P (.union members)

namespace Parts

variable (hP : Parts P)

include hP

lemma of_mem_leaves (ht : P t) (h : leaf ∈ t.leaves) : P leaf := by
  induction t using byMembers with
  | named _ | primitive _ | inter _ _ => exact mem_singleton.1 h ▸ ht
  | nullable inner ih =>
    rcases mem_append.1 h with h | h
    · exact ih (hP.nullable inner ht) h
    · exact mem_singleton.1 h ▸ hP.primitive .null
  | union members ih =>
    obtain ⟨t, hmem, h⟩ := mem_leavesOfAll.1 h
    exact ih t hmem (hP.of_union members ht t hmem) h

lemma of_mem_leavesOfAll (hts : ∀ t ∈ ts, P t) (h : leaf ∈ leavesOfAll ts) : P leaf := by
  obtain ⟨t, ht, h⟩ := mem_leavesOfAll.1 h
  exact hP.of_mem_leaves (hts t ht) h

lemma unionOf (hts : ∀ t ∈ ts, P t) : P (Ty.unionOf ts) := by
  have hnormal := normal_unionOf ts
  rcases unionOf_cases ts with hmixed | hleaf | ⟨options, hunion, hmem⟩
  · exact hmixed ▸ hP.primitive .mixed
  · exact hP.of_mem_leavesOfAll hts hleaf
  · rw [hunion] at hnormal ⊢
    exact hP.union options (fun t ht => hP.of_mem_leavesOfAll hts (hmem t ht)) hnormal

lemma stripNull (ht : P t) : P t.stripNull := by
  fun_induction Ty.stripNull t with
  | case1 inner ih => exact ih (hP.nullable inner ht)
  | case2 => exact hP.primitive .null
  | case3 members =>
    exact hP.unionOf fun t hmem => hP.of_union members ht t (mem_of_mem_filter hmem)
  | case4 => exact ht

lemma normalize (ht : P t) : P t.normalize := by
  have hself : ∀ u ∈ [t], P u := fun u hu => mem_singleton.1 hu ▸ ht
  cases t with
  | union members => exact hP.unionOf hself
  | nullable inner => exact hP.unionOf hself
  | _ => exact ht

lemma without (ht : P t) (name : String) : P (t.without name) := by
  have hnormal := hP.normalize ht
  unfold Ty.without
  split
  · next members heq =>
    rw [heq] at hnormal
    dsimp only
    split
    · exact hnormal
    · exact hP.unionOf fun t hmem => hP.of_union members hnormal t (mem_of_mem_filter hmem)
  · exact hnormal

end Parts

/-! ## The other operations -/

lemma parts_normal : Parts Normal where
  primitive _ := trivial
  nullable _ h := h.elim
  of_union _ h t ht := (h.2.2.1 t ht).normal
  union _ _ h := h

lemma Normal.mapNames {f : String → Option Ty} (hf : ∀ name, KnownIn Normal (f name))
    (h : t.Normal) : (t.mapNames f).Normal := by
  cases t with
  | named name =>
    rw [Ty.mapNames]
    cases hname : f name with
    | none => trivial
    | some u => exact hf name u hname
  | nullable _ => cases h
  | union _ =>
    exact normal_unionOf _
  | primitive _ => trivial
  | inter _ => trivial

lemma normal_ofClass? (cls : Option String) : (ofClass? cls).Normal := by
  cases cls <;> trivial

lemma Normal.resolveRelative (h : t.Normal) (this parent : Option String) :
    (t.resolveRelative this parent).Normal := by
  unfold Ty.resolveRelative
  split
  · refine h.mapNames fun name => ?_
    split
    · exact .some (normal_ofClass? _)
    · split
      · exact .some (normal_ofClass? _)
      · exact .none
  · exact h

lemma Normal.rebindSelf (h : t.Normal) (receiver : String) :
    (t.rebindSelf receiver).Normal := by
  unfold Ty.rebindSelf
  split
  · refine h.mapNames fun name => ?_
    split
    · exact .some trivial
    · exact .none
  · exact h

/-! ## Declared types -/

/-- What a single word can declare: a built-in type, a class that is called like none, or the type of
all that can be walked through. -/
inductive IsWord : Ty → Prop
  | primitive (kind : Primitive) : IsWord (.primitive kind)
  | ofClass (name : String) (h : Primitive.ofName? name = none) : IsWord (ofClass name)
  | iterable : IsWord (join array (ofClass "Traversable"))

lemma isWord_ofKeyword (word : String) : IsWord (ofKeyword word) := by
  unfold ofKeyword
  split
  · exact .ofClass _ (by decide)
  · split
    all_goals first
      | with_reducible exact .primitive _
      | with_reducible exact .iterable
      | skip
    split
    · exact .primitive _
    · next hnone => exact .ofClass _ hnone

lemma isWord_ofWordChars (cs : List Char) : IsWord (ofWordChars cs) := by
  unfold ofWordChars
  dsimp only
  split
  · exact .primitive _
  · split
    · exact .primitive _
    · exact isWord_ofKeyword _

/-- A property that single words have, and that unions and intersections get from their members. -/
structure Lowered (P : Ty → Prop) : Prop where
  primitive : ∀ kind, P (.primitive kind)
  ofClass : ∀ name, Primitive.ofName? name = none → P (ofClass name)
  unionOf : ∀ ts, (∀ t ∈ ts, P t) → P (unionOf ts)
  inter : ∀ ts, (∀ t ∈ ts, P t) → P (.inter ts)

namespace Lowered

lemma join (hP : Lowered P) {a b : Ty} (ha : P a) (hb : P b) : P (a.join b) :=
  hP.unionOf _ (by simp [ha, hb])

lemma of_isWord (hP : Lowered P) (h : IsWord t) : P t := by
  cases h with
  | primitive kind => exact hP.primitive kind
  | ofClass name hnone => exact hP.ofClass name hnone
  | iterable => exact hP.join (hP.primitive .array) (hP.ofClass "Traversable" (by decide))

/-- The induction is on the budget of nested readings. -/
lemma of_parseUpTo (hP : Lowered P) {n : Nat} {cs : List Char} (h : parseUpTo n cs = some t) :
    P t := by
  induction n generalizing cs t with
  | zero => cases h
  | succ n ih =>
    have hall : ∀ {pieces : List (List Char)} {ts : List Ty}, pieces.mapM (parseUpTo n) = some ts →
        ∀ t ∈ ts, P t := by
      intro pieces ts hpieces t ht
      obtain ⟨piece, -, hpiece⟩ := exists_of_mapM_eq_some hpieces ht
      exact ih hpiece
    unfold parseUpTo at h
    split at h
    · cases h
    · obtain ⟨u, hu, rfl⟩ := map_eq_some_iff.1 h
      exact hP.join (ih hu) (hP.primitive .null)
    · split at h
      · obtain ⟨us, hus, rfl⟩ := map_eq_some_iff.1 h
        exact hP.unionOf us (hall hus)
      · split at h
        · exact ih h
        · split at h
          · obtain ⟨us, hus, rfl⟩ := map_eq_some_iff.1 h
            exact hP.inter us (hall hus)
          · cases h
            exact hP.of_isWord (isWord_ofWordChars _)

mutual
theorem ofHint (hP : Lowered P) (hint : Hint) : P (ofHint hint) := by
  match hint with
  | .named name => exact hP.of_isWord (isWord_ofWordChars name.toList)
  | .nullable inner => exact hP.join (hP.ofHint inner) (hP.primitive .null)
  | .union members => exact hP.unionOf _ (hP.ofHints members)
  | .inter members => exact hP.inter _ (hP.ofHints members)
theorem ofHints (hP : Lowered P) (hints : List Hint) : ∀ t ∈ ofHints hints, P t := by
  match hints with
  | [] => exact fun _ ht => nomatch ht
  | hint :: rest => exact forall_mem_cons.2 ⟨hP.ofHint hint, hP.ofHints rest⟩
end

end Lowered

lemma lowered_normal : Lowered Normal where
  primitive _ := trivial
  ofClass _ _ := trivial
  unionOf ts _ := normal_unionOf ts
  inter _ _ := trivial

lemma closed_normal : Closed Normal where
  primitive _ := trivial
  ofClass _ := trivial
  unionOf ts _ := normal_unionOf ts
  stripNull _ := parts_normal.stripNull
  without _ name h := parts_normal.without h name
  named _ _ _ _ := trivial
  dropSeparator _ _ := trivial
  closureClass := trivial
  resolveRelative _ this parent h := h.resolveRelative this parent
  rebindSelf _ receiver h := h.rebindSelf receiver
  ofHint := lowered_normal.ofHint
  parsed _ _ h := lowered_normal.of_parseUpTo h

end FlowTyping.Ty

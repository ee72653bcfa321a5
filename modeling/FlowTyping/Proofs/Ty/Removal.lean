import FlowTyping.Proofs.Ty.Equivalence
import FlowTyping.Proofs.Ty.Canonical

/-!
# Types less some of their options

Leaving options out of a type in normal form takes exactly these options away, and nothing else: the
rest keeps its order, and a type that would lose all of its options stays as it is.
-/

namespace FlowTyping.Ty

open List

/-- The type with the options of `t` that satisfy `keep`; all of `t` where none does. -/
def restrict (keep : Ty → Bool) (t : Ty) : Ty :=
  match t.members.filter keep with
  | [] => t
  | kept => ofOptions kept

/-- The option is called `name`: a class of that name or a built-in type with that keyword. -/
def CalledAs (name : String) : Ty → Prop
  | .named cls => Name.Alike cls name
  | .primitive kind => Name.Alike kind.keyword name
  | _ => False

open Classical in
/-- `r` is the type `t` less its options with `p`, or all of `t` where every option has `p`. -/
structure IsLess (p : Ty → Prop) (t r : Ty) : Prop where
  normal : r.Normal
  members : (∃ m ∈ t.members, ¬ p m) → r.members = t.members.filter fun m => ¬ p m
  unchanged : (∀ m ∈ t.members, p m) → r = t

lemma isOptionCalled_iff {name : String} {t : Ty} : t.isOptionCalled name = true ↔ t.CalledAs name := by
  cases t with
  | named _ | primitive _ => simp [isOptionCalled, optionName?, CalledAs, Name.same, Name.key_eq_iff_alike]
  | _ => simp [isOptionCalled, optionName?, CalledAs]

lemma isNull_iff {t : Ty} : t.isNull = true ↔ t = null := by
  cases t with
  | primitive kind => cases kind <;> simp [isNull]
  | _ => simp [isNull]

lemma containsNull_of_mem_members {t : Ty} (h : null ∈ t.members) : t.containsNull = true := by
  cases t with
  | union members =>
    rw [containsNull]
    induction members with
    | nil => cases h
    | cons m ms ih =>
      rw [anyContainsNull, Bool.or_eq_true]
      rcases mem_cons.1 h with rfl | h
      · exact .inl rfl
      · exact .inr (ih h)
  | _ => exact mem_singleton.1 h ▸ rfl

lemma eqv_null_eq_false {t : Ty} (ht : t.IsOption) (hne : t ≠ null) : eqv t null = false := by
  cases t with
  | primitive kind =>
    rw [Bool.eq_false_iff, ne_eq, eqv_primitive]
    exact fun h => hne (h ▸ rfl)
  | nullable _ | union _ => cases ht
  | _ => rfl

/-! ## Restriction -/

section Restrict

variable {keep : Ty → Bool} {t : Ty}

lemma restrict_of_filter_eq_nil (h : t.members.filter keep = []) : t.restrict keep = t := by
  rw [restrict, h]

lemma restrict_of_filter_ne_nil (h : t.members.filter keep ≠ []) :
    t.restrict keep = ofOptions (t.members.filter keep) := by
  unfold restrict
  split
  · next hnil => exact absurd hnil h
  · rfl

lemma restrict_of_members_eq (h : t.members = [t]) : t.restrict keep = t := by
  rw [restrict, h, filter_singleton]
  cases keep t <;> rfl

variable (ht : t.Normal)

include ht

lemma Normal.union_or_members_eq :
    (∃ members, t = .union members) ∨ (t.members = [t] ∧ t.stripNull = t ∧ t.normalize = t) := by
  cases t with
  | nullable _ => cases ht
  | union members => exact .inl ⟨members, rfl⟩
  | _ => exact .inr ⟨rfl, rfl, rfl⟩

lemma Normal.restrict_spec : (t.restrict keep).Normal ∧
    (t.members.filter keep ≠ [] → (t.restrict keep).members = t.members.filter keep) := by
  rcases ht.union_or_members_eq with ⟨members, rfl⟩ | ⟨hself, -⟩
  · by_cases hnil : members.filter keep = []
    · rw [restrict_of_filter_eq_nil hnil]
      exact ⟨ht, absurd hnil⟩
    obtain ⟨-, hle, hoption, hpair⟩ := ht
    have hoption' : ∀ m ∈ members.filter keep, m.IsOption := fun m hm =>
      hoption m (mem_of_mem_filter hm)
    have hnormal := normal_ofOptions hoption' (hpair.sublist filter_sublist)
    rw [restrict_of_filter_ne_nil hnil]
    exact ⟨hnormal, fun _ => hnormal.members_eq_leaves.trans
      (leaves_ofOptions hoption' hnil (filter_sublist.length_le.trans hle))⟩
  · rw [restrict_of_members_eq hself, hself]
    exact ⟨ht, fun hne => (filter_eq_self.2 (by simpa using hne)).symm⟩

lemma Normal.restrict_restrict : (t.restrict keep).restrict keep = t.restrict keep := by
  by_cases hnil : t.members.filter keep = []
  · rw [restrict_of_filter_eq_nil hnil, restrict_of_filter_eq_nil hnil]
  · have hkept : (t.restrict keep).members.filter keep = t.members.filter keep := by
      rw [ht.restrict_spec.2 hnil, filter_filter]
      simp
    rw [restrict_of_filter_ne_nil (hkept ▸ hnil), hkept, restrict_of_filter_ne_nil hnil]

lemma Normal.isLess_restrict {p : Ty → Prop} (hkeep : ∀ m, keep m = true ↔ ¬ p m) :
    IsLess p t (t.restrict keep) where
  normal := ht.restrict_spec.1
  members := by
    rintro ⟨m, hm, hp⟩
    rw [ht.restrict_spec.2 (ne_nil_of_mem (mem_filter.2 ⟨hm, (hkeep m).2 hp⟩))]
    exact filter_congr fun m _ => Bool.eq_iff_iff.2 (by simp [hkeep m])
  unchanged hall := by
    refine restrict_of_filter_eq_nil (filter_eq_nil_iff.2 fun m hm => ?_)
    rw [hkeep m, not_not]
    exact hall m hm

/-! ## Both operations -/

lemma Normal.stripNull_eq : t.stripNull = t.restrict fun m => !m.isNull := by
  rcases ht.union_or_members_eq with ⟨members, rfl⟩ | ⟨hself, hstrip, -⟩
  · obtain ⟨htwo, -, hoption, hpair⟩ := ht
    have hne : members.filter (fun m => !m.isNull) ≠ [] := by
      intro hnil
      obtain ⟨a, _ | ⟨b, rest⟩, rfl⟩ := exists_cons_of_length_pos (by omega : 0 < members.length)
      · exact absurd htwo (by simp)
      simp only [filter_eq_nil_iff, Bool.not_eq_true', Bool.not_eq_false, isNull_iff,
        forall_mem_cons] at hnil
      rw [hnil.1, hnil.2.1] at hpair
      exact absurd (rel_of_pairwise_cons hpair (.head _)) (by decide)
    rw [restrict_of_filter_ne_nil hne, stripNull]
    split
    · next hnil => exact absurd hnil hne
    · exact unionOf_eq_ofOptions (fun m hm => hoption m (mem_of_mem_filter hm))
        (hpair.sublist filter_sublist)
  · rw [hstrip, restrict_of_members_eq hself]

lemma Normal.without_eq (name : String) :
    t.without name = t.restrict fun m => !m.isOptionCalled name := by
  rcases ht.union_or_members_eq with ⟨members, rfl⟩ | ⟨hself, -, hnormalize⟩
  · rw [without, show (union members).normalize = .union members from ht.unionOf_singleton]
    dsimp only
    split
    · next hsame =>
      rcases Bool.or_eq_true_iff.1 hsame with hnil | hlength
      · exact (restrict_of_filter_eq_nil (List.isEmpty_iff.1 hnil)).symm
      · have hall := filter_eq_self.2 (length_filter_eq_length_iff.1 (beq_iff_eq.1 hlength))
        have hne : (union members).members ≠ [] := fun hnil => by
          have := ht.1
          simp_all [Ty.members]
        rw [restrict_of_filter_ne_nil (by rwa [Ty.members, hall]), Ty.members, hall,
          ← unionOf_eq_ofOptions ht.2.2.1 ht.2.2.2, ht.unionOf_members]
    · next hdiffer =>
      have hne : members.filter (fun m => !m.isOptionCalled name) ≠ [] := fun hnil => by
        simp [hnil] at hdiffer
      rw [restrict_of_filter_ne_nil hne]
      exact unionOf_eq_ofOptions (fun m hm => ht.2.2.1 m (mem_of_mem_filter hm))
        (ht.2.2.2.sublist filter_sublist)
  · rw [restrict_of_members_eq hself, without, hnormalize]
    split
    · cases hself
    · rfl

/-! ## Null -/

lemma Normal.unionOf_members_self : unionOf t.members = t := by
  rcases ht.union_or_members_eq with ⟨members, rfl⟩ | ⟨hself, -⟩
  · exact ht.unionOf_members
  · rw [hself, ht.unionOf_singleton]

lemma Normal.isOption_of_mem_members (hmixed : t.isMixed = false) : ∀ m ∈ t.members, m.IsOption := by
  cases t with
  | union _ => exact ht.2.2.1
  | primitive kind => cases kind <;> simp_all [members, isMixed, IsOption]
  | _ => simp_all [members, IsOption, Normal]

lemma Normal.pairwise_members : t.members.Pairwise fun a b => (a == b) = false := by
  cases t with
  | union _ => exact ht.2.2.2
  | _ => exact pairwise_singleton ..

lemma Normal.join_null (hmixed : t.isMixed = false) (hnull : null ∉ t.members)
    (hroom : t.members.length < maxOptions) : t.join null = .union (t.members ++ [null]) := by
  have hoption := ht.isOption_of_mem_members hmixed
  have hpair : (t.members ++ [null]).Pairwise fun a b => (a == b) = false := by
    refine pairwise_append.2 ⟨ht.pairwise_members, pairwise_singleton .., fun m hm u hu => ?_⟩
    rw [mem_singleton.1 hu]
    have hne : m ≠ null := fun h => hnull (h ▸ hm)
    exact eqv_null_eq_false (hoption m hm) hne
  have hne : t.members ≠ [] := by
    rw [ht.members_eq_leaves]
    exact ht.leaves_ne_nil
  have hnormal : (union (t.members ++ [null])).Normal := by
    refine ⟨?_, ?_, ?_, hpair⟩
    · have := length_pos_iff.2 hne
      simp only [length_append, length_singleton]
      omega
    · simpa using Nat.succ_le_of_lt hroom
    · exact forall_mem_append.2 ⟨hoption, forall_mem_singleton.2 trivial⟩
  rw [← hnormal.unionOf_members, join, unionOf, unionOf, unionWith, unionWith, leavesOfAll_append,
    leavesOfAll_of_isOption hoption]
  simp [leavesOfAll, ht.members_eq_leaves]

lemma Normal.stripNull_join_null (hmixed : t.isMixed = false) (hnull : t.containsNull = false)
    (hroom : t.members.length < maxOptions) : (t.join null).stripNull = t := by
  have hnull' : null ∉ t.members := fun hmem =>
    absurd hnull (by simp [containsNull_of_mem_members hmem])
  have hkept : (t.members ++ [null]).filter (fun m => !m.isNull) = t.members := by
    rw [filter_append, filter_eq_self.2, filter_singleton]
    · simp [isNull]
    · intro m hm
      rw [Bool.not_eq_true', Bool.eq_false_iff, ne_eq, isNull_iff]
      exact fun h => hnull' (h ▸ hm)
  rw [ht.join_null hmixed hnull' hroom, stripNull, hkept]
  split
  · next hnil => exact absurd (ht.members_eq_leaves ▸ hnil) ht.leaves_ne_nil
  · exact ht.unionOf_members_self

end Restrict

/-- Leaving null or the options of a name out of a type in normal form takes exactly these options away,
and once is enough.  Null can be added and left out again where the union has room for it. -/
theorem removal_exact {t : Ty} (ht : t.Normal) (name : String) :
    IsLess (· = null) t t.stripNull ∧ IsLess (CalledAs name) t (t.without name) ∧
    t.stripNull.stripNull = t.stripNull ∧ (t.without name).without name = t.without name ∧
    (t ≠ mixed → t.containsNull = false → t.members.length < 64 → (t.join null).stripNull = t) := by
  refine ⟨?_, ?_, ?_, ?_, fun hmixed hnull hroom => ?_⟩
  · rw [ht.stripNull_eq]
    exact ht.isLess_restrict fun m => by simp [← isNull_iff]
  · rw [ht.without_eq]
    exact ht.isLess_restrict fun m => by simp [← isOptionCalled_iff]
  · rw [ht.stripNull_eq, ht.restrict_spec.1.stripNull_eq, ht.restrict_restrict]
  · rw [ht.without_eq, ht.restrict_spec.1.without_eq, ht.restrict_restrict]
  · refine ht.stripNull_join_null (Bool.eq_false_iff.2 fun h => hmixed (eq_mixed_of_isMixed h)) hnull ?_
    exact hroom

/-- Two options that are both called `int`: leaving them out would leave nothing. -/
theorem removal_exact_twoInts :
    (union [named "\\Int", int]).Normal ∧
    (∀ m ∈ (union [named "\\Int", int]).members, m.CalledAs "INT") ∧
    (union [named "\\Int", int]).without "INT" = .union [.named "\\Int", int] ∧
    ((union [named "\\Int", int]).join null).stripNull = .union [.named "\\Int", int] := by
  have hnormal : (union [named "\\Int", int]).Normal := by decide
  have hcalled : ∀ m ∈ (union [named "\\Int", int]).members, m.CalledAs "INT" := by
    simp only [members, List.forall_mem_cons, ← isOptionCalled_iff]
    exact ⟨rfl, rfl, by simp⟩
  obtain ⟨-, hless, -, -, hback⟩ := removal_exact hnormal "INT"
  exact ⟨hnormal, hcalled, hless.unchanged hcalled, hback (by simp) rfl (by decide)⟩

end FlowTyping.Ty

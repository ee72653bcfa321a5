import FlowTyping.Proofs.Ty.Equality
import FlowTyping.Proofs.Ty.Equivalence
import FlowTyping.Proofs.Ty.Canonical

/-!
# Declared types are in normal form

Nothing in what a text or a hint declares is nullable, and every union in it is flat and repeats no
option, at any depth.  Intersections are taken as they are written: `A&A` has two equal members.  Where
no intersection is written like that, the type is regular and canonical.
-/

namespace FlowTyping

lemma Primitive.key_ne_of_ofName? {name : String} (h : Primitive.ofName? name = none)
    (kind : Primitive) : Name.key name ≠ Name.key kind.keyword := by
  intro hkey
  have hsame : Primitive.ofName? name = Primitive.ofName? kind.keyword := by
    unfold Primitive.ofName?
    rw [hkey]
  rw [hsame] at h
  cases kind <;> revert h <;> decide

namespace Ty

mutual
/-- No intersection in the tree has equal members. -/
def DistinctParts : Ty → Prop
  | .named _ | .primitive _ => True
  | .nullable inner => inner.DistinctParts
  | .union members => DistinctPartsAll members
  | .inter members => DistinctPartsAll members ∧ members.Pairwise fun a b => eqv a b = false
def DistinctPartsAll : List Ty → Prop
  | [] => True
  | t :: ts => t.DistinctParts ∧ DistinctPartsAll ts
end

mutual
/-- Regular, except that members of an intersection may repeat. -/
def Built : Ty → Prop
  | .named name => ∀ kind : Primitive, Name.key name ≠ Name.key kind.keyword
  | .primitive _ => True
  | .nullable _ => False
  | .union members => BuiltAll members ∧ members.Pairwise fun a b => eqv a b = false
  | .inter members => BuiltAll members
def BuiltAll : List Ty → Prop
  | [] => True
  | t :: ts => t.Built ∧ BuiltAll ts
end

lemma builtAll_iff {ts : List Ty} : BuiltAll ts ↔ ∀ t ∈ ts, t.Built := by
  induction ts with
  | nil => simp [BuiltAll]
  | cons t ts ih => rw [BuiltAll, ih, List.forall_mem_cons]

lemma builtParts : Parts Built where
  primitive _ := trivial
  nullable _ h := nomatch h
  of_union _ h := builtAll_iff.1 h.1
  union _ hmembers hnormal := ⟨builtAll_iff.2 hmembers, hnormal.2.2.2⟩

mutual
theorem Built.regular {t : Ty} (h : t.Built) (hdistinct : t.DistinctParts) : t.Regular := by
  match t with
  | .named _ => exact h
  | .primitive _ => trivial
  | .nullable _ => cases h
  | .union members => exact ⟨regularAll_of_builtAll h.1 hdistinct, h.2⟩
  | .inter members => exact ⟨regularAll_of_builtAll h hdistinct.1, hdistinct.2⟩
theorem regularAll_of_builtAll {ts : List Ty} (h : BuiltAll ts) (hdistinct : DistinctPartsAll ts) :
    RegularAll ts := by
  match ts with
  | [] => trivial
  | t :: ts => exact ⟨h.1.regular hdistinct.1, regularAll_of_builtAll h.2 hdistinct.2⟩
end

/-! ## Reading -/

lemma lowered_built : Lowered Built where
  primitive _ := trivial
  ofClass name hnone := by
    rw [Ty.ofClass, Built, Name.key_dropSeparator]
    exact Primitive.key_ne_of_ofName? hnone
  unionOf _ hts := builtParts.unionOf hts
  inter _ hts := builtAll_iff.2 hts

lemma regular_of_parse? {text : String} {t : Ty} (h : parse? text = some t)
    (hdistinct : t.DistinctParts) : t.Regular :=
  (lowered_built.of_parseUpTo h).regular hdistinct

end Ty

end FlowTyping

namespace FlowTyping.Ty

open List

variable {ts : List Ty} {P : Ty → Prop} {t : Ty}

mutual
/-- The tree and the trees in it. -/
def subtrees : Ty → List Ty
  | .named name => [.named name]
  | .primitive kind => [.primitive kind]
  | .nullable inner => .nullable inner :: inner.subtrees
  | .union members => .union members :: subtreesOfAll members
  | .inter members => .inter members :: subtreesOfAll members
def subtreesOfAll : List Ty → List Ty
  | [] => []
  | t :: ts => t.subtrees ++ subtreesOfAll ts
end

lemma forall_mem_subtreesOfAll :
    (∀ u ∈ subtreesOfAll ts, P u) ↔ ∀ t ∈ ts, ∀ u ∈ t.subtrees, P u := by
  induction ts with
  | nil => simp [subtreesOfAll]
  | cons t ts ih => rw [subtreesOfAll, forall_mem_append, ih, forall_mem_cons]

lemma distinctPartsAll_iff : DistinctPartsAll ts ↔ ∀ t ∈ ts, t.DistinctParts := by
  induction ts with
  | nil => simp [DistinctPartsAll]
  | cons t ts ih => rw [DistinctPartsAll, ih, forall_mem_cons]

/-- A type is canonical if every tree in it is in normal form and no intersection in it has equal
members. -/
lemma canonical_iff :
    t.Canonical ↔ (∀ u ∈ t.subtrees, u.Normal) ∧ t.DistinctParts := by
  have hmembers : ∀ {members : List Ty},
      (∀ t ∈ members, t.Canonical ↔ (∀ u ∈ t.subtrees, u.Normal) ∧ t.DistinctParts) →
      ((∀ t ∈ members, t.Canonical) ↔
        (∀ u ∈ subtreesOfAll members, u.Normal) ∧ DistinctPartsAll members) := by
    intro members ih
    rw [forall_mem_subtreesOfAll, distinctPartsAll_iff, ← forall₂_and]
    exact forall₂_congr ih
  induction t using byMembers with
  | named _ | primitive _ => simp [Canonical, subtrees, Normal, DistinctParts]
  | nullable _ => simp [Canonical, subtrees, Normal]
  | union members ih =>
    rw [canonical_union, hmembers ih, subtrees, forall_mem_cons, DistinctParts]
    tauto
  | inter members ih =>
    rw [canonical_inter, hmembers ih, subtrees, forall_mem_cons, DistinctParts]
    simp only [Normal, true_and, and_assoc]

/-! ## Reading -/

lemma subtreesParts : Parts fun t => ∀ u ∈ t.subtrees, u.Normal where
  primitive _ _ hu := mem_singleton.1 hu ▸ trivial
  nullable _ h := (forall_mem_cons.1 h).2
  of_union _ h := forall_mem_subtreesOfAll.1 (forall_mem_cons.1 h).2
  union _ hmembers hnormal := forall_mem_cons.2 ⟨hnormal, forall_mem_subtreesOfAll.2 hmembers⟩

lemma lowered_subtrees : Lowered fun t => ∀ u ∈ t.subtrees, u.Normal where
  primitive := subtreesParts.primitive
  ofClass _ _ _ hu := mem_singleton.1 hu ▸ trivial
  unionOf _ hts := subtreesParts.unionOf hts
  inter _ hts := forall_mem_cons.2 ⟨trivial, forall_mem_subtreesOfAll.2 hts⟩

/-- A type that a text or a hint declares. -/
def Declared (t : Ty) : Prop :=
  (∃ text, parse? text = some t) ∨ ∃ hint, ofHint hint = t

lemma Lowered.of_declared (hP : Lowered P) (h : t.Declared) : P t := by
  rcases h with ⟨text, h⟩ | ⟨hint, rfl⟩
  · exact hP.of_parseUpTo h
  · exact hP.ofHint hint

/-- A declared type is in normal form throughout, and canonical where no intersection in it has equal
members.  Among such types equality is symmetric, and the order of a union does not matter. -/
theorem declared_canonical_iff {a b : Ty} (ha : a.Declared) (hb : b.Declared) :
    (∀ u ∈ a.subtrees, u.Normal) ∧ (a.Canonical ↔ a.DistinctParts) ∧
    (a.DistinctParts → b.DistinctParts →
      ((a == b) = true ↔ (b == a) = true) ∧ (join a b == join b a) = true) := by
  have hcanonical : ∀ {t : Ty}, t.Declared → (t.Canonical ↔ t.DistinctParts) := fun h =>
    canonical_iff.trans (and_iff_right (lowered_subtrees.of_declared h))
  refine ⟨lowered_subtrees.of_declared ha, hcanonical ha, fun hdistincta hdistinctb => ?_⟩
  have ha := (hcanonical ha).2 hdistincta
  have hb := (hcanonical hb).2 hdistinctb
  exact ⟨⟨ha.eqv_symm hb, hb.eqv_symm ha⟩, eqv_join_comm ha hb⟩

/-- A text and a hint whose types are canonical. -/
theorem declared_canonical_iff_nullable :
    (union [inter [named "A", named "B"], null]).Canonical ∧
    (join (union [inter [named "A", named "B"], null]) (union [named "C", null]) ==
      join (union [named "C", null]) (union [inter [named "A", named "B"], null])) = true := by
  have ha : (union [inter [named "A", named "B"], null]).Declared := .inl ⟨"?(A&B)", rfl⟩
  have hb : (union [named "C", null]).Declared := .inr ⟨.nullable (.named "\\C"), rfl⟩
  have hdistinct : (union [inter [named "A", named "B"], null]).DistinctParts :=
    ⟨⟨⟨trivial, trivial, trivial⟩, by decide⟩, trivial, trivial⟩
  obtain ⟨-, hcanonical, hlaws⟩ := declared_canonical_iff ha hb
  exact ⟨hcanonical.2 hdistinct, (hlaws hdistinct ⟨trivial, trivial, trivial⟩).2⟩

/-- Two texts whose types are equal in one order only, and whose union depends on the order: `A&A` is
taken as it stands. -/
theorem declared_repeated_member :
    parse? "A&A" = some (inter [named "A", named "A"]) ∧
    parse? "A&B" = some (inter [named "A", named "B"]) ∧
    ¬ (inter [named "A", named "A"]).Canonical ∧
    (inter [named "A", named "A"] == inter [named "A", named "B"]) = true ∧
    (inter [named "A", named "B"] == inter [named "A", named "A"]) = false ∧
    (join (inter [named "A", named "A"]) (inter [named "A", named "B"]) ==
      join (inter [named "A", named "B"]) (inter [named "A", named "A"])) = false :=
  ⟨rfl, rfl, by decide, by decide, by decide, by decide⟩

end FlowTyping.Ty

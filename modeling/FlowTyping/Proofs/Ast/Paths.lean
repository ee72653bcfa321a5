import FlowTyping.Proofs.Ast.Children
import Mathlib.Data.List.Nodup
import Mathlib.Data.List.Pairwise
import Mathlib.Data.List.Perm.Subperm

/-!
# Paths of parts

An evaluation goes from a node to its parts, and from these to theirs.  How far it goes, and how often
it comes to a node, is read off the paths of parts.
-/

namespace FlowTyping

open List

namespace Arena

variable {arena : Arena} {id part root below : NodeId} {h h' : Nat} {α β : Type}

lemma get?_isSome_of_part (hpart : part ∈ arena.partsOf id) : (arena.get? id).isSome = true := by
  unfold partsOf at hpart
  cases hget : arena.get? id with
  | some _ => rfl
  | none =>
    rw [hget] at hpart
    cases hpart

lemma toNat_lt_size (hid : (arena.get? id).isSome = true) : id.toNat < arena.size := by
  obtain ⟨node, hnode⟩ := Option.isSome_iff_exists.1 hid
  unfold get? at hnode
  split at hnode
  · cases hnode
  · exact (Array.getElem?_eq_some_iff.1 hnode).1

/-- What is asked of the parts of every node is asked of the nodes in the arena. -/
instance decidablePartsOf {P : NodeId → NodeId → Prop} [∀ id part, Decidable (P id part)] :
    Decidable (∀ id, ∀ part ∈ arena.partsOf id, P id part) :=
  decidable_of_iff
    (((range arena.size).all fun i => (arena.partsOf (UInt32.ofNat i)).all fun part =>
      decide (P (UInt32.ofNat i) part)) = true) <| by
    simp only [all_eq_true, decide_eq_true_eq]
    refine ⟨fun h id part hpart => ?_, fun h i _ => h _⟩
    have hid := h id.toNat (mem_range.2 (toNat_lt_size (get?_isSome_of_part hpart)))
    rw [UInt32.ofNat_toNat] at hid
    exact hid part hpart

/-- The nodes at the ends of the paths of parts from a node, up to a number of nodes on a path. -/
def pathsBelow (arena : Arena) : Nat → NodeId → List NodeId
  | 0, _ => []
  | h + 1, id => id :: (arena.partsOf id).flatMap (pathsBelow arena h)

/-- The paths of parts from a node have at most `h` nodes. -/
def EndsWithin (arena : Arena) : (h : Nat) → NodeId → Prop
  | 0, _ => False
  | h + 1, id => ∀ part ∈ arena.partsOf id, EndsWithin arena h part

lemma EndsWithin.mono (hid : arena.EndsWithin h id) (hle : h ≤ h') :
    arena.EndsWithin h' id := by
  induction h generalizing h' id with
  | zero => cases hid
  | succ h ih =>
    obtain ⟨k, rfl⟩ : ∃ k, h' = k + 1 := ⟨h' - 1, by omega⟩
    exact fun part hpart => ih (hid part hpart) (by omega)

lemma endsWithin_of_get? (hid : arena.get? id = none) : arena.EndsWithin (h + 1) id := by
  intro part hpart
  have hsome := get?_isSome_of_part hpart
  rw [hid] at hsome
  cases hsome

/-! ## Parts that are not nested -/

/-- The parts of a node that may be turned to on the level of the node: those that a write to an
expression turns to, and all that a statement has. -/
def looseParts (arena : Arena) (id : NodeId) : List NodeId :=
  match arena.expr? id with
  | some e => e.looseParts
  | none => arena.partsOf id

/-- The parts of a node that its evaluation as an expression may write to or run. -/
def targetsOf (arena : Arena) (id : NodeId) : List NodeId :=
  match arena.expr? id with
  | some e => e.args ++ e.places
  | none => []

/-- Whether the paths of such parts from a node have at most `h` nodes. -/
def endsLoosely (arena : Arena) : (h : Nat) → NodeId → Bool
  | 0, _ => false
  | h + 1, id => (arena.looseParts id).all (endsLoosely arena h)

lemma endsLoosely_of_looseParts (hid : arena.endsLoosely (h + 1) id = true)
    (hpart : part ∈ arena.looseParts id) : arena.endsLoosely h part = true :=
  all_eq_true.1 hid part hpart

lemma looseParts_of_expr? {e : Expr} (he : arena.expr? id = some e) :
    arena.looseParts id = e.looseParts := by
  rw [looseParts, he]

lemma looseParts_of_stmt? {stmt : Stmt} (hstmt : arena.stmt? id = some stmt) :
    arena.looseParts id = stmt.allParts := by
  rw [looseParts, expr?_of_stmt? hstmt, partsOf_of_stmt? hstmt]

lemma mem_partsOf_of_looseParts (hpart : part ∈ arena.looseParts id) : part ∈ arena.partsOf id := by
  unfold looseParts at hpart
  split at hpart
  · next he =>
    rw [partsOf_of_expr? he]
    exact Expr.forall_looseParts (fun _ hc => hc) part hpart
  · exact hpart

lemma EndsWithin.endsLoosely (hid : arena.EndsWithin h id) : arena.endsLoosely h id = true := by
  induction h generalizing id with
  | zero => cases hid
  | succ h ih =>
    exact all_eq_true.2 fun part hpart => ih (hid part (mem_partsOf_of_looseParts hpart))

/-! ## Grounded arenas -/

/-- A part of a node is no node at all, or comes before it. -/
def Grounded (arena : Arena) : Prop :=
  ∀ id, ∀ part ∈ arena.partsOf id,
    part = NodeId.absent ∨ arena.size ≤ part.toNat ∨ part < id

instance : Decidable arena.Grounded :=
  decidablePartsOf

lemma get?_eq_none (hid : id = NodeId.absent ∨ arena.size ≤ id.toNat) : arena.get? id = none := by
  cases hget : arena.get? id with
  | none => rfl
  | some node =>
    exfalso
    have hsome : (arena.get? id).isSome = true := by
      rw [hget]
      rfl
    rcases hid with rfl | hid
    · cases hget
    · exact absurd (toNat_lt_size hsome) (by omega)

lemma Grounded.endsWithin_toNat (hground : arena.Grounded) (n : Nat) :
    ∀ id : NodeId, id.toNat < n → arena.EndsWithin (n + 1) id := by
  induction n with
  | zero => exact fun id hid => absurd hid (Nat.not_lt_zero _)
  | succ n ih =>
    intro id hid part hpart
    have hless : arena.get? part = none ∨ part < id := by
      rcases hground id part hpart with hnone | hnone | hlt
      · exact .inl (get?_eq_none (.inl hnone))
      · exact .inl (get?_eq_none (.inr hnone))
      · exact .inr hlt
    rcases hless with hnone | hlt
    · exact endsWithin_of_get? hnone
    · have hlt : part.toNat < id.toNat := hlt
      exact ih part (by omega)

lemma Grounded.endsWithin (hground : arena.Grounded) (id : NodeId) :
    arena.EndsWithin (arena.size + 1) id := by
  cases hget : arena.get? id with
  | none => exact endsWithin_of_get? hget
  | some node =>
    have hsome : (arena.get? id).isSome = true := by
      rw [hget]
      rfl
    exact hground.endsWithin_toNat arena.size id (toNat_lt_size hsome)

/-! ## Trees -/

lemma pathsBelow_succ_perm (h : Nat) (id : NodeId) :
    (arena.pathsBelow (h + 1) id).Perm (id :: (arena.pathsBelow h id).flatMap arena.partsOf) := by
  induction h generalizing id with
  | zero => simp [pathsBelow]
  | succ h ih =>
    have hparts : ((arena.partsOf id).flatMap (arena.pathsBelow (h + 1))).Perm
        ((arena.partsOf id).flatMap fun part =>
          part :: (arena.pathsBelow h part).flatMap arena.partsOf) :=
      .flatMap_left _ fun part _ => ih part
    have hsplit := map_append_flatMap_perm (arena.partsOf id) (fun part => part)
      fun part => (arena.pathsBelow h part).flatMap arena.partsOf
    rw [map_id'] at hsplit
    rw [pathsBelow, pathsBelow, flatMap_cons, flatMap_assoc]
    exact (hparts.trans hsplit.symm).cons id

/-- The nodes below `root` form a tree: each is a part of one other node at most, and once there. -/
@[mk_iff]
structure IsTree (arena : Arena) (root : NodeId) : Prop where
  once : ∀ id, ∀ part ∈ arena.partsOf id, (arena.get? part).isSome = true →
    (arena.partsOf id).count part ≤ 1
  parent : ∀ id, ∀ part ∈ arena.partsOf id, (arena.get? part).isSome = true →
    ∀ id', ∀ part' ∈ arena.partsOf id', part = part' → id = id'
  root : ∀ id, ∀ part ∈ arena.partsOf id, part ≠ root

instance : Decidable (arena.IsTree root) :=
  decidable_of_iff' _ (isTree_iff arena root)

lemma count_flatMap_le_one [DecidableEq α] [DecidableEq β] {f : α → List β} {b : β}
    (honce : ∀ a, (f a).count b ≤ 1) (hparent : ∀ a a', b ∈ f a → b ∈ f a' → a = a') {as : List α}
    (has : ∀ a, b ∈ f a → as.count a ≤ 1) : (as.flatMap f).count b ≤ 1 := by
  induction as with
  | nil => simp
  | cons a as ih =>
    rw [flatMap_cons, count_append]
    by_cases hb : b ∈ f a
    · -- No other element gives `b`, and `a` itself does not occur again.
      have hnot : a ∉ as := by
        have hcount := has a hb
        rw [count_cons_self] at hcount
        exact count_eq_zero.1 (by omega)
      have hrest : (as.flatMap f).count b = 0 := by
        refine count_eq_zero.2 fun hmem => ?_
        obtain ⟨a', ha', hb'⟩ := mem_flatMap.1 hmem
        exact hnot (hparent a a' hb hb' ▸ ha')
      have hfirst := honce a
      omega
    · have hzero := count_eq_zero.2 hb
      have hrest := ih fun a' ha' => Nat.le_trans (count_le_count_cons ..) (has a' ha')
      omega

namespace IsTree

variable (htree : arena.IsTree root)

include htree

lemma count_pathsBelow (h : Nat) (hid : (arena.get? id).isSome = true) :
    (arena.pathsBelow h root).count id ≤ 1 := by
  induction h generalizing id with
  | zero => simp [pathsBelow]
  | succ h ih =>
    rw [(pathsBelow_succ_perm h root).count_eq, count_cons]
    by_cases heq : root = id
    · subst heq
      have hnone : ((arena.pathsBelow h root).flatMap arena.partsOf).count root = 0 := by
        refine count_eq_zero.2 fun hmem => ?_
        obtain ⟨parent, -, hpart⟩ := mem_flatMap.1 hmem
        exact htree.root parent _ hpart rfl
      simp [hnone]
    · rw [if_neg (by simpa using heq)]
      refine count_flatMap_le_one (fun parent => ?_) (fun parent parent' hpart hpart' => ?_)
        fun parent hpart => ih (get?_isSome_of_part hpart)
      · by_cases hpart : id ∈ arena.partsOf parent
        · exact htree.once parent id hpart hid
        · rw [count_eq_zero.2 hpart]
          exact Nat.zero_le 1
      · exact htree.parent parent id hpart hid parent' id hpart' rfl

end IsTree

/-- Every node is at the end of one path from `root` at most. -/
def OnePath (arena : Arena) (root : NodeId) : Prop :=
  ∀ h id, (arena.get? id).isSome = true → (arena.pathsBelow h root).count id ≤ 1

lemma IsTree.onePath (htree : arena.IsTree root) : arena.OnePath root :=
  fun h _ hid => htree.count_pathsBelow h hid

lemma OnePath.length_pathsBelow (hroot : arena.OnePath root) (h : Nat) :
    ((arena.pathsBelow h root).filter fun id => (arena.get? id).isSome).length ≤ arena.size := by
  have hnodup : ((arena.pathsBelow h root).filter fun id => (arena.get? id).isSome).Nodup := by
    refine nodup_iff_count_le_one.2 fun id => ?_
    by_cases hid : (arena.get? id).isSome = true
    · exact Nat.le_trans (filter_sublist.count_le id) (hroot h id hid)
    · have hnot : id ∉ (arena.pathsBelow h root).filter fun id => (arena.get? id).isSome :=
        fun hmem => hid (mem_filter.1 hmem).2
      rw [count_eq_zero.2 hnot]
      exact Nat.zero_le 1
  have hnodup := hnodup.map (f := UInt32.toNat) fun _ _ => UInt32.toNat.inj
  have hsubset : ((arena.pathsBelow h root).filter fun id => (arena.get? id).isSome).map
      UInt32.toNat ⊆ range arena.size := by
    intro n hn
    obtain ⟨id, hid, rfl⟩ := mem_map.1 hn
    exact mem_range.2 (toNat_lt_size (mem_filter.1 hid).2)
  have hlength := (subperm_of_subset hnodup hsubset).length_le
  rwa [length_map, length_range] at hlength

lemma le_length_pathsBelow (hnot : ¬ arena.EndsWithin h id) :
    h ≤ ((arena.pathsBelow h id).filter fun id => (arena.get? id).isSome).length := by
  induction h generalizing id with
  | zero => exact Nat.zero_le _
  | succ h ih =>
    simp only [EndsWithin, not_forall] at hnot
    obtain ⟨part, hpart, hnot⟩ := hnot
    have hlength := ih hnot
    have hsublist : (arena.pathsBelow h part).Sublist
        ((arena.partsOf id).flatMap (arena.pathsBelow h)) := by
      obtain ⟨before, after, heq⟩ := append_of_mem hpart
      rw [heq, flatMap_append, flatMap_cons]
      exact (sublist_append_left ..).trans (sublist_append_right ..)
    rw [pathsBelow, filter_cons, if_pos (get?_isSome_of_part hpart), length_cons]
    have hle := (hsublist.filter fun id => (arena.get? id).isSome).length_le
    omega

lemma OnePath.endsWithin (hroot : arena.OnePath root) :
    arena.EndsWithin (arena.size + 1) root := by
  by_contra hnot
  have hle := le_length_pathsBelow hnot
  have hlength := hroot.length_pathsBelow (arena.size + 1)
  omega

/-! ## Parts with paths of their own -/

lemma count_flatMap_le [DecidableEq β] {f : α → List β} {as as' : List α} (h : as.Subperm as')
    (b : β) : (as.flatMap f).count b ≤ (as'.flatMap f).count b := by
  obtain ⟨l, hperm, hsublist⟩ := h
  rw [← (hperm.flatMap_right f).count_eq]
  clear hperm
  induction hsublist with
  | slnil => exact Nat.le_refl _
  | cons a _ ih =>
    rw [flatMap_cons, count_append]
    omega
  | cons_cons a _ ih =>
    rw [flatMap_cons, flatMap_cons, count_append, count_append]
    omega

lemma mem_pathsBelow_mono (hle : h ≤ h')
    (hbelow : below ∈ arena.pathsBelow h id) : below ∈ arena.pathsBelow h' id := by
  induction h generalizing h' id with
  | zero => cases hbelow
  | succ h ih =>
    obtain ⟨k, rfl⟩ : ∃ k, h' = k + 1 := ⟨h' - 1, by omega⟩
    rw [pathsBelow, mem_cons, mem_flatMap] at hbelow ⊢
    exact hbelow.imp_right fun ⟨part, hpart, hbelow⟩ => ⟨part, hpart, ih (by omega) hbelow⟩

lemma Reach.mem_pathsBelow (hreach : arena.Reach id below) :
    ∃ h, below ∈ arena.pathsBelow h id := by
  induction hreach with
  | refl id => exact ⟨1, mem_cons_self⟩
  | expr he hchild _ ih =>
    obtain ⟨h, hbelow⟩ := ih
    rw [← partsOf_of_expr? he] at hchild
    exact ⟨h + 1, .tail _ (mem_flatMap_of_mem hchild hbelow)⟩
  | stmt hs hchild _ ih =>
    obtain ⟨h, hbelow⟩ := ih
    rw [← partsOf_of_stmt? hs] at hchild
    exact ⟨h + 1, .tail _ (mem_flatMap_of_mem hchild hbelow)⟩

/-- No node is below both nodes. -/
def Disjoint (arena : Arena) (id id' : NodeId) : Prop :=
  ∀ below, (arena.get? below).isSome = true → arena.Reach id below → ¬ arena.Reach id' below

lemma Disjoint.symm {id' : NodeId} (hdisj : arena.Disjoint id id') : arena.Disjoint id' id :=
  fun below hbelow hreach' hreach => hdisj below hbelow hreach hreach'

namespace OnePath

variable (hroot : arena.OnePath root)

include hroot

lemma count_parts (h : Nat) (hid : (arena.get? id).isSome = true) :
    ((arena.partsOf root).flatMap (arena.pathsBelow h)).count id ≤ 1 :=
  Nat.le_trans (count_le_count_cons ..) (hroot (h + 1) id hid)

lemma of_part (hpart : part ∈ arena.partsOf root) : arena.OnePath part := by
  intro h id hid
  have hle := count_flatMap_le (f := arena.pathsBelow h)
    (singleton_sublist.2 hpart).subperm id
  rw [flatMap_singleton] at hle
  exact Nat.le_trans hle (hroot.count_parts h hid)

lemma not_reach_part (hpart : part ∈ arena.partsOf root) : ¬ arena.Reach part root := by
  intro hreach
  obtain ⟨h, hbelow⟩ := hreach.mem_pathsBelow
  have hcount := hroot (h + 1) root (get?_isSome_of_part hpart)
  have hone := one_le_count_iff.2 (mem_flatMap_of_mem hpart hbelow)
  rw [pathsBelow, count_cons_self] at hcount
  omega

lemma pairwise_disjoint : (arena.partsOf root).Pairwise arena.Disjoint := by
  refine pairwise_iff_forall_sublist.2 fun {part part'} hsublist below hid hreach hreach' => ?_
  obtain ⟨h, hbelow⟩ := hreach.mem_pathsBelow
  obtain ⟨h', hbelow'⟩ := hreach'.mem_pathsBelow
  have hle := count_flatMap_le (f := arena.pathsBelow (max h h')) hsublist.subperm below
  rw [flatMap_cons, flatMap_singleton, count_append] at hle
  have hone := one_le_count_iff.2 (mem_pathsBelow_mono (Nat.le_max_left h h') hbelow)
  have hone' := one_le_count_iff.2 (mem_pathsBelow_mono (Nat.le_max_right h h') hbelow')
  have hcount := hroot.count_parts (max h h') hid
  omega

lemma disjoint {part' : NodeId} (hpart : part ∈ arena.partsOf root)
    (hpart' : part' ∈ arena.partsOf root) (hne : part ≠ part') : arena.Disjoint part part' := by
  have : Std.Symm arena.Disjoint := ⟨fun _ _ => .symm⟩
  exact hroot.pairwise_disjoint.forall hpart hpart' hne

end OnePath

end Arena

end FlowTyping

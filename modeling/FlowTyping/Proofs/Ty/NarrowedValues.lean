import FlowTyping.Proofs.Ty.Meaning
import FlowTyping.Ty.Printer

/-!
# Narrowing any type

Here every type tree is read as a set of values: nullable types, intersections of anything, classes
called like built-in types, and `void`, which stands for the null that such a function gives.

* Equality says no more than the meaning, `Ty.Faithful`.  It does wherever nothing below an
  intersection is nullable or repeated, `Ty.PlainParts`.

Without them a value can be lost: `narrow_loses_value`.
-/

namespace FlowTyping

open List Name

/-- Whether the value has the built-in type; a function that returns nothing gives null. -/
def Primitive.contains (w : World) (v : Value) : Primitive → Bool
  | void => v == .null
  | kind => kind.holds w v

/-- The value is in the type. -/
inductive Ty.Has (w : World) (v : Value) : Ty → Prop
  | named {name : String} : v.isInstance w (key name) = true → Has w v (.named name)
  | primitive {kind : Primitive} : kind.contains w v = true → Has w v (.primitive kind)
  | null {inner : Ty} : v = .null → Has w v (.nullable inner)
  | nullable {inner : Ty} : Has w v inner → Has w v (.nullable inner)
  | union {members : List Ty} {t : Ty} : t ∈ members → Has w v t → Has w v (.union members)
  | inter {members : List Ty} : (∀ t ∈ members, Has w v t) → Has w v (.inter members)

namespace Guard

/-- The outcome of the test on a value. -/
def passes (w : World) (v : Value) : Guard → Bool
  | primitive kind => kind.contains w v
  | guard => guard.test w v

/-- The option holds no value that fails the test, if it is called like what is tested.  A class and
a built-in type of one name are told apart by nothing but their kind. -/
def Tells : Guard → Ty → Prop
  | instanceOf className, .primitive kind =>
    kind ∈ [.closure, .mixed] ∨ key className ≠ key kind.keyword
  | primitive kind, .named name =>
    kind ∈ [.object, .closure, .null, .mixed] ∨ key name ≠ key kind.keyword
  | _, _ => True

end Guard

namespace Ty

variable {w : World} {v : Value} {guard : Guard} {leaf : Ty} {name : String} {kind : Primitive}

lemma has_named :
    Has w v (.named name) ↔ v.isInstance w (key name) = true :=
  ⟨fun h => by cases h; assumption, .named⟩

lemma has_primitive :
    Has w v (.primitive kind) ↔ kind.contains w v = true :=
  ⟨fun h => by cases h; assumption, .primitive⟩

lemma has_null : Has w v null ↔ v = .null := by
  rw [null, has_primitive]
  exact beq_iff_eq

lemma isMembership_has : IsMembership (Has w v) where
  named hkey h := has_named.2 (hkey ▸ has_named.1 h)
  mixed := .primitive rfl
  nullable h := by
    cases h with
    | null h => exact .inr (has_null.2 h)
    | nullable h => exact .inl h
  union := ⟨fun h => by cases h with | union hmem h => exact ⟨_, hmem, h⟩,
    fun ⟨_, hmem, h⟩ => .union hmem h⟩
  inter := ⟨fun h => by cases h with | inter h => exact h, .inter⟩

lemma decides_passes : guard.Decides (Has w v) (guard.passes w v) := by
  cases guard with
  | instanceOf className => exact has_named.symm
  | primitive kind => exact has_primitive.symm
  | isNull | isSet => simp [Guard.Decides, Guard.passes, Guard.test, has_null]
  | looseNull | empty =>
    rw [Guard.Decides, has_null]
    rintro rfl
    rfl
  | truthy =>
    rw [Guard.Decides, has_null]
    rintro h rfl
    cases h

lemma isInstance_of_isOptionCalled {className : String}
    (htells : (Guard.instanceOf className).Tells leaf) (hoption : leaf.IsOption)
    (hcalled : leaf.isOptionCalled className = true) (hv : Has w v leaf) :
    v.isInstance w (key className) = true := by
  cases leaf with
  | named name =>
    have hkey : key name = key className := beq_iff_eq.1 hcalled
    exact hkey ▸ has_named.1 hv
  | primitive kind =>
    have hkey : key kind.keyword = key className := beq_iff_eq.1 hcalled
    rcases htells with hkind | hne
    · rcases mem_pair.1 hkind with rfl | rfl
      · exact hkey ▸ has_primitive.1 hv
      · exact hoption.elim
    · exact absurd hkey.symm hne
  | _ => cases hcalled

lemma contains_of_isOptionCalled (hnull : kind ≠ .null)
    (htells : (Guard.primitive kind).Tells leaf) (hcalled : leaf.isOptionCalled kind.keyword = true)
    (hv : Has w v leaf) : kind.contains w v = true := by
  cases leaf with
  | named name =>
    have hkey : key name = key kind.keyword := beq_iff_eq.1 hcalled
    have hin : v.isInstance w (key kind.keyword) = true := hkey ▸ has_named.1 hv
    rcases htells with hkind | hne
    · cases kind with
      | object =>
        cases v with
        | object _ => rfl
        | _ => cases hin
      | closure => exact hin
      | mixed => rfl
      | null => exact absurd rfl hnull
      | _ => exact absurd hkind (by decide)
    · exact absurd hkey hne
  | primitive k =>
    rw [← Primitive.eq_of_key_keyword (beq_iff_eq.1 hcalled)]
    exact has_primitive.1 hv
  | _ => cases hcalled

lemma passes_of_isOptionCalled (hname : guard.leftOut? = some name) (htells : guard.Tells leaf)
    (hoption : leaf.IsOption) (hcalled : leaf.isOptionCalled name = true)
    (hv : Has w v leaf) : guard.passes w v = true := by
  cases guard with
  | instanceOf className =>
    cases hname
    exact isInstance_of_isOptionCalled htells hoption hcalled hv
  | primitive kind =>
    obtain ⟨hnull, rfl⟩ : kind ≠ .null ∧ kind.keyword = name := by
      cases kind <;> cases hname <;> exact ⟨by decide, rfl⟩
    exact contains_of_isOptionCalled hnull htells hcalled hv
  | _ => cases hname

/-- A value stays in the type on the side that its test takes: on the side where the test held if
equality of options says no more than the meaning, and on the other one if besides the options that
the test names are those that it tests for. -/
theorem narrow_sound (w : World) (v : Value) :
    (∀ t : Ty, (∀ leaf ∈ t.leaves, leaf.PlainParts) → t.Faithful (Has w v)) ∧
    ∀ (current : Option Ty) (guard : Guard), KnownIn (Faithful (Has w v)) current →
      KnownIn (Has w v) current →
      (guard.passes w v = true → KnownIn (Has w v) (narrow current guard).whenTrue) ∧
      (guard.passes w v = false → KnownIn (fun t => ∀ leaf ∈ t.leaves, guard.Tells leaf) current →
        KnownIn (Has w v) (narrow current guard).whenFalse) := by
  refine ⟨fun t => isMembership_has.faithful, fun current guard hfaithful hv => ⟨fun hpasses => ?_,
    fun hfails htells => ?_⟩⟩
  · refine (isMembership_has.narrow decides_passes hfaithful ?_ hv).1 hpasses
    exact fun _ _ _ _ _ _ _ _ _ => hpasses
  · refine (isMembership_has.narrow decides_passes hfaithful ?_ hv).2 hfails
    exact fun name hname t ht leaf hleaf => passes_of_isOptionCalled hname (htells t ht leaf hleaf)

/-- A nullable intersection with another one inside, and three options more. -/
def nestedOptions : Ty :=
  .union [.nullable (.inter [.named "A", .inter [.named "B", .named "C"]]), .void, .named "A",
    .primitive .closure]

theorem narrow_sound_nestedOptions :
    (∀ leaf ∈ nestedOptions.leaves, leaf.PlainParts ∧ (Guard.instanceOf "\\a").Tells leaf) ∧
    Has World.discrete (.object "closure") nestedOptions ∧
    Guard.passes World.discrete (.object "closure") (.instanceOf "\\a") = false ∧
    (narrow (some nestedOptions) (.instanceOf "\\a")).whenFalse.map render =
      some "(A&(B&C))|null|void|Closure" ∧
    KnownIn (Has World.discrete (.object "closure"))
      (narrow (some nestedOptions) (.instanceOf "\\a")).whenFalse := by
  have hleaves : nestedOptions.leaves = [.inter [.named "A", .inter [.named "B", .named "C"]], .null,
      .void, .named "A", .primitive .closure] := by
    simp [nestedOptions, leaves, leavesOfAll]
  have hoptions : ∀ leaf ∈ nestedOptions.leaves,
      leaf.PlainParts ∧ (Guard.instanceOf "\\a").Tells leaf := by
    rw [hleaves]
    simp only [forall_mem_cons, not_mem_nil, IsEmpty.forall_iff, implies_true, PlainParts,
      Guard.Tells, Unrepeated, UnrepeatedAll]
    decide
  have hv : Has World.discrete (.object "closure") nestedOptions :=
    .union (t := .primitive .closure) (by simp) (.primitive (by decide))
  have hfails : Guard.passes World.discrete (.object "closure") (.instanceOf "\\a") = false := by
    decide
  obtain ⟨hfaithful, hsound⟩ := narrow_sound World.discrete (.object "closure")
  refine ⟨hoptions, hv, hfails, rfl, ?_⟩
  exact (hsound (some nestedOptions) (.instanceOf "\\a")
    (.some (hfaithful _ fun leaf h => (hoptions leaf h).1)) (.some hv)).2 hfails
    (.some fun leaf h => (hoptions leaf h).2)

/-- A failing test for a class loses the built-in type of its name, and a test for null loses an
option that equals another one without meaning the same. -/
theorem narrow_loses_value :
    ((narrow (some (.union [.int, .null])) (.instanceOf "int")).whenFalse = some .null ∧
      Guard.passes World.discrete (.int 3) (.instanceOf "int") = false ∧
      Has World.discrete (.int 3) (.union [.int, .null]) ∧ ¬ Has World.discrete (.int 3) .null) ∧
    let kept : Ty := .inter [.inter [.object, .primitive .closure], .named "A"]
    let lost : Ty := .inter [.inter [.object, .object], .named "A"]
    (narrow (some (.union [kept, lost])) .isNull).whenFalse = some kept ∧
      Guard.passes World.discrete (.object "a") .isNull = false ∧
      Has World.discrete (.object "a") (.union [kept, lost]) ∧
      ¬ Has World.discrete (.object "a") kept := by
  refine ⟨⟨rfl, by decide, ?_, ?_⟩, rfl, by decide, ?_, ?_⟩
  · exact .union (t := .int) (by simp) (.primitive rfl)
  · rw [has_null]
    decide
  · refine isMembership_has.union.2 ⟨_, .tail _ (.head _), ?_⟩
    simp only [isMembership_has.inter, forall_mem_cons, not_mem_nil, IsEmpty.forall_iff,
      implies_true, has_named, has_primitive, object]
    decide
  · simp only [isMembership_has.inter, forall_mem_cons, not_mem_nil, IsEmpty.forall_iff,
      implies_true, has_named, has_primitive, object]
    decide

end Ty

end FlowTyping

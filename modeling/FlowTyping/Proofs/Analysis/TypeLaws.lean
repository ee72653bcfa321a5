import FlowTyping.Analysis.Call
import FlowTyping.Analysis.Conditional
import FlowTyping.Analysis.Statement
import FlowTyping.Proofs.Scope.Placement
import FlowTyping.Ty.Relative
import Mathlib.Tactic.Lemma

/-!
# Properties of types that the rules respect

The rules build types out of those they read by a handful of operations.  `Ty.Stable P` says that a
property of types is kept by these operations, and `Ty.Closed P` that it also holds of whatever
declarations can say; the lemmas of this module follow both through everything the rules compute.
-/

namespace FlowTyping

open List Ty

variable {t : Ty} {P : Ty → Prop}

namespace Ty

variable {name : String}

mutual
/-- The class names in the tree, in order. -/
def names : Ty → List String
  | .named name => [name]
  | .primitive _ => []
  | .nullable inner => inner.names
  | .union members => namesOfAll members
  | .inter members => namesOfAll members
def namesOfAll : List Ty → List String
  | [] => []
  | t :: ts => t.names ++ namesOfAll ts
end

lemma mem_namesOfAll {ts : List Ty} :
    name ∈ namesOfAll ts ↔ ∃ t ∈ ts, name ∈ t.names := by
  induction ts with
  | nil => simp [namesOfAll]
  | cons t ts ih => simp [namesOfAll, ih]

lemma mem_names_of_mem_members {option : Ty} (ho : option ∈ t.members)
    (h : name ∈ option.names) : name ∈ t.names := by
  cases t with
  | union members => exact mem_namesOfAll.2 ⟨option, ho, h⟩
  | named _ | primitive _ | nullable _ | inter _ => exact mem_singleton.1 ho ▸ h

lemma mem_names_of_className? (h : t.className? = some name) :
    name ∈ t.names := by
  cases t with
  | named _ =>
    cases h
    exact .head _
  | primitive _ | nullable _ | union _ | inter _ => cases h

/-- Every class name in the type satisfies `p`. -/
def NamesIn (p : String → Prop) (t : Ty) : Prop :=
  ∀ name ∈ t.names, p name

instance (p : String → Prop) [DecidablePred p] (t : Ty) : Decidable (t.NamesIn p) :=
  inferInstanceAs (Decidable (∀ name ∈ t.names, p name))

lemma NamesIn.imp {p q : String → Prop} (h : t.NamesIn p) (hpq : ∀ name, p name → q name) :
    t.NamesIn q :=
  fun name hname => hpq name (h name hname)

mutual
theorem hasRelative_eq_any (t : Ty) : t.hasRelative = t.names.any isRelativeName := by
  match t with
  | .named name => simp [hasRelative, names]
  | .primitive _ => rfl
  | .nullable inner => exact hasRelative_eq_any inner
  | .union members => exact anyHasRelative_eq_any members
  | .inter members => exact anyHasRelative_eq_any members
theorem anyHasRelative_eq_any (ts : List Ty) :
    anyHasRelative ts = (namesOfAll ts).any isRelativeName := by
  match ts with
  | [] => rfl
  | t :: ts =>
    rw [anyHasRelative, namesOfAll, any_append, hasRelative_eq_any t, anyHasRelative_eq_any ts]
end

lemma hasRelative_eq_false_iff :
    t.hasRelative = false ↔ t.NamesIn fun name => isRelativeName name = false := by
  simp [hasRelative_eq_any, NamesIn]

end Ty

open List Option

section Lists

variable {α β : Type} {f : α → Option β} {xs : List α} {ys : List β}

lemma mapM_eq_some_iff : xs.mapM f = some ys ↔ xs.map f = ys.map some := by
  induction xs generalizing ys with
  | nil => cases ys <;> simp
  | cons x xs ih =>
    rw [mapM_cons, map_cons]
    cases ys with
    | nil => cases f x <;> cases xs.mapM f <;> simp
    | cons y ys =>
      rw [map_cons, cons.injEq, ← ih]
      cases f x <;> cases xs.mapM f <;> simp

lemma exists_of_mapM_eq_some (h : xs.mapM f = some ys) {y : β} (hy : y ∈ ys) :
    ∃ x ∈ xs, f x = some y :=
  mem_map.1 (mapM_eq_some_iff.1 h ▸ mem_map_of_mem hy)

lemma exists_of_mapM_of_mem (h : xs.mapM f = some ys) {x : α} (hx : x ∈ xs) :
    ∃ y ∈ ys, f x = some y := by
  obtain ⟨y, hy, heq⟩ := mem_map.1 (mapM_eq_some_iff.1 h ▸ mem_map_of_mem hx)
  exact ⟨y, hy, heq.symm⟩

end Lists

/-- `P` is kept by the operations that the rules apply to types which they know. -/
structure Ty.Stable (P : Ty → Prop) : Prop where
  primitive : ∀ kind, P (.primitive kind)
  unionOf : ∀ ts, (∀ t ∈ ts, P t) → P (.unionOf ts)
  stripNull : ∀ t, P t → P t.stripNull
  without : ∀ t name, P t → P (t.without name)
  named : ∀ t name, P t → name ∈ t.names → P (.named name)
  dropSeparator : ∀ name, P (.named name) → P (.ofClass name)
  closureClass : P (.named "Closure")

/-- `P` is kept by the operations on types, and holds of declared types. -/
structure Ty.Closed (P : Ty → Prop) : Prop extends Stable P where
  ofClass : ∀ name, P (.ofClass name)
  resolveRelative : ∀ t this parent, P t → P (t.resolveRelative this parent)
  rebindSelf : ∀ t receiver, P t → P (t.rebindSelf receiver)
  ofHint : ∀ hint, P (.ofHint hint)
  parsed : ∀ cs t, parseChars? cs = some t → P t

lemma Ty.closed_true : Closed fun _ => True := by
  constructor
  · constructor <;> simp
  all_goals simp

/-- The class that a test asks for lies in `P`. -/
def Guard.ClassIn (P : Ty → Prop) : Guard → Prop
  | .instanceOf className => P (.named className)
  | _ => True

namespace Ty.Stable

variable (hP : Stable P)

include hP

lemma join (a b : Ty) (ha : P a) (hb : P b) : P (a.join b) :=
  hP.unionOf _ fun t ht => by
    rcases mem_cons.1 ht with rfl | ht
    · exact ha
    · exact mem_singleton.1 ht ▸ hb

lemma join? {a b : Option Ty} (ha : KnownIn P a) (hb : KnownIn P b) :
    KnownIn P (join? a b) := by
  intro t ht
  obtain ⟨a', ha', ht⟩ := bind_eq_some_iff.1 ht
  obtain ⟨b', hb', ht⟩ := bind_eq_some_iff.1 ht
  cases ht
  exact hP.join a' b' (ha a' ha') (hb b' hb')

lemma ofClass? {cls : Option String} (h : ∀ name, cls = some name → P (.named name)) :
    P (ofClass? cls) := by
  cases cls with
  | none => exact hP.primitive .object
  | some name => exact hP.dropSeparator name (h name rfl)

lemma orNull (nullsafe : Bool) {type : Option Ty} (h : KnownIn P type) :
    KnownIn P (Ty.orNull nullsafe type) := by
  unfold Ty.orNull
  split
  · exact h.map fun t ht => hP.join t .null ht (hP.primitive .null)
  · exact h

lemma narrow {current : Option Ty} (h : KnownIn P current) (guard : Guard)
    (hguard : guard.ClassIn P) :
    KnownIn P (narrow current guard).whenTrue ∧
      KnownIn P (narrow current guard).whenFalse := by
  have hnull : KnownIn P (some .null) := .some (hP.primitive .null)
  have hstrip : KnownIn P (current.map .stripNull) := h.map hP.stripNull
  cases guard with
  | isNull => exact ⟨hnull, hstrip⟩
  | looseNull => exact ⟨.none, hstrip⟩
  | instanceOf className =>
    exact ⟨.some (hP.dropSeparator className hguard),
      h.map fun t ht => hP.without t className ht⟩
  | primitive kind =>
    have hkind : KnownIn P (some (.primitive kind)) := .some (hP.primitive kind)
    have hwithout : KnownIn P (current.map (·.without kind.keyword)) :=
      h.map fun t ht => hP.without t kind.keyword ht
    cases kind with
    | null => exact ⟨hnull, hstrip⟩
    | _ => exact ⟨hkind, hwithout⟩
  | truthy => exact ⟨hstrip, .none⟩
  | isSet => exact ⟨hstrip, hnull⟩
  | empty => exact ⟨.none, hstrip⟩

lemma ofArithmetic (isSum : Bool) (left right : Option Ty) :
    P (Ty.ofArithmetic isSum left right) := by
  unfold Ty.ofArithmetic
  have hnumber := hP.join .int .float (hP.primitive .int) (hP.primitive .float)
  split_ifs
  exacts [hP.primitive _, hP.primitive _, hP.primitive _, hP.primitive _, hnumber]

lemma ofBinary (op : BinaryOp) {left right : Option Ty} (hl : KnownIn P left)
    (hr : KnownIn P right) : KnownIn P (ofBinary op left right) := by
  have hprim : ∀ kind, KnownIn P (some (.primitive kind)) := fun kind => .some (hP.primitive kind)
  cases op with
  | coalesce => exact hP.join? (hl.map hP.stripNull) hr
  | bitAnd | bitOr | bitXor =>
    refine .some ?_
    split
    · exact hP.primitive .int
    · exact hP.join .int .string (hP.primitive .int) (hP.primitive .string)
  | add | sub | mul | pow => exact .some (hP.ofArithmetic ..)
  | div => exact .some (hP.join .int .float (hP.primitive .int) (hP.primitive .float))
  | _ => exact hprim _

lemma ofSigned (operand : Option Ty) : P (Ty.ofSigned operand) := by
  unfold Ty.ofSigned
  have hnumber := hP.join .int .float (hP.primitive .int) (hP.primitive .float)
  split_ifs
  exacts [hP.primitive _, hP.primitive _, hnumber]

lemma ofStep (increment : Bool) (t : Ty) : P (Ty.ofStep increment t) := by
  unfold Ty.ofStep
  split
  · exact hP.primitive .int
  · exact hP.primitive .float
  · split
    · exact hP.primitive .int
    · exact hP.primitive .null
  · refine hP.unionOf _ fun t ht => ?_
    simp only [mem_cons, not_mem_nil, or_false] at ht
    rcases ht with rfl | rfl | rfl <;> exact hP.primitive _
  · exact hP.join .int .float (hP.primitive .int) (hP.primitive .float)

lemma unionOfKnown {types : List (Option Ty)} (h : ∀ t ∈ types, KnownIn P t) :
    KnownIn P (Evaluator.unionOfKnown types) := by
  intro t ht
  obtain ⟨known, hknown, ht⟩ := bind_eq_some_iff.1 ht
  split at ht
  · cases ht
  · cases ht
    refine hP.unionOf _ fun u hu => ?_
    obtain ⟨o, ho, rfl⟩ := exists_of_mapM_eq_some hknown hu
    exact h _ ho u rfl

end Ty.Stable

namespace Ty.Closed

variable (hP : Closed P)

include hP

lemma ofName (name : String) : P (.named name) := by
  have hdrop : Name.dropSeparator (String.ofList ('\\' :: name.toList)) = name := by
    simp [Name.dropSeparator]
  have h := hP.ofClass (String.ofList ('\\' :: name.toList))
  rwa [Ty.ofClass, hdrop] at h

lemma guardIn (guard : Guard) : guard.ClassIn P := by
  cases guard with
  | instanceOf className => exact hP.ofName className
  | _ => trivial

lemma findSome?_parsed {f : List Char → Option Ty}
    (hf : ∀ body t, f body = some t → ∃ cs, parseChars? cs = some t)
    (bodies : List (List Char)) : KnownIn P (bodies.findSome? f) := by
  intro t ht
  obtain ⟨body, -, hbody⟩ := exists_of_findSome?_eq_some ht
  obtain ⟨cs, hcs⟩ := hf body t hbody
  exact hP.parsed cs t hcs

lemma docParam (doc name : String) : KnownIn P (Docblock.paramType? doc name) := by
  refine hP.findSome?_parsed (fun body t h => ?_) _
  simp only [Docblock.paramOfBody?] at h
  split at h
  · exact ⟨_, h⟩
  · cases h

lemma docReturn (doc : String) : KnownIn P (Docblock.returnType? doc) :=
  hP.findSome?_parsed (fun _ _ h => ⟨_, h⟩) _

lemma docVar {doc : String} {name : Option String} (h : Docblock.varTag? doc = some (t, name)) :
    P t := by
  obtain ⟨body, -, hbody⟩ := exists_of_findSome?_eq_some h
  simp only [Docblock.varOfBody?] at hbody
  split at hbody
  · cases hbody
  · obtain ⟨u, hu, hut⟩ := map_eq_some_iff.1 hbody
    cases hut
    exact hP.parsed _ _ hu

lemma declared (hint : Option Hint) (doc : Option String) (name : String) :
    KnownIn P ((hint.map Ty.ofHint).or (doc.bind fun d => Docblock.paramType? d name)) := by
  refine .or (fun t ht => ?_) (.bind fun d _ => hP.docParam d name)
  obtain ⟨h, -, rfl⟩ := map_eq_some_iff.1 ht
  exact hP.ofHint h

end Ty.Closed

/-! ## Declarations -/

/-- Every type in the signature lies in `P`. -/
structure Signature.TypesIn (P : Ty → Prop) (f : Signature) : Prop where
  params : ∀ p ∈ f.params, KnownIn P p.type
  returnType : KnownIn P f.returnType

/-- Every type in the declaration of a class lies in `P`. -/
structure ClassInfo.TypesIn (P : Ty → Prop) (c : ClassInfo) : Prop where
  methods : ∀ e ∈ c.methods.entries, e.2.TypesIn P
  properties : ∀ e ∈ c.properties.entries, KnownIn P e.2.type
  constants : ∀ e ∈ c.constants.entries, KnownIn P e.2.type

/-- Every type of a declaration in the index lies in `P`. -/
structure Index.TypesIn (P : Ty → Prop) (index : Index) : Prop where
  classes : ∀ e ∈ index.classes.entries, e.2.TypesIn P
  functions : ∀ e ∈ index.functions.entries, e.2.TypesIn P
  constants : ∀ e ∈ index.constants.entries, KnownIn P e.2.type

lemma Index.typesIn_true (index : Index) : index.TypesIn fun _ => True :=
  ⟨fun _ _ => ⟨fun _ _ => ⟨fun _ _ _ _ => trivial, fun _ _ => trivial⟩, fun _ _ _ _ => trivial,
    fun _ _ _ _ => trivial⟩, fun _ _ => ⟨fun _ _ _ _ => trivial, fun _ _ => trivial⟩,
    fun _ _ _ _ => trivial⟩

lemma Index.exists_of_mem_walk {index : Index} {budget : Nat} {seen queue : List String}
    {info : ClassInfo} (h : info ∈ index.walk budget seen queue) :
    ∃ name, index.class? name = some info := by
  fun_induction walk index budget seen queue with
  | case1 => cases h
  | case2 => cases h
  | case3 _ _ _ _ _ _ _ _ ih => exact ih h
  | case4 _ _ _ name _ _ _ info' hinfo ih =>
    rcases mem_cons.1 h with rfl | h
    · exact ⟨name, hinfo⟩
    · exact ih h

/-! ## Members -/

namespace Context

variable (hP : Stable P)

include hP

lemma onReceiver?_in {find : String → Option Ty} {receiver : Ty} (hreceiver : P receiver)
    (h : ∀ cls, P (.named cls) → KnownIn P (find cls)) :
    KnownIn P (onReceiver? receiver find) := by
  have hclass : ∀ option ∈ receiver.stripNull.members, ∀ cls ∈ option.names, P (.named cls) :=
    fun option ho cls hcls => hP.named _ cls (hP.stripNull _ hreceiver)
      (mem_names_of_mem_members ho hcls)
  intro t ht
  obtain ⟨found, hfound, ht⟩ := bind_eq_some_iff.1 ht
  split at ht
  · cases ht
  · cases ht
    refine hP.unionOf _ fun u hu => ?_
    obtain ⟨option, ho, hoption⟩ := exists_of_mapM_eq_some hfound hu
    unfold onOption? at hoption
    split at hoption
    · exact h _ (hclass _ ho _ (.head _)) u hoption
    · exact h _ hP.closureClass u hoption
    · obtain ⟨cls, hcls, hfind⟩ := exists_of_findSome?_eq_some hoption
      obtain ⟨part, hpart, hname⟩ := mem_filterMap.1 hcls
      refine h cls (hclass _ ho cls (mem_namesOfAll.2 ⟨part, hpart, ?_⟩)) u hfind
      exact mem_names_of_className? hname
    · cases hoption

end Context

namespace Context

variable {cx : Context} (hP : Closed P)

include hP

lemma memberType_in {declared : Ty} (h : P declared) (receiver : String) :
    P (cx.memberType declared receiver) := by
  unfold memberType
  split
  · exact hP.resolveRelative _ _ _ (hP.rebindSelf _ _ h)
  · exact h

end Context

end FlowTyping

import FlowTyping.Proofs.Analysis.TypeLaws
import FlowTyping.Check.Report

/-!
# The types of declarations

What declarations say about types is read from hints, comments and signature texts.  A property that
holds of these readings holds of every type in the index: of the built-in symbols, and of whatever
files add to them.
-/

namespace FlowTyping

open Arena Dict List Option Signature Text

variable {P : Ty → Prop} {info : ClassInfo} {type : Option Ty} {n : Nat} {id : NodeId}
  {index' index : Index} {α : Type} {p : ParamInfo} {text : String}

/-- Every type in the declaration lies in `P`. -/
def Declaration.TypesIn (P : Ty → Prop) : Declaration → Prop
  | .cls info => info.TypesIn P
  | .function info => info.TypesIn P
  | .constant info => Ty.KnownIn P info.type

lemma of_foldlM {β : Type} {f : β → α → Option β} {b b' : β} {as : List α} {Q : β → Prop}
    (h : as.foldlM f b = some b') (hb : Q b)
    (hstep : ∀ b a b', a ∈ as → f b a = some b' → Q b → Q b') : Q b' := by
  induction as generalizing b with
  | nil => exact some.inj h ▸ hb
  | cons a as ih =>
    obtain ⟨mid, hmid, h⟩ := bind_eq_some_iff.1 h
    exact ih h (hstep b a mid (.head _) hmid hb) fun b a b' ha => hstep b a b' (.tail _ ha)

lemma Dict.forall_mem_insert {d : Dict α} {Q : α → Prop} {a : α} (name : String)
    (hd : ∀ e ∈ d.entries, Q e.2) (ha : Q a) : ∀ e ∈ (d.insert name a).entries, Q e.2 := by
  intro e he
  rcases mem_put he with h | h
  · rwa [h]
  · exact hd e h

namespace ClassInfo.TypesIn

variable {c : ClassInfo} (h : c.TypesIn P)

include h

lemma addMethod {method : Signature} (hm : method.TypesIn P) : (c.addMethod method).TypesIn P :=
  ⟨forall_mem_insert _ h.methods hm, h.properties, h.constants⟩

lemma addProperty {property : PropertyInfo} (hp : Ty.KnownIn P property.type) :
    (c.addProperty property).TypesIn P :=
  ⟨h.methods, forall_mem_insert (Q := fun p : PropertyInfo => Ty.KnownIn P p.type) _ h.properties hp,
    h.constants⟩

lemma addConstant {constant : ConstantInfo} (hc : Ty.KnownIn P constant.type) :
    (c.addConstant constant).TypesIn P :=
  ⟨h.methods, h.properties,
    forall_mem_insert (Q := fun c : ConstantInfo => Ty.KnownIn P c.type) _ h.constants hc⟩

end ClassInfo.TypesIn

namespace Index.TypesIn

variable (h : index.TypesIn P)

include h

lemma addClass (hc : info.TypesIn P) : (index.addClass info).TypesIn P :=
  ⟨forall_mem_insert _ h.classes hc, h.functions, h.constants⟩

lemma addFunction {info : Signature} (hf : info.TypesIn P) :
    (index.addFunction info).TypesIn P :=
  ⟨h.classes, forall_mem_insert _ h.functions hf, h.constants⟩

lemma addConstant {info : ConstantInfo} (hc : Ty.KnownIn P info.type) :
    (index.addConstant info).TypesIn P :=
  ⟨h.classes, h.functions,
    forall_mem_insert (Q := fun c : ConstantInfo => Ty.KnownIn P c.type) _ h.constants hc⟩

lemma add {declaration : Declaration} (hd : declaration.TypesIn P) :
    (index.add declaration).TypesIn P := by
  cases declaration with
  | cls info => exact h.addClass hd
  | function info => exact h.addFunction hd
  | constant info => exact h.addConstant hd

lemma addAll {declarations : List Declaration} (hd : ∀ d ∈ declarations, d.TypesIn P) :
    (index.addAll declarations).TypesIn P :=
  foldlRecOn declarations Index.add h fun _ hi d hmem => hi.add (hd d hmem)

end Index.TypesIn

/-! ## Parameters and signatures -/

lemma ParamInfo.typesIn_withType? (hp : Ty.KnownIn P p.type)
    (h : Ty.KnownIn P type) : Ty.KnownIn P (p.withType? type).type := by
  cases type with
  | none => exact hp
  | some t => exact h

lemma ParamInfo.typesIn_withNullDefault (hP : Ty.Closed P) (hp : Ty.KnownIn P p.type) :
    Ty.KnownIn P p.withNullDefault.type :=
  hp.map fun t ht => hP.join t .null ht (hP.primitive .null)

lemma ParamInfo.typesIn_of_parse (hP : Ty.Closed P) {cs : List Char}
    (h : ParamInfo.parse? cs = some p) : Ty.KnownIn P p.type := by
  obtain ⟨⟨before, name⟩, -, h⟩ := bind_eq_some_iff.1 h
  have hread : ∀ rest, Ty.KnownIn P (Ty.parseChars? rest) := hP.parsed
  dsimp only at h
  split at h
  · split at h
    · cases h
      exact typesIn_withNullDefault hP (typesIn_withType? .none (hread _))
    · cases h
      exact typesIn_withType? .none (hread _)
  · cases h
    exact typesIn_withType? .none (hread _)

/-- What a signature says in front of the name. -/
def Signature.returnText? (cs : List Char) : Option (List Char) :=
  (splitFirst? '(' cs).bind fun parts =>
    (splitLast? ' ' (splitStatic (trim parts.1)).2).map Prod.fst

lemma Signature.returnType_params_of_parse {f : Signature} (h : parse? text = some f) :
    f.returnType = (returnText? text.toList).bind Ty.parseChars? ∧
      ∀ p ∈ f.params, ∃ cs, ParamInfo.parse? cs = some p := by
  obtain ⟨⟨head, rest⟩, hhead, h⟩ := bind_eq_some_iff.1 h
  obtain ⟨⟨params, tail⟩, -, h⟩ := bind_eq_some_iff.1 h
  have hrest : ∀ {returnType : Option Ty} {name : List Char} {isStatic : Bool},
      (if name.isEmpty then none else do
        let params ← (splitParams params).mapM ParamInfo.parse?
        return ({ name := String.ofList name, returnType, isStatic : Signature }).withParams params)
        = some f → f.returnType = returnType ∧ ∀ p ∈ f.params, ∃ cs, ParamInfo.parse? cs = some p := by
    intro returnType name isStatic h
    split at h
    · cases h
    · obtain ⟨infos, hinfos, h⟩ := bind_eq_some_iff.1 h
      cases h
      refine ⟨rfl, fun p hp => ?_⟩
      obtain ⟨cs, -, hcs⟩ := exists_of_mapM_eq_some hinfos hp
      exact ⟨cs, hcs⟩
  rw [returnText?, hhead, bind_some]
  dsimp only at h ⊢
  split at h
  · next htype => rw [htype]; exact hrest h
  · next htype => rw [htype]; exact hrest h

lemma Signature.typesIn_of_parse (hP : Ty.Closed P) {f : Signature} (h : parse? text = some f) :
    f.TypesIn P := by
  obtain ⟨hreturn, hparams⟩ := returnType_params_of_parse h
  refine ⟨fun p hp => ?_, hreturn ▸ .bind fun cs _ => hP.parsed cs⟩
  obtain ⟨cs, hcs⟩ := hparams p hp
  exact ParamInfo.typesIn_of_parse hP hcs

/-! ## Built-in symbols -/

lemma Builtin.typesIn_classOf (hP : Ty.Closed P) (h : info.TypesIn P) (methods : List String)
    (constants : List (String × String)) :
    (Builtin.classOf info methods constants).TypesIn P := by
  refine foldlRecOn constants _ ?_ fun c hc e _ => hc.addConstant fun t ht => hP.parsed _ t ht
  refine foldlRecOn _ _ h fun c hc f hf => hc.addMethod ?_
  obtain ⟨_, _, hparse⟩ := mem_filterMap.1 hf
  exact typesIn_of_parse hP hparse

lemma Builtin.typesIn_classes (hP : Ty.Closed P) : ∀ c ∈ Builtin.classes, c.TypesIn P := by
  have hempty : ∀ {info : ClassInfo}, info.methods = {} → info.properties = {} →
      info.constants = {} → info.TypesIn P := by
    intro info hm hp hc
    refine ⟨?_, ?_, ?_⟩ <;> simp [hm, hp, hc]
  repeat refine forall_mem_cons.2 ⟨typesIn_classOf hP (hempty rfl rfl rfl) _ _, ?_⟩
  exact fun _ h => nomatch h

lemma Index.of_builtin {Q : Index → Prop} (hempty : Q {})
    (hclass : ∀ index, ∀ c ∈ Builtin.classes, Q index → Q (index.addClass c))
    (hfunction : ∀ index f, ∀ text ∈ Builtin.functions, parse? text = some f → Q index →
      Q (index.addFunction f))
    (hconstant : ∀ index name type, Q index → Q (index.addConstant ⟨name, Ty.parse? type⟩)) :
    Q Index.builtin := by
  refine foldlRecOn _ _ (foldlRecOn _ _ (foldlRecOn _ _ hempty ?_) ?_) ?_
  · exact fun index h c hc => hclass index c hc h
  · intro index h f hf
    obtain ⟨text, htext, hparse⟩ := mem_filterMap.1 hf
    exact hfunction index f text htext hparse h
  · exact fun index h e _ => hconstant index e.1 e.2 h

lemma Index.typesIn_builtin (hP : Ty.Closed P) : Index.builtin.TypesIn P := by
  refine of_builtin ⟨by simp, by simp, by simp⟩ ?_ ?_ ?_
  · exact fun _ c hc h => h.addClass (Builtin.typesIn_classes hP c hc)
  · exact fun _ _ _ _ hparse h => h.addFunction (typesIn_of_parse hP hparse)
  · exact fun _ _ _ h => h.addConstant fun t ht => hP.parsed _ t ht

/-! ## Declarations of files -/

lemma Arena.typesIn_literalTypeUpTo (hP : Ty.Closed P) {arena : Arena}
    (h : arena.literalTypeUpTo n id = some type) : Ty.KnownIn P type := by
  have hprim : ∀ kind, Ty.KnownIn P (some (.primitive kind)) := fun kind => .some (hP.primitive kind)
  induction n generalizing id with
  | zero => cases h
  | succ n ih =>
    unfold literalTypeUpTo at h
    split at h
    case h_6 =>
      cases h
      unfold keywordType?
      split
      exacts [hprim _, hprim _, hprim _, .none]
    case h_7 | h_8 => exact ih h
    all_goals
      cases h
      first | exact hprim _ | exact .none

namespace DeclaredIn

variable {cx : DeclaredIn} (hP : Ty.Closed P) {cls : ClassStmt} {info' : ClassInfo}
  {ds : List Declaration}

include hP

lemma typesIn_hint (hint : Option Hint) : Ty.KnownIn P (hint.map Ty.ofHint) := by
  intro t ht
  obtain ⟨h, -, rfl⟩ := map_eq_some_iff.1 ht
  exact hP.ofHint h

lemma typesIn_param (doc : Option String) (p : Param) : Ty.KnownIn P (cx.param doc p).type := by
  have htype : ∀ name, Ty.KnownIn P (({ name } : ParamInfo).withType?
      ((p.typeHint.map Ty.ofHint).or (doc.bind fun d => Docblock.paramType? d p.name))).type :=
    fun _ => ParamInfo.typesIn_withType? .none (hP.declared p.typeHint doc p.name)
  unfold param
  split
  · split
    · exact ParamInfo.typesIn_withNullDefault hP (htype _)
    · exact htype _
  · exact htype _

lemma typesIn_signature (name : String) (params : List Param) (returnType : Option Hint)
    (doc : Option String) (node : NodeId) :
    (cx.signature name params returnType doc node).TypesIn P := by
  refine ⟨fun p hp => ?_, (typesIn_hint hP returnType).or (.bind fun d _ => hP.docReturn d)⟩
  obtain ⟨q, -, rfl⟩ := mem_map.1 hp
  exact typesIn_param hP doc q

lemma typesIn_addMember {member : NodeId} (h : cx.addMember cls info member = some info')
    (hinfo : info.TypesIn P) : info'.TypesIn P := by
  unfold addMember at h
  split at h
  · next fn _ =>
    cases h
    have hsig : (cx.signature fn.name fn.params fn.returnType fn.docComment member).TypesIn P :=
      typesIn_signature hP ..
    refine ClassInfo.TypesIn.addMethod ?_ ⟨hsig.params, hsig.returnType⟩
    refine foldlRecOn _ _ hinfo fun c hc p hp => hc.addProperty ?_
    obtain ⟨q, -, hq⟩ := mem_filterMap.1 hp
    obtain ⟨_, -, rfl⟩ := map_eq_some_iff.1 hq
    exact typesIn_hint hP q.typeHint
  · next prop _ =>
    cases h
    refine hinfo.addProperty ((typesIn_hint hP prop.typeHint).or (.bind fun d _ t ht => ?_))
    obtain ⟨⟨u, name⟩, hu, rfl⟩ := map_eq_some_iff.1 ht
    exact hP.docVar hu
  · obtain ⟨type, htype, rfl⟩ := map_eq_some_iff.1 h
    exact hinfo.addConstant (typesIn_literalTypeUpTo hP htype)
  · cases h
    split
    · exact hinfo.addConstant (.some (hP.ofClass cls.name))
    · exact hinfo
  · cases h
    exact ⟨hinfo.methods, hinfo.properties, hinfo.constants⟩
  · cases h
    exact hinfo

omit hP in
/-- What holds of the functions, the classes and the constants that statements declare holds of all
declarations. -/
lemma forall_of_collect {Q : Declaration → Prop}
    (hfunction : ∀ id fn, cx.arena.stmt? id = some (.function fn) →
      Q (.function (cx.signature fn.name fn.params fn.returnType fn.docComment id)))
    (hclass : ∀ cls id info, cx.classInfo cls id = some info → Q (.cls info))
    (hconstant : ∀ name value type, cx.arena.literalType value = some type →
      Q (.constant { name, type }))
    (h : cx.collectUpTo n id = some ds) : ∀ d ∈ ds, Q d := by
  induction n generalizing id ds with
  | zero => cases h
  | succ n ih =>
    have hall : ∀ {stmts : List NodeId},
        (stmts.mapM (cx.collectUpTo n)).map flatten = some ds → ∀ d ∈ ds, Q d := by
      intro stmts h d hd
      obtain ⟨parts, hparts, rfl⟩ := map_eq_some_iff.1 h
      obtain ⟨part, hpart, hd⟩ := mem_flatten.1 hd
      obtain ⟨stmt, -, hstmt⟩ := exists_of_mapM_eq_some hparts hpart
      exact ih hstmt d hd
    have hnil : some [] = some ds → ∀ d ∈ ds, Q d := by
      rintro ⟨⟩
      exact forall_mem_nil Q
    unfold collectUpTo at h
    split at h
    · exact hall h
    · exact hall h
    · exact hall h
    · next hstmt =>
      cases h
      exact forall_mem_singleton.2 (hfunction _ _ hstmt)
    · obtain ⟨info, hinfo, rfl⟩ := map_eq_some_iff.1 h
      exact forall_mem_singleton.2 (hclass _ _ _ hinfo)
    · unfold defined at h
      split at h
      · split at h
        · split at h
          · obtain ⟨type, htype, rfl⟩ := map_eq_some_iff.1 h
            exact forall_mem_singleton.2 (hconstant _ _ _ htype)
          · exact hnil h
        · exact hnil h
      · exact hnil h
    · exact hnil h

lemma typesIn_of_collect (h : cx.collectUpTo n id = some ds) : ∀ d ∈ ds, d.TypesIn P := by
  refine forall_of_collect ?_ ?_ ?_ h
  · exact fun _ _ _ => typesIn_signature hP ..
  · exact fun _ _ _ hinfo => of_foldlM (Q := ClassInfo.TypesIn P) hinfo ⟨by simp, by simp, by simp⟩
      fun _ _ _ _ h hinfo => typesIn_addMember hP h hinfo
  · exact fun _ _ _ htype => typesIn_literalTypeUpTo hP htype

end DeclaredIn

lemma Index.TypesIn.addUnit (hP : Ty.Closed P) {unit : SourceUnit} (h : index.TypesIn P)
    (hadd : index.addUnit unit = some index') : index'.TypesIn P := by
  obtain ⟨ds, hds, rfl⟩ := map_eq_some_iff.1 hadd
  exact h.addAll (DeclaredIn.typesIn_of_collect hP hds)

lemma Index.TypesIn.addUnits (hP : Ty.Closed P) {units : List SourceUnit} (h : index.TypesIn P)
    (hadd : index.addUnits units = some index') : index'.TypesIn P :=
  of_foldlM hadd h fun _ _ _ _ hadd h => h.addUnit hP hadd

end FlowTyping

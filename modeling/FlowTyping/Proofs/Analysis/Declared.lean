import FlowTyping.Analysis.Call
import FlowTyping.Proofs.Analysis.Stages
import FlowTyping.Proofs.Analysis.Steps
import FlowTyping.Proofs.Analysis.TypeLaws
import FlowTyping.Proofs.Scope.Placement

/-!
# What code and index declare

A rule takes types from three places: from the state, from the code and from the index.  This module
lists what it can take from the last two, and says when all of it lies in a property of types.

An index is looked at through the declarations that it has for symbols, never through the order in
which these were added.  A `Symbol` is the key of a class, a function or a constant; adding
declarations puts the last one of each symbol in front of what was there before
(`Index.lookup_addAll`).
-/

namespace FlowTyping

open Name Option Ty

variable {index : Index} {cx : Context} {id : NodeId} {cls : String} {t : Ty} {P : Ty → Prop}

/-- What a declaration can be found under. -/
inductive Symbol where
  | cls (key : String)
  | function (key : String)
  | constant (key : String)
  deriving DecidableEq, Repr

/-- The symbol that a declaration is found under. -/
def Declaration.symbol : Declaration → Symbol
  | .cls info => .cls (key info.name)
  | .function info => .function (key info.name)
  | .constant info => .constant (unqualified info.name)

namespace Index

/-- The declaration of a symbol. -/
def lookup (index : Index) : Symbol → Option Declaration
  | .cls key => (index.classes.get? key).map .cls
  | .function key => (index.functions.get? key).map .function
  | .constant key => (index.constants.get? key).map .constant

lemma lookup_add (index : Index) (d : Declaration) (symbol : Symbol) :
    (index.add d).lookup symbol = if d.symbol = symbol then some d else index.lookup symbol := by
  cases d <;> cases symbol <;>
    simp only [add, addClass, addFunction, addConstant, lookup, Declaration.symbol,
      Symbol.cls.injEq, Symbol.function.injEq, Symbol.constant.injEq, reduceCtorEq, if_false,
      Dict.get?_insert, eq_comm]
  all_goals split <;> rfl

lemma lookup_addAll (index : Index) (ds : List Declaration) (symbol : Symbol) :
    (index.addAll ds).lookup symbol =
      ((ds.filter fun d => d.symbol = symbol).getLast?).or (index.lookup symbol) := by
  induction ds generalizing index with
  | nil => rfl
  | cons d ds ih =>
    show ((index.add d).addAll ds).lookup symbol = _
    rw [ih, lookup_add, List.filter_cons]
    by_cases h : d.symbol = symbol
    · rw [if_pos h, if_pos (decide_eq_true h), List.getLast?_cons]
      cases (ds.filter fun d => d.symbol = symbol).getLast? <;> rfl
    · rw [if_neg h, if_neg (by simpa using h)]

/-! ## Indexes that say the same -/

/-- Every symbol has the same declaration. -/
def Same (index other : Index) : Prop :=
  ∀ symbol, index.lookup symbol = other.lookup symbol

lemma Same.refl (index : Index) : index.Same index :=
  fun _ => rfl

namespace Same

variable {other : Index} (h : index.Same other)

include h

lemma class?_eq : index.class? = other.class? :=
  funext fun name => map_injective (fun _ _ => Declaration.cls.inj) (h (.cls (key name)))

lemma function?_eq : index.function? = other.function? :=
  funext fun name =>
    map_injective (fun _ _ => Declaration.function.inj) (h (.function (key name)))

lemma constant?_eq : index.constant? = other.constant? :=
  funext fun name => map_injective (fun _ _ => Declaration.constant.inj)
    (h (.constant (unqualified name)))

lemma walk_eq (budget : Nat) (seen queue : List String) :
    index.walk budget seen queue = other.walk budget seen queue := by
  induction budget generalizing seen queue with
  | zero => rfl
  | succ budget ih =>
    unfold walk
    simp only [h.class?_eq, ih]

lemma hierarchy_eq : index.hierarchy = other.hierarchy :=
  funext fun name => h.walk_eq _ [] [name]

lemma method?_eq : index.method? = other.method? := by
  funext cls name
  rw [method?, method?, h.hierarchy_eq]

lemma property?_eq : index.property? = other.property? := by
  funext cls name
  rw [property?, property?, h.hierarchy_eq]

lemma classConstant?_eq : index.classConstant? = other.classConstant? := by
  funext cls name
  rw [classConstant?, classConstant?, h.hierarchy_eq]

lemma firstMethod?_eq : index.firstMethod? = other.firstMethod? := by
  funext receiver method
  rw [firstMethod?, firstMethod?, h.method?_eq]

end Same

end Index

namespace Context

variable (h : index.Same cx.index) {arena : Arena} {options : Options}

include h

lemma memberType_eq_of_same : memberType ⟨arena, index, options⟩ = cx.memberType := by
  funext declared receiver
  rw [memberType, memberType, h.class?_eq]

lemma propertyType?_eq_of_same : propertyType? ⟨arena, index, options⟩ = cx.propertyType? := by
  funext cls name
  rw [propertyType?, propertyType?, h.property?_eq, memberType_eq_of_same h]

lemma returnType?_eq_of_same : returnType? ⟨arena, index, options⟩ = cx.returnType? := by
  funext cls method
  rw [returnType?, returnType?, h.method?_eq, memberType_eq_of_same h]

lemma classConstantType?_eq_of_same :
    classConstantType? ⟨arena, index, options⟩ = cx.classConstantType? := by
  funext cls name
  rw [classConstantType?, classConstantType?, h.classConstant?_eq, memberType_eq_of_same h]

lemma constantType?_eq_of_same : constantType? ⟨arena, index, options⟩ = cx.constantType? := by
  funext name
  rw [constantType?, constantType?, h.constant?_eq]

end Context

open List Option Dict Index

variable {node : Node} {e : Expr}

/-! ## Code -/

/-- The declared type of a parameter: its hint, or else what the comment says. -/
def Param.declared? (doc : Option String) (p : Param) : Option Ty :=
  (p.typeHint.map ofHint).or (doc.bind fun d => Docblock.paramType? d p.name)

/-- The name written for a class, where it is not computed. -/
def ClassRef.names : ClassRef → List String
  | .named name => [name]
  | .dynamic _ => []

/-- The names written for classes in a node, without those of the nodes below it. -/
def NodeData.classNames : NodeData → List String
  | .expr (.classConst cls _) | .expr (.staticProp cls _) | .expr (.staticCall cls _ _)
  | .expr (.new cls _) | .expr (.instanceOf _ cls) => cls.names
  | .stmt (.tryStmt _ catches _) => catches.flatMap CatchClause.types
  | _ => []

/-- The types that a node declares for variables, without those of the nodes below it. -/
def NodeData.declaredTypes : NodeData → List Ty
  | .expr (.closure fn) => fn.params.filterMap (Param.declared? none)
  | .expr (.arrow fn) => fn.params.filterMap (Param.declared? none)
  | .stmt (.function fn) => fn.params.filterMap (Param.declared? fn.docComment)
  | .stmt (.method fn) => fn.params.filterMap (Param.declared? fn.docComment)
  | .stmt (.exprStmt _ doc) => ((doc.bind Docblock.varTag?).map Prod.fst).toList
  | _ => []

/-- The class whose body a node holds. -/
def NodeData.declaredClasses : NodeData → List ClassContext
  | .stmt (.classDecl cls) => [⟨cls.name, cls.extendedClass⟩]
  | _ => []

namespace Arena

variable (arena : Arena)

/-- The names written for classes. -/
def classNames : List String :=
  arena.nodes.toList.flatMap fun node => node.data.classNames

/-- The types that parameters and doc comments declare for variables. -/
def declaredTypes : List Ty :=
  arena.nodes.toList.flatMap fun node => node.data.declaredTypes

/-- The classes whose bodies the code holds. -/
def declaredClasses : List ClassContext :=
  arena.nodes.toList.flatMap fun node => node.data.declaredClasses

variable {arena}

lemma mem_nodes_of_get? (h : arena.get? id = some node) :
    node ∈ arena.nodes.toList := by
  unfold get? at h
  split at h
  · cases h
  · exact Array.mem_toList_iff.2 (Array.mem_of_getElem? h)

lemma exists_of_expr? (h : arena.expr? id = some e) :
    ∃ node ∈ arena.nodes.toList, node.data = .expr e := by
  unfold expr? at h
  split at h
  · next hget =>
    cases h
    exact ⟨_, mem_nodes_of_get? hget, rfl⟩
  · cases h

lemma exists_of_stmt? {s : Stmt} (h : arena.stmt? id = some s) :
    ∃ node ∈ arena.nodes.toList, node.data = .stmt s := by
  unfold stmt? at h
  split at h
  · next hget =>
    cases h
    exact ⟨_, mem_nodes_of_get? hget, rfl⟩
  · cases h

end Arena

/-! ## Index -/

/-- The types that methods return, and the types of properties and constants. -/
def ClassInfo.memberTypes (c : ClassInfo) : List Ty :=
  c.methods.entries.filterMap (fun e => e.2.returnType) ++
    (c.properties.entries.filterMap (fun e => e.2.type) ++
      c.constants.entries.filterMap fun e => e.2.type)

namespace Index

variable (index : Index) {name : String} {f : Signature} {c : ConstantInfo}

/-- The types that functions return. -/
def returnTypes : List Ty :=
  index.functions.entries.filterMap fun e => e.2.returnType

/-- The types of constants. -/
def constantTypes : List Ty :=
  index.constants.entries.filterMap fun e => e.2.type

/-- The types of the members of classes. -/
def memberTypes : List Ty :=
  index.classes.entries.flatMap fun e => e.2.memberTypes

variable {index}

lemma mem_returnTypes (hf : index.function? name = some f)
    (ht : f.returnType = some t) : t ∈ index.returnTypes :=
  mem_filterMap.2 ⟨_, mem_of_find hf, ht⟩

lemma mem_constantTypes (hc : index.constant? name = some c)
    (ht : c.type = some t) : t ∈ index.constantTypes :=
  mem_filterMap.2 ⟨_, mem_of_find hc, ht⟩

lemma mem_memberTypes_of_hierarchy {info : ClassInfo} (h : info ∈ index.hierarchy cls)
    (ht : t ∈ info.memberTypes) : t ∈ index.memberTypes :=
  let ⟨_, hinfo⟩ := exists_of_mem_walk h
  mem_flatMap.2 ⟨_, mem_of_find hinfo, ht⟩

lemma mem_memberTypes_of_method? (hf : index.method? cls name = some f)
    (ht : f.returnType = some t) : t ∈ index.memberTypes := by
  obtain ⟨info, hinfo, hf⟩ := exists_of_findSome?_eq_some hf
  refine mem_memberTypes_of_hierarchy hinfo (mem_append_left _ ?_)
  exact mem_filterMap.2 ⟨_, mem_of_find hf, ht⟩

lemma mem_memberTypes_of_property? {p : PropertyInfo} (hp : index.property? cls name = some p)
    (ht : p.type = some t) : t ∈ index.memberTypes := by
  obtain ⟨info, hinfo, hp⟩ := exists_of_findSome?_eq_some hp
  refine mem_memberTypes_of_hierarchy hinfo
    (mem_append_right _ (mem_append_left _ ?_))
  exact mem_filterMap.2 ⟨_, mem_of_find hp, ht⟩

lemma mem_memberTypes_of_classConstant? (hc : index.classConstant? cls name = some c)
    (ht : c.type = some t) :
    t ∈ index.memberTypes := by
  obtain ⟨info, hinfo, hc⟩ := exists_of_findSome?_eq_some hc
  refine mem_memberTypes_of_hierarchy hinfo
    (mem_append_right _ (mem_append_right _ ?_))
  exact mem_filterMap.2 ⟨_, mem_of_find hc, ht⟩

end Index

/-! ## Reading -/

/-- The type lies in `P` once it is read inside a class of `P`, or outside of all classes. -/
structure Ty.ResolvesIn (P : Ty → Prop) (t : Ty) : Prop where
  outside : P (t.resolveRelative none none)
  inside : ∀ c : ClassContext, c.TypesIn P → P (t.resolveRelative (some c.name) c.parent)

/-- The name means a class of `P` wherever it stands. -/
def Name.MeansIn (P : Ty → Prop) (name : String) : Prop :=
  ∀ stack : Stack, (∀ c ∈ stack.classes, c.TypesIn P) →
    ∀ cls, stack.resolveClass? name = some cls → P (.named cls)

/-- What a class reference names lies in `P` wherever it stands. -/
def ClassRef.MeansIn (P : Ty → Prop) (cls : ClassRef) : Prop :=
  ∀ name ∈ cls.names, Name.MeansIn P name

/-- What a node declares lies in `P` once it is read. -/
structure NodeData.DeclaresIn (P : Ty → Prop) (data : NodeData) : Prop where
  types : ∀ t ∈ data.declaredTypes, t.ResolvesIn P
  names : ∀ name ∈ data.classNames, Name.MeansIn P name
  classes : ∀ c ∈ data.declaredClasses, c.TypesIn P

/-- What the code and the index declare lies in `P` once it is read. -/
structure Context.DeclaresIn (P : Ty → Prop) (cx : Context) : Prop where
  returns : ∀ t ∈ cx.index.returnTypes, P t
  constants : ∀ t ∈ cx.index.constantTypes, P t
  members : ∀ t ∈ cx.index.memberTypes, ∀ receiver, P (.named receiver) →
    P (cx.memberType t receiver)
  types : ∀ t ∈ cx.arena.declaredTypes, t.ResolvesIn P
  names : ∀ name ∈ cx.arena.classNames, Name.MeansIn P name
  classes : ∀ c ∈ cx.arena.declaredClasses, c.TypesIn P

namespace Context.DeclaresIn

variable (hcx : cx.DeclaresIn P)

include hcx

lemma of_mem_nodes (h : node ∈ cx.arena.nodes.toList) : node.data.DeclaresIn P where
  types t ht := hcx.types t (mem_flatMap.2 ⟨node, h, ht⟩)
  names name hname := hcx.names name (mem_flatMap.2 ⟨node, h, hname⟩)
  classes c hc := hcx.classes c (mem_flatMap.2 ⟨node, h, hc⟩)

lemma of_expr? (h : cx.arena.expr? id = some e) :
    (NodeData.expr e).DeclaresIn P := by
  obtain ⟨node, hnode, hdata⟩ := Arena.exists_of_expr? h
  exact hdata ▸ hcx.of_mem_nodes hnode

lemma of_stmt? {stmt : Stmt} (h : cx.arena.stmt? id = some stmt) :
    (NodeData.stmt stmt).DeclaresIn P := by
  obtain ⟨node, hnode, hdata⟩ := Arena.exists_of_stmt? h
  exact hdata ▸ hcx.of_mem_nodes hnode

lemma memberType?_in {α : Type} {found : Option α} {type : α → Option Ty}
    (h : ∀ a t, found = some a → type a = some t → t ∈ cx.index.memberTypes)
    (hcls : P (.named cls)) :
    KnownIn P (found.bind fun a => (type a).bind fun t => some (cx.memberType t cls)) :=
  .bind fun a ha => .bind fun t ht => .some (hcx.members t (h a t ha ht) cls hcls)

lemma propertyType?_in (hcls : P (.named cls)) (name : String) :
    KnownIn P (cx.propertyType? cls name) :=
  hcx.memberType?_in (fun _ _ => mem_memberTypes_of_property?) hcls

lemma returnType?_in (hcls : P (.named cls)) (method : String) :
    KnownIn P (cx.returnType? cls method) :=
  hcx.memberType?_in (fun _ _ => mem_memberTypes_of_method?) hcls

lemma classConstantType?_in (hcls : P (.named cls)) (name : String) :
    KnownIn P (cx.classConstantType? cls name) :=
  hcx.memberType?_in (fun _ _ => mem_memberTypes_of_classConstant?) hcls

lemma constantType?_in (hP : Stable P) (name : String) :
    KnownIn P (cx.constantType? name) := by
  unfold constantType?
  split
  · exact .some (hP.primitive .bool)
  · exact .some (hP.primitive .bool)
  · exact .some (hP.primitive .null)
  · exact .bind fun c hc t ht => hcx.constants t (mem_constantTypes hc ht)

end Context.DeclaresIn

/-! ## Where declared types are in the property -/

namespace Ty.Closed

variable (hP : Closed P)

include hP

lemma resolvesIn (h : P t) : t.ResolvesIn P :=
  ⟨hP.resolveRelative t none none h, fun c _ => hP.resolveRelative t (some c.name) c.parent h⟩

lemma meansIn (name : String) : Name.MeansIn P name :=
  fun _ _ cls _ => hP.ofName cls

lemma params_in (doc : Option String) (ps : List Param) :
    ∀ t ∈ ps.filterMap (Param.declared? doc), t.ResolvesIn P := by
  intro t ht
  obtain ⟨p, -, hp⟩ := mem_filterMap.1 ht
  exact hP.resolvesIn (hP.declared p.typeHint doc p.name t hp)

lemma nodeDeclaresIn (data : NodeData) : data.DeclaresIn P where
  types t ht := by
    unfold NodeData.declaredTypes at ht
    split at ht
    · exact hP.params_in _ _ t ht
    · exact hP.params_in _ _ t ht
    · exact hP.params_in _ _ t ht
    · exact hP.params_in _ _ t ht
    · obtain ⟨r, hr, rfl⟩ := map_eq_some_iff.1 (mem_toList.1 ht)
      obtain ⟨doc, -, hdoc⟩ := bind_eq_some_iff.1 hr
      exact hP.resolvesIn (hP.docVar hdoc)
    · cases ht
  names name _ := hP.meansIn name
  classes c _ := ⟨hP.ofName c.name, fun name _ => hP.ofName name⟩

lemma declaresIn (hindex : cx.index.TypesIn P) : cx.DeclaresIn P where
  returns t ht := by
    obtain ⟨e, he, ht⟩ := mem_filterMap.1 ht
    exact (hindex.functions e he).returnType t ht
  constants t ht := by
    obtain ⟨e, he, ht⟩ := mem_filterMap.1 ht
    exact hindex.constants e he t ht
  members t ht receiver _ := by
    obtain ⟨e, he, ht⟩ := mem_flatMap.1 ht
    refine Context.memberType_in hP ?_ receiver
    rcases mem_append.1 ht with ht | ht
    · obtain ⟨m, hm, ht⟩ := mem_filterMap.1 ht
      exact ((hindex.classes e he).methods m hm).returnType t ht
    · rcases mem_append.1 ht with ht | ht
      · obtain ⟨p, hp, ht⟩ := mem_filterMap.1 ht
        exact (hindex.classes e he).properties p hp t ht
      · obtain ⟨c, hc, ht⟩ := mem_filterMap.1 ht
        exact (hindex.classes e he).constants c hc t ht
  types t ht := by
    obtain ⟨node, -, ht⟩ := mem_flatMap.1 ht
    exact (hP.nodeDeclaresIn node.data).types t ht
  names name _ := hP.meansIn name
  classes c hc := by
    obtain ⟨node, -, hc⟩ := mem_flatMap.1 hc
    exact (hP.nodeDeclaresIn node.data).classes c hc

end Ty.Closed

lemma Context.declaresIn_true (cx : Context) : cx.DeclaresIn fun _ => True :=
  closed_true.declaresIn cx.index.typesIn_true

end FlowTyping

import FlowTyping.Proofs.Analysis.Boundaries
import FlowTyping.Proofs.Analysis.Tests
import FlowTyping.Proofs.Ty.Removal

/-!
# Parameters inside and outside of their function

The declared type of a parameter is read twice.  The declaration of the function adds the null of a
null default first, and relative names are filled in where the declaration is used; the body fills
them in first.  Filling in may make options equal that were different, so the two orders are compared
option by option.
-/

namespace FlowTyping

open Analysis Evaluator List Scope Store

namespace Ty

variable {ts : List Ty} {t : Ty} {f : String → Option Ty}

/-! ## Null and replaced names -/

lemma unionOf_of_isOption (hoption : ∀ u ∈ ts, u.IsOption) :
    unionOf ts = ofOptions (distinct eqv ts) := by
  have hleaves := leavesOfAll_of_isOption hoption
  have hmixed : ¬ ts.any isMixed = true := by
    intro hany
    obtain ⟨u, hu, hmixed⟩ := any_eq_true.1 hany
    have := hoption u hu
    rw [eq_mixed_of_isMixed hmixed] at this
    exact this
  rw [unionOf_of_not_any_isMixed (by rwa [hleaves]), hleaves]

lemma length_distinct_le (ts : List Ty) : (distinct eqv ts).length ≤ ts.length := by
  have hnodup : (distinct eqv ts).Nodup := (pairwise_distinct ts).imp fun {a b} hab heq => by
    rw [heq, eqv_refl] at hab
    cases hab
  exact (hnodup.subperm fun _ => mem_of_mem_distinct).length_le

lemma join_null_unionOf (hoption : ∀ u ∈ ts, u.IsOption) (hne : ts ≠ [])
    (hroom : ts.length < maxOptions) : (unionOf ts).join null = unionOf (ts ++ [null]) := by
  have hnull : ∀ {us : List Ty}, (∀ u ∈ us, u.IsOption) → ∀ u ∈ us ++ [null], u.IsOption := fun h =>
    forall_mem_append.2 ⟨h, forall_mem_singleton.2 trivial⟩
  have hkept : ∀ u ∈ distinct eqv ts, u.IsOption := fun u hu => hoption u (mem_of_mem_distinct hu)
  have hleaves : (unionOf ts).leaves = distinct eqv ts := by
    rw [unionOf_of_isOption hoption]
    exact leaves_ofOptions hkept (distinct_ne_nil hne)
      (Nat.le_of_lt ((length_distinct_le ts).trans_lt hroom))
  -- Of the options that are kept, each is kept again.
  have htwice : distinct eqv (distinct eqv ts ++ [null]) = distinct eqv (ts ++ [null]) := by
    have hsame : distinct eqv (distinct eqv ts) = distinct eqv ts :=
      distinct_of_pairwise (pairwise_distinct ts)
    unfold distinct at hsame ⊢
    rw [foldl_append, hsame, foldl_append]
  have hparts : leavesOfAll [unionOf ts, null] = leavesOfAll (distinct eqv ts ++ [null]) := by
    rw [leavesOfAll_append, leavesOfAll_of_isOption hkept]
    simp [leavesOfAll, hleaves]
  rw [unionOf_of_isOption (hnull hoption), ← htwice, ← unionOf_of_isOption (hnull hkept)]
  exact congrArg (fun ls => if ls.any isMixed then mixed else ofOptions (distinct eqv ls)) hparts

lemma unionOf_append_null (hoption : ∀ u ∈ ts, u.IsOption) (hnull : null ∈ ts) :
    unionOf (ts ++ [null]) = unionOf ts := by
  have hall : ∀ u ∈ ts ++ [null], u.IsOption :=
    forall_mem_append.2 ⟨hoption, forall_mem_singleton.2 trivial⟩
  have hkept : (ts.foldl (addOption eqv) []).any (eqv · null) = true :=
    any_eq_true.2 (exists_mem_distinct hnull)
  rw [unionOf_of_isOption hall, unionOf_of_isOption hoption, distinct, foldl_append,
    foldl_cons, foldl_nil, addOption, if_pos hkept, distinct]

lemma mapNamesAll_eq_map (ts : List Ty) : mapNamesAll f ts = ts.map (mapNames f) := by
  induction ts with
  | nil => rfl
  | cons t ts ih => rw [mapNamesAll, ih, map_cons]

lemma IsOption.mapNames (hf : ∀ name u, f name = some u → u.IsOption) (ht : t.IsOption) :
    (t.mapNames f).IsOption := by
  cases t with
  | named name =>
    rw [Ty.mapNames]
    cases hname : f name with
    | none => trivial
    | some u => exact hf name u hname
  | primitive _ => exact ht
  | inter _ => trivial
  | nullable _ | union _ => cases ht

namespace Normal

variable (ht : t.Normal) (hmixed : t.isMixed = false) (hroom : t.members.length < maxOptions)

include ht hmixed hroom

lemma join_null_eq : t.join null = unionOf (t.members ++ [null]) := by
  have hne : t.members ≠ [] := ht.members_eq_leaves ▸ ht.leaves_ne_nil
  rw [← join_null_unionOf (ht.isOption_of_mem_members hmixed) hne hroom, ht.unionOf_members_self]

lemma join_null_cases :
    null ∈ t.members ∧ t.join null = t ∨ t.join null = .union (t.members ++ [null]) := by
  by_cases hnull : null ∈ t.members
  · refine .inl ⟨hnull, ?_⟩
    rw [ht.join_null_eq hmixed hroom, unionOf_append_null (ht.isOption_of_mem_members hmixed) hnull,
      ht.unionOf_members_self]
  · exact .inr (ht.join_null hmixed hnull hroom)

lemma mapNames_join_null (hf : ∀ name u, f name = some u → u.IsOption) :
    (t.join null).mapNames f = (t.mapNames f).join null := by
  have hoption : ∀ u ∈ t.members.map (Ty.mapNames f), u.IsOption :=
    forall_mem_map.2 fun u hu => (ht.isOption_of_mem_members hmixed u hu).mapNames hf
  have hparts : t.mapNames f = unionOf (t.members.map (Ty.mapNames f)) := by
    rcases ht.union_or_members_eq with ⟨members, rfl⟩ | ⟨hself, -⟩
    · rw [Ty.mapNames, mapNamesAll_eq_map]
      rfl
    · rw [hself] at hoption ⊢
      exact (forall_mem_singleton.1 hoption).normal.unionOf_singleton.symm
  have hne : t.members.map (Ty.mapNames f) ≠ [] := by
    rw [ne_eq, map_eq_nil_iff, ht.members_eq_leaves]
    exact ht.leaves_ne_nil
  have hjoin : (t.mapNames f).join null = unionOf (t.members.map (Ty.mapNames f) ++ [null]) := by
    rw [hparts, join_null_unionOf hoption hne (by rwa [length_map])]
  rcases ht.join_null_cases hmixed hroom with ⟨hnull, hsame⟩ | hunion
  · have hmapped : null ∈ t.members.map (Ty.mapNames f) := mem_map.2 ⟨null, hnull, rfl⟩
    rw [hsame, hjoin, unionOf_append_null hoption hmapped, hparts]
  · rw [hunion, Ty.mapNames, mapNamesAll_eq_map, map_append, hjoin]
    rfl

lemma hasRelative_join_null : (t.join null).hasRelative = t.hasRelative := by
  rcases ht.join_null_cases hmixed hroom with ⟨-, hsame⟩ | hunion
  · rw [hsame]
  · rw [hunion, Bool.eq_iff_iff, hasRelative_eq_any, hasRelative_eq_any, any_eq_true,
      any_eq_true]
    refine exists_congr fun name => and_congr_left fun _ => ?_
    cases t <;> simp [members, names, mem_namesOfAll]

omit hmixed in
lemma resolveRelative_join_null (this parent : Option String) :
    (t.join null).resolveRelative this parent = (t.resolveRelative this parent).join null := by
  cases hmixed : t.isMixed with
  | true =>
    rw [eq_mixed_of_isMixed hmixed]
    rfl
  | false =>
    unfold Ty.resolveRelative
    rw [ht.hasRelative_join_null hmixed hroom]
    split
    · refine ht.mapNames_join_null hmixed hroom fun name u hu => ?_
      have hclass : ∀ cls, (ofClass? cls).IsOption := fun cls => by cases cls <;> trivial
      split at hu
      · exact Option.some.inj hu ▸ hclass parent
      · split at hu
        · exact Option.some.inj hu ▸ hclass this
        · cases hu
    · rfl

end Normal

end Ty

/-! ## Both readings -/

variable {cx : Context} {doc : Option String} {s : Scope} {st : State}

/-- The type as seen from the class around the code. -/
def Stack.resolve (stack : Stack) (t : Ty) : Ty :=
  t.resolveRelative (stack.class?.map ClassContext.name) (stack.class?.bind ClassContext.parent)

lemma resolveInClass_run (t : Ty) : resolveInClass t cx st = some (st.stack.resolve t, st) := by
  rw [resolveInClass, bind_run (show getStack cx st = some (st.stack, st) from rfl), Stack.resolve]
  cases st.stack.class? <;> rfl

lemma declaredParamType_run (p : Param) :
    declaredParamType doc p cx st = some ((p.declared? doc).map st.stack.resolve, st) := by
  unfold declaredParamType Param.declared?
  cases (p.typeHint.map Ty.ofHint).or (doc.bind fun d => Docblock.paramType? d p.name) with
  | none => rfl
  | some t =>
    dsimp only
    rw [map_eq_pure_bind, bind_run (resolveInClass_run t)]
    rfl

lemma known_addParams (cx : Context) (doc : Option String) (line : Line) (ps : List Param)
    (hs : s.Wf (fun _ => True) st.store) : ∃ s' st', addParams doc line ps s cx st = some (s', st') ∧
      s'.known st'.store = ps.foldl (fun Γ p => Γ.set p.name
        (cx.arena.paramType p ((p.declared? doc).map st.stack.resolve))) (s.known st.store) := by
  induction ps generalizing s st with
  | nil => exact ⟨s, st, rfl, rfl⟩
  | cons p ps ih =>
    let type := cx.arena.paramType p ((p.declared? doc).map st.stack.resolve)
    let r := s.declare st.store p.name type .param line
    let σ := if p.byRef then r.1.markByReference r.2 p.name else r.2
    have hwf : r.1.Wf (fun _ => True) r.2 :=
      (change_declare hs (typesIn_true _) le_rfl p.name (fun _ _ => trivial)
        .param line).wf
    have hmarked : r.1.Wf (fun _ => True) σ ∧ r.1.known σ = r.1.known r.2 := by
      show r.1.Wf _ (if p.byRef then _ else _) ∧ r.1.known (if p.byRef then _ else _) = _
      split
      · exact ⟨(change_markByReference (n := 0) hwf (typesIn_true _) p.name).wf,
          known_updateVar hwf p.name fun _ => rfl⟩
      · exact ⟨hwf, rfl⟩
    obtain ⟨s', st', hrun, hrest⟩ := @ih r.1 { st with store := σ } hmarked.1
    refine ⟨s', st', ?_, ?_⟩
    · rw [addParams, bind_run (show (read : Analysis Context) cx st = some (cx, st) from rfl),
        bind_run (declaredParamType_run p), bind_run (onStore_run _)]
      exact hrun
    · rw [hrest, foldl_cons, hmarked.2, known_declare hs]

lemma foldl_set_of_notMem {g : Param → Option Ty} {ps : List Param} {name : String} (Γ : Typing)
    (h : ∀ q ∈ ps, q.name ≠ name) : ps.foldl (fun Γ p => Γ.set p.name (g p)) Γ name = Γ name := by
  induction ps generalizing Γ with
  | nil => rfl
  | cons p ps ih =>
    rw [forall_mem_cons] at h
    rw [foldl_cons, ih _ h.2, Typing.set, if_neg h.1.symm]

lemma paramType_eq_resolve (cx : Context) (file : String) {p : Param} (hvariadic : p.variadic = false)
    (hroom : ∀ t, p.declared? doc = some t → t.members.length < 64) (stack : Stack) :
    cx.arena.paramType p ((p.declared? doc).map stack.resolve) =
      (DeclaredIn.param ⟨cx.arena, file⟩ doc p).type.map stack.resolve := by
  have htype : (DeclaredIn.param ⟨cx.arena, file⟩ doc p).type =
      if p.default.any cx.arena.isNullConst then (p.declared? doc).map fun t => t.join .null
      else p.declared? doc := by
    have hplain : ∀ info : ParamInfo, info.type = none →
        (info.withType? (p.declared? doc)).type = p.declared? doc := fun info hnone => by
      cases p.declared? doc <;> simp [ParamInfo.withType?, hnone]
    unfold DeclaredIn.param
    cases p.default with
    | none => exact hplain _ rfl
    | some default =>
      dsimp only [Option.any_some]
      split
      · exact congrArg (Option.map _) (hplain _ rfl)
      · exact hplain _ rfl
  rw [htype, Arena.paramType, hvariadic]
  simp only [Bool.false_eq_true, if_false]
  split
  · cases hdeclared : p.declared? doc with
    | none => rfl
    | some t =>
      have hnormal : t.Normal := Ty.closed_normal.declared p.typeHint doc p.name t hdeclared
      exact congrArg some (hnormal.resolveRelative_join_null (hroom t hdeclared) _ _).symm
  · rfl

lemma DeclaredIn.name_param (cx : DeclaredIn) (p : Param) : (cx.param doc p).name = p.name := by
  have hname : ∀ (info : ParamInfo) (type : Option Ty), (info.withType? type).name = info.name :=
    fun _ type => by cases type <;> rfl
  unfold DeclaredIn.param
  split
  · split <;> exact hname _ _
  · exact hname _ _

/-- The parameters of a function or a method with a body, its body and its comment. -/
def Stmt.function? : Stmt → Option (List Param × List NodeId × Option String)
  | .function fn => some (fn.params, fn.body, fn.docComment)
  | .method fn => fn.body.map fun body => (fn.params, body, fn.docComment)
  | _ => none

lemma functionBody_of_check {stmt : Stmt} {params : List Param} {body : List NodeId} {id : NodeId}
    {n : Nat} {flow : Flow} {st' : State} (hs : cx.arena.stmt? id = some stmt)
    (hfn : stmt.function? = some (params, body, doc))
    (h : (evaluator n).check id cx st = some (flow, st')) :
    ∃ m line s st1 st2, s.Wf (fun _ => True) st1.store ∧ st1.stack.resolve = st.stack.resolve ∧
      (evaluator m).functionBody id params body doc line s cx st1 = some ((), st2) := by
  obtain ⟨m, st2, -, hrun, -⟩ := check_inside hs h
  obtain ⟨this, isStatic, st2, hrun⟩ : ∃ this isStatic st2,
      (evaluator m).checkFunction id params body doc this isStatic cx (st.enterStmt id) =
        some ((), st2) := by
    cases stmt with
    | function fn =>
      cases hfn
      obtain ⟨⟨⟩, hrun, -⟩ := of_result hrun
      exact ⟨_, _, st2, hrun⟩
    | method fn =>
      obtain ⟨body, hbody, hfn⟩ := Option.map_eq_some_iff.1 hfn
      cases hfn
      rw [checkStmt, hbody] at hrun
      obtain ⟨this, st3, hthis, hrun⟩ := of_bind hrun
      obtain rfl : st3 = st.enterStmt id := fixes_thisType _ hthis
      obtain ⟨⟨⟩, hrun, -⟩ := of_result hrun
      exact ⟨_, _, st2, hrun⟩
    | _ => cases hfn
  rw [checkFunction_eq] at hrun
  replace hrun := bind_rest hrun rfl
  replace hrun := bind_rest hrun rfl
  replace hrun := bind_rest hrun rfl
  obtain ⟨s, st3, hglobals, hrun⟩ := of_bind hrun
  obtain ⟨s', st4, hthis, hrun⟩ := of_bind hrun
  rw [onStore_run, Option.some.injEq, Prod.mk.injEq] at hglobals
  obtain ⟨rfl, rfl⟩ := hglobals
  have hwf := (change_addSuperglobals (n := 0) Ty.closed_true.toStable
    cx.options.superglobals (wf_of_empty rfl rfl) st.store.typesIn_true (Nat.zero_le _)
    (s := { flags := { isStatic, isStrict := st.stack.isStrict }, function := some id })).wf
  cases this with
  | none =>
    obtain ⟨rfl, rfl⟩ := of_pure hthis
    refine ⟨m, _, _, _, st2, hwf, ?_, hrun⟩
    rfl
  | some t =>
    have hthis : onStore (fun σ => Scope.declare _ σ "this" (some t) .this _) cx _ = some (s', st4) :=
      hthis
    obtain ⟨rfl, rfl⟩ := hthis
    refine ⟨m, _, _, _, st2, (change_declare (n := 0) hwf (typesIn_true _) (Nat.zero_le _)
      "this" (fun _ _ => trivial) .this _).wf, ?_, hrun⟩
    rfl

/-- A parameter has the same type inside and outside of its function: the one that is bound where the
body starts is the one that is declared, as seen from the class around the function, with and
without a null default.  Where parameters share a name, each is bound with its own type before the
next one takes the name over. -/
theorem param_type_inside_and_outside (cx : Context) (file name : String) (returnType : Option Hint)
    (n : Nat) (id : NodeId) (stmt : Stmt) (params : List Param) (body : List NodeId)
    (doc : Option String) (st st' : State) (flow : Flow) (hs : cx.arena.stmt? id = some stmt)
    (hfn : stmt.function? = some (params, body, doc))
    (h : (evaluator n).check id cx st = some (flow, st')) :
    ∃ m line s st₁ s' st₂ bodyFlow st₃, addParams doc line params s cx st₁ = some (s', st₂) ∧
      (evaluator m).checkAll body cx { st₂ with breaks := [], stack := st₂.stack.push s' } =
        some (bodyFlow, st₃) ∧
      ∀ before p after, params = before ++ p :: after → p.variadic = false →
        (∀ t, p.declared? doc = some t → t.members.length < 64) →
        ∃ info, (DeclaredIn.signature ⟨cx.arena, file⟩ name params returnType doc id).params[
            before.length]? = some info ∧ info.name = p.name ∧
          (∃ s₁ st₂, addParams doc line (before ++ [p]) s cx st₁ = some (s₁, st₂) ∧
            s₁.known st₂.store p.name = some (info.type.map st.stack.resolve)) ∧
          ((∀ q ∈ after, q.name ≠ p.name) →
            s'.known st₂.store p.name = some (info.type.map st.stack.resolve)) := by
  obtain ⟨m, line, s, st₁, st₃, hwf, hclass, hrun⟩ := functionBody_of_check hs hfn h
  obtain ⟨s', st₂, hparams, hknown⟩ := known_addParams cx doc line params hwf
  replace hrun := bind_rest hrun hparams
  replace hrun := bind_rest hrun rfl
  replace hrun := bind_rest hrun rfl
  obtain ⟨bodyFlow, st₄, hbody, -⟩ := bind_eq_some.1 hrun
  refine ⟨m, line, s, st₁, s', st₂, bodyFlow, st₄, hparams, hbody, ?_⟩
  rintro before p after rfl hvariadic hroom
  have htype := paramType_eq_resolve cx file hvariadic hroom st.stack
  rw [hclass] at hknown
  refine ⟨DeclaredIn.param ⟨cx.arena, file⟩ doc p, ?_, ?_, ?_, fun hlast => ?_⟩
  · simp [DeclaredIn.signature, Signature.withParams]
  · exact DeclaredIn.name_param _ p
  · obtain ⟨s₁, st₅, hbefore, hknown⟩ := known_addParams cx doc line (before ++ [p]) hwf
    refine ⟨s₁, st₅, hbefore, ?_⟩
    rw [hknown, hclass, foldl_append, foldl_cons, foldl_nil, Typing.set, if_pos rfl,
      htype]
  · rw [hknown, foldl_append, foldl_cons, foldl_set_of_notMem _ hlast, Typing.set,
      if_pos rfl, htype]

/-- `function f(self|A|(static&parent) $a = null) {}`, a method at node 1. -/
def relativeParam : Param :=
  { name := "a", default := some 0
    typeHint := some
      (.union [.named "self", .named "A", .inter [.named "static", .named "parent"]]) }

def relativeMethod : SourceUnit :=
  Build.result do
    let _ ← Build.expr .nullConst
    let method ← Build.stmt (.method { name := "f", params := [relativeParam], body := some [] })
    Build.finish "unit" [method]

/-- Inside the class `A`, which extends `B`. -/
def insideClass : State :=
  { State.initial {} with stack := (State.initial {}).stack.pushClass ⟨"A", some "B"⟩ }

theorem param_type_inside_and_outside_relativeMethod :
    (∃ t, relativeParam.declared? none = some t ∧ t.members.length = 3 ∧
      (insideClass.stack.resolve (t.join .null)).render = "A|(A&B)|null") ∧
    ∃ line s st₁ s' st₂, addParams none line [relativeParam] s ⟨relativeMethod.arena, {}, {}⟩ st₁ =
        some (s', st₂) ∧
      ∃ info, (DeclaredIn.signature ⟨relativeMethod.arena, "unit"⟩ "f" [relativeParam] none none
          1).params[0]? = some info ∧
        s'.known st₂.store "a" = some (info.type.map insideClass.stack.resolve) := by
  have hrun : ((evaluator 9).check 1 ⟨relativeMethod.arena, {}, {}⟩ insideClass).isSome = true := by
    decide +kernel
  obtain ⟨⟨flow, st'⟩, hrun⟩ := Option.isSome_iff_exists.1 hrun
  obtain ⟨m, line, s, st₁, s', st₂, -, -, hparams, -, hall⟩ :=
    param_type_inside_and_outside ⟨relativeMethod.arena, {}, {}⟩ "unit" "f" none 9 1 _ _ _ none
      insideClass st' flow rfl rfl hrun
  obtain ⟨info, hinfo, -, -, hknown⟩ := hall [] relativeParam [] rfl rfl (by rintro t ⟨⟩; decide)
  exact ⟨⟨_, rfl, by decide, by decide⟩, line, s, st₁, s', st₂, hparams, info, hinfo,
    hknown (by simp)⟩

end FlowTyping

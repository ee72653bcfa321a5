import FlowTyping.Ast.Builder
import FlowTyping.Proofs.Analysis.Engine
import FlowTyping.Proofs.Symbol.Declarations
import FlowTyping.Proofs.Ty.NormalForm
import Mathlib.Data.List.DropRight

/-!
# Recorded types

A check records types in many places: in the index, in the table of nodes, in the variables and
chains of every scope that it holds on to, and in its record of what it passed.  Any property that
the operations on types respect holds of all of them: normal form, and having no relative name.

A declaration may name a class by its place, as `self`, `static`, `parent` or `$this`.  Such names
enter an analysis through parameters, doc comments, members, class references and handlers, and each
of these ways fills them in from the class around the code or from the receiver.  A name is relative
only as it is written: `self` is, `\self` is not.  An operation that drops a separator can therefore
make a relative name out of one that was none.

**Absolute types.**  `Ty.Absolute`: no name is relative, however many separators are dropped.  A plain
type (`Ty.Plain`), in which no relative name hides behind separators, becomes absolute where its
relative names are filled in with absolute ones (`Ty.Plain.resolveRelative`).
-/

namespace FlowTyping

open Context Index List Name Option State Ty

variable {cx : Context} {name receiver : String} {t : Ty}

/-- Every type that the scope records lies in `P`. -/
structure Scope.TypesIn (P : Ty → Prop) (s : Scope) (σ : Store) : Prop where
  vars : ∀ name v, s.var? σ name = some v → v.TypeIn P
  chains : ∀ e ∈ s.chains.entries, P e.2

/-- The scopes that a state holds: those on the stack, those at the places that leave loops early,
and those that conditions imply. -/
def State.heldScopes (st : State) : List Scope :=
  st.stack.scopes ++ st.breaks.flatten ++ st.table.assertions.log.flatMap fun r => r.2.scopes

/-- Every type that the state records lies in `P`. -/
structure State.TypesIn (P : Ty → Prop) (st : State) : Prop where
  nodes : ∀ r ∈ st.table.types.log, P r.2
  scopes : ∀ s ∈ st.heldScopes, s.TypesIn P st.store
  events : ∀ e ∈ st.events, e.TypesIn P

variable {P : Ty → Prop} {st st' : State} {budget : Nat} {id : NodeId}

lemma State.TypesIn.imp {Q : Ty → Prop} (hPQ : ∀ t, P t → Q t) (h : st.TypesIn P) :
    st.TypesIn Q where
  nodes r hr := hPQ _ (h.nodes r hr)
  scopes s hs := ⟨fun name v hv => ((h.scopes s hs).vars name v hv).imp hPQ,
    fun e he => hPQ _ ((h.scopes s hs).chains e he)⟩
  events e he := (h.events e he).imp hPQ

lemma Scope.Wf.typesIn {s : Scope} {σ : Store} (h : s.Wf P σ) (hσ : σ.TypesIn P) :
    s.TypesIn P σ := by
  refine ⟨fun name v hv => ?_, h.chains⟩
  obtain ⟨slot, -, rfl⟩ := map_eq_some_iff.1 hv
  exact hσ slot

lemma State.Wf.typesIn (h : st.Wf P) : st.TypesIn P := by
  refine ⟨h.table.types, fun s hs => ?_, h.events⟩
  refine Scope.Wf.typesIn ?_ h.types
  rw [heldScopes, mem_append, mem_append, mem_flatMap] at hs
  rcases hs with (hs | hs) | ⟨r, hr, hs⟩
  · exact h.stack s hs
  · exact h.breaks s hs
  · exact h.table.implied r hr s hs

lemma wf_of_infer (hP : Closed P) (hindex : cx.index.TypesIn P) {type : Option Ty}
    (hst : st.Wf P) (h : (evaluator budget).infer id cx st = some (type, st')) :
    KnownIn P type ∧ st'.Wf P := by
  obtain ⟨hstep, htype⟩ :=
    ((evaluator_keeps hP hindex budget).infer id).step (hst.fit hP.ofName) h
  exact ⟨htype, hstep.wf⟩

lemma wf_of_check (hP : Closed P) (hindex : cx.index.TypesIn P) {flow : Flow} (hst : st.Wf P)
    (h : (evaluator budget).check id cx st = some (flow, st')) : st'.Wf P :=
  (((evaluator_keeps hP hindex budget).check id).step (hst.fit hP.ofName) h).1.wf

/-- Where a check returns, every type in its index and every type that the analysis of a file
records is in normal form: at the start, behind every step of evaluation, and at the end. -/
theorem checkUnits_normal {units : List SourceUnit} {options : Options}
    {reports : List FileReport} (h : checkUnits units options = some reports) :
    ∃ index, builtin.addUnits units = some index ∧ index.TypesIn Normal ∧
      (initial options).Wf Normal ∧
      ∀ unit ∈ units,
        (∃ st, unit.analyze index options = some st ∧ st.TypesIn Normal) ∧
        ∀ (budget : Nat) (id : NodeId) (st : State), st.Wf Normal → st.TypesIn Normal ∧
          (∀ type st', (evaluator budget).infer id ⟨unit.arena, index, options⟩ st = some (type, st') →
            KnownIn Normal type ∧ st'.Wf Normal) ∧
          ∀ flow st', (evaluator budget).check id ⟨unit.arena, index, options⟩ st = some (flow, st') →
            st'.Wf Normal := by
  obtain ⟨index, hadd, hreports⟩ := bind_eq_some_iff.1 h
  have hindex := (typesIn_builtin closed_normal).addUnits closed_normal hadd
  refine ⟨index, hadd, hindex, wf_initial closed_normal options, fun unit hunit => ⟨?_, ?_⟩⟩
  · obtain ⟨report, -, hreport⟩ := exists_of_mapM_of_mem hreports hunit
    obtain ⟨st, hst, -⟩ := bind_eq_some_iff.1 hreport
    exact ⟨st, hst, (SourceUnit.wf_of_analyzeUpTo closed_normal hindex hst).typesIn⟩
  · intro budget id st hst
    exact ⟨hst.typesIn, fun _ _ hrun => wf_of_infer closed_normal hindex hst hrun,
      fun _ _ hrun => wf_of_check closed_normal hindex hst hrun⟩

/-- `$x = 1; if ($x) { $x = "a"; }` -/
def intOrString : SourceUnit :=
  Build.result do
    let one ← Build.expr (.int 1)
    let first ← Build.assignStmt "x" one
    let condition ← Build.expr (.var "x")
    let text ← Build.expr (.string "a")
    let second ← Build.assignStmt "x" text
    let branch ← Build.stmt (.simpleIf condition [second] none)
    Build.finish "unit" [first, branch]

theorem checkUnits_normal_intOrString :
    (checkUnits [intOrString] {}).isSome ∧
      ∃ index, builtin.addUnits [intOrString] = some index ∧ index.TypesIn Normal ∧
        ∃ st, intOrString.analyze index {} = some st ∧ st.TypesIn Normal := by
  have hsome : (checkUnits [intOrString] {}).isSome := by decide +kernel
  obtain ⟨reports, hreports⟩ := isSome_iff_exists.1 hsome
  obtain ⟨index, hadd, hindex, -, hunits⟩ := checkUnits_normal hreports
  exact ⟨hsome, index, hadd, hindex, (hunits intOrString (.head _)).1⟩

namespace Name

/-- The name is not relative, with or without separators in front. -/
def isAbsolute (name : String) : Bool :=
  !isRelativeName (unqualified name)

lemma unqualified_unqualified (name : String) :
    unqualified (unqualified name) = unqualified name := by
  simp [unqualified, dropWhile_idempotent]

lemma unqualified_dropSeparator (name : String) :
    unqualified (dropSeparator name) = unqualified name := by
  unfold dropSeparator
  split
  · next rest h => simp [unqualified, h]
  · rfl

lemma isAbsolute_dropSeparator (name : String) : isAbsolute (dropSeparator name) = isAbsolute name := by
  rw [isAbsolute, unqualified_dropSeparator, isAbsolute]

lemma unqualified_of_sameWord {word : String} (h : sameWord name word = true)
    (hword : (foldCase word).toList.head? ≠ some '\\') : unqualified name = name := by
  rw [sameWord, beq_iff_eq] at h
  rw [← h] at hword
  cases hlist : name.toList with
  | nil => simp [unqualified, hlist, ← String.toList_inj]
  | cons c cs =>
    have hc : (c == '\\') = false := by
      rw [beq_eq_false_iff_ne]
      rintro rfl
      exact hword (by simp [foldCase, hlist])
    rw [unqualified, hlist, dropWhile_cons_of_neg (by simp [hc]), ← hlist, String.ofList_toList]

lemma unqualified_of_isRelativeName (h : isRelativeName name = true) :
    unqualified name = name := by
  simp only [isRelativeName, Bool.or_eq_true, beq_iff_eq] at h
  rcases h with ((h | h) | h) | rfl
  · exact unqualified_of_sameWord h (by decide)
  · exact unqualified_of_sameWord h (by decide)
  · exact unqualified_of_sameWord h (by decide)
  · decide

lemma isRelativeName_of_isAbsolute (h : isAbsolute name = true) :
    isRelativeName name = false := by
  cases hrel : isRelativeName name with
  | false => rfl
  | true =>
    rw [isAbsolute, unqualified_of_isRelativeName hrel, hrel] at h
    cases h

end Name

namespace Ty

/-- No name in the type is relative, with or without separators in front. -/
def Absolute (t : Ty) : Prop :=
  t.NamesIn fun name => isAbsolute name = true

/-- A name in the type is relative as it is written, or not at all. -/
def Plain (t : Ty) : Prop :=
  t.NamesIn fun name => isRelativeName name = true ∨ isAbsolute name = true

instance (t : Ty) : Decidable t.Absolute :=
  inferInstanceAs (Decidable (t.NamesIn _))

instance (t : Ty) : Decidable t.Plain :=
  inferInstanceAs (Decidable (t.NamesIn _))

lemma Absolute.plain (h : t.Absolute) : t.Plain :=
  h.imp fun _ => .inr

lemma Absolute.hasRelative (h : t.Absolute) : t.hasRelative = false :=
  hasRelative_eq_false_iff.2 (h.imp fun _ => isRelativeName_of_isAbsolute)

lemma absolute_named : (named name).Absolute ↔ isAbsolute name = true := by
  simp [Absolute, NamesIn, names]

lemma absolute_ofClass (h : (named name).Absolute) : (ofClass name).Absolute := by
  rw [ofClass, absolute_named, isAbsolute_dropSeparator]
  exact absolute_named.1 h

lemma absolute_ofClass? {cls : Option String} (h : ∀ name, cls = some name → (named name).Absolute) :
    (ofClass? cls).Absolute := by
  cases cls with
  | none => exact fun _ hname => nomatch hname
  | some name => exact absolute_ofClass (h name rfl)

/-! ## Operations -/

section NamesIn

variable {p : String → Prop}

lemma parts_namesIn (p : String → Prop) : Parts (NamesIn p) where
  primitive _ _ hname := nomatch hname
  nullable _ h := h
  of_union _ h t ht name hname := h name (mem_namesOfAll.2 ⟨t, ht, hname⟩)
  union _ h _ name hname := by
    obtain ⟨t, ht, hname⟩ := mem_namesOfAll.1 hname
    exact h t ht name hname

mutual
theorem namesIn_mapNames {f : String → Option Ty} {t : Ty}
    (h : ∀ name ∈ t.names, ((f name).getD (.named name)).NamesIn p) : (t.mapNames f).NamesIn p := by
  match t with
  | .named name => exact h name (.head _)
  | .primitive _ => exact (parts_namesIn p).primitive _
  | .nullable inner =>
    refine (parts_namesIn p).unionOf fun u hu => ?_
    rcases mem_cons.1 hu with rfl | hu
    · exact namesIn_mapNames h
    · exact mem_singleton.1 hu ▸ (parts_namesIn p).primitive .null
  | .union members => exact (parts_namesIn p).unionOf (namesIn_mapNamesAll h)
  | .inter members =>
    intro name hname
    obtain ⟨u, hu, hname⟩ := mem_namesOfAll.1 hname
    exact namesIn_mapNamesAll h u hu name hname
theorem namesIn_mapNamesAll {f : String → Option Ty} {ts : List Ty}
    (h : ∀ name ∈ namesOfAll ts, ((f name).getD (.named name)).NamesIn p) :
    ∀ u ∈ mapNamesAll f ts, u.NamesIn p := by
  match ts with
  | [] => exact fun _ hu => nomatch hu
  | t :: ts =>
    rw [namesOfAll, forall_mem_append] at h
    exact forall_mem_cons.2 ⟨namesIn_mapNames h.1, namesIn_mapNamesAll h.2⟩
end

end NamesIn

lemma stable_absolute : Stable Absolute where
  primitive := (parts_namesIn _).primitive
  unionOf _ h := (parts_namesIn _).unionOf h
  stripNull _ h := (parts_namesIn _).stripNull h
  without _ name h := (parts_namesIn _).without h name
  named _ name h hname := absolute_named.2 (h name hname)
  dropSeparator _ h := absolute_ofClass h
  closureClass := by decide

lemma Plain.absolute (h : t.Plain) (hnone : t.hasRelative = false) : t.Absolute :=
  fun name hname => (h name hname).resolve_left (by simp [hasRelative_eq_false_iff.1 hnone name hname])

lemma Plain.resolveRelative (h : t.Plain) {this parent : Option String}
    (hthis : ∀ name, this = some name → (named name).Absolute)
    (hparent : ∀ name, parent = some name → (named name).Absolute) :
    (t.resolveRelative this parent).Absolute := by
  unfold Ty.resolveRelative
  split
  · refine namesIn_mapNames fun name hname => ?_
    split
    · exact absolute_ofClass? hparent
    · split
      · exact absolute_ofClass? hthis
      · next hrel => exact absolute_named.2 ((h name hname).resolve_left hrel)
  · next hrel => exact h.absolute (by simpa using hrel)

lemma Plain.rebindSelf (h : t.Plain) (hreceiver : (named receiver).Absolute) :
    (t.rebindSelf receiver).Plain := by
  unfold Ty.rebindSelf
  split
  · refine namesIn_mapNames fun name hname => ?_
    split
    · exact (absolute_ofClass hreceiver).plain
    · exact fun other hother => mem_singleton.1 hother ▸ h name hname
  · exact h

end Ty

/-- The classes that classes of the index extend. -/
def Index.parents (index : Index) : List String :=
  index.classes.entries.filterMap fun e => e.2.parent

/-- There is no relative name in the types of functions and constants, among the names of classes
and of those they extend, and `$this` is not written for a class. -/
structure Context.ConfinesRelative (cx : Context) : Prop where
  returns : ∀ t ∈ cx.index.returnTypes, t.Absolute
  constants : ∀ t ∈ cx.index.constantTypes, t.Absolute
  parents : ∀ name ∈ cx.index.parents, isAbsolute name = true
  classes : ∀ c ∈ cx.arena.declaredClasses, isAbsolute c.name = true ∧
    ∀ name ∈ c.parent, isAbsolute name = true
  references : ∀ name ∈ cx.arena.classNames, unqualified name ≠ "$this"

instance (cx : Context) : Decidable cx.ConfinesRelative :=
  decidable_of_iff ((∀ t ∈ cx.index.returnTypes, t.Absolute) ∧
      (∀ t ∈ cx.index.constantTypes, t.Absolute) ∧
      (∀ name ∈ cx.index.parents, isAbsolute name = true) ∧
      (∀ c ∈ cx.arena.declaredClasses, isAbsolute c.name = true ∧
        ∀ name ∈ c.parent, isAbsolute name = true) ∧
      ∀ name ∈ cx.arena.classNames, unqualified name ≠ "$this")
    ⟨fun ⟨hr, hc, hp, hd, hn⟩ => ⟨hr, hc, hp, hd, hn⟩,
      fun h => ⟨h.returns, h.constants, h.parents, h.classes, h.references⟩⟩

/-! ## The ways into an analysis -/

lemma Ty.Plain.resolvesIn (h : t.Plain) : t.ResolvesIn Absolute where
  outside := h.resolveRelative (fun _ hnone => nomatch hnone) fun _ hnone => nomatch hnone
  inside c hc := by
    refine h.resolveRelative (fun name hname => ?_) hc.parent
    cases hname
    exact hc.name

lemma Ty.Plain.memberType (hparents : ∀ name ∈ cx.index.parents, isAbsolute name = true)
    (h : t.Plain) (hreceiver : (named receiver).Absolute) :
    (cx.memberType t receiver).Absolute := by
  unfold Context.memberType
  split
  · refine (h.rebindSelf hreceiver).resolveRelative (fun name hname => ?_) fun name hname => ?_
    · cases hname
      exact hreceiver
    · obtain ⟨info, hinfo, hparent⟩ := bind_eq_some_iff.1 hname
      have hmem : name ∈ cx.index.parents :=
        mem_filterMap.2 ⟨_, Dict.mem_of_find hinfo, hparent⟩
      exact absolute_named.2 (hparents name hmem)
  · next hrel => exact h.absolute (by simpa using hrel)

lemma Name.meansIn_absolute (h : unqualified name ≠ "$this") : Name.MeansIn Absolute name := by
  intro stack hstack cls hcls
  unfold Stack.resolveClass? at hcls
  dsimp only at hcls
  split at hcls
  · obtain ⟨c, hc, rfl⟩ := map_eq_some_iff.1 hcls
    exact (hstack c (mem_of_head? hc)).name
  · next hself =>
    split at hcls
    · obtain ⟨c, hc, hparent⟩ := bind_eq_some_iff.1 hcls
      exact (hstack c (mem_of_head? hc)).parent cls hparent
    · next hparent =>
      cases hcls
      rw [absolute_named, isAbsolute, unqualified_unqualified]
      simp_all [isRelativeName]

lemma Context.ConfinesRelative.declaresIn (h : cx.ConfinesRelative)
    (hmembers : ∀ t ∈ cx.index.memberTypes, t.Plain)
    (hdeclared : ∀ t ∈ cx.arena.declaredTypes, t.Plain) : cx.DeclaresIn Absolute where
  returns := h.returns
  constants := h.constants
  members t ht _ hreceiver := (hmembers t ht).memberType h.parents hreceiver
  types t ht := (hdeclared t ht).resolvesIn
  names name hname := meansIn_absolute (h.references name hname)
  classes c hc := by
    obtain ⟨hname, hparent⟩ := h.classes c hc
    exact ⟨absolute_named.2 hname, fun name hn => absolute_named.2 (hparent name hn)⟩

/-! ## All that is recorded -/

/-- Where relative names are confined, and none hides behind separators in a type that is filled in,
the analysis of a file knows absolute types only: at its start and behind every step.  No type that
it records has a relative name, in the table of nodes, in a variable or chain of a scope on the
stack, of one that waits in a break frame or of one that a condition implies, or in the record of
what was passed. -/
theorem relative_names_resolved {unit : SourceUnit} {index : Index} {options : Options}
    (hconfined : ConfinesRelative ⟨unit.arena, index, options⟩)
    (hmembers : ∀ t ∈ index.memberTypes, t.Plain)
    (hdeclared : ∀ t ∈ unit.arena.declaredTypes, t.Plain) :
    (initial options).Fit Absolute ∧
      (∀ (budget : Nat) (id : NodeId) (st : State), st.Fit Absolute →
        st.TypesIn (fun t => t.hasRelative = false) ∧
        (∀ type st', (evaluator budget).infer id ⟨unit.arena, index, options⟩ st = some (type, st') →
          KnownIn (fun t => t.hasRelative = false) type ∧ st'.Fit Absolute) ∧
        ∀ flow st', (evaluator budget).check id ⟨unit.arena, index, options⟩ st = some (flow, st') →
          st'.Fit Absolute) ∧
      ∀ st, unit.analyze index options = some st → st.TypesIn fun t => t.hasRelative = false := by
  have hnone : ∀ t : Ty, t.Absolute → t.hasRelative = false := fun _ ht => ht.hasRelative
  have hcx := hconfined.declaresIn hmembers hdeclared
  have hev := evaluator_keeps_declared stable_absolute hcx
  refine ⟨fit_initial stable_absolute options, fun budget id st hst => ⟨?_, ?_, ?_⟩, ?_⟩
  · exact hst.toWf.typesIn.imp hnone
  · intro type st' h
    obtain ⟨hstep, htype⟩ := ((hev budget).infer id).step hst h
    exact ⟨htype.imp hnone, hstep.fit hst⟩
  · intro flow st' h
    exact (((hev budget).check id).step hst h).1.fit hst
  · intro st h
    exact (SourceUnit.wf_of_declaresIn stable_absolute hcx h).typesIn.imp hnone

/-- `class Node { /** @param static $other */ function next(self $of, $other): static {
$made = new static; return $of->next($other); } }`, where the call is node 6. -/
def chainedNodes : SourceUnit :=
  Build.result do
    let fresh ← Build.expr (.newNamed "static" [])
    let made ← Build.assignStmt "made" fresh
    let receiver ← Build.expr (.var "of")
    let other ← Build.expr (.var "other")
    let call ← Build.expr (.callMethod receiver "next" [other] false)
    let leave ← Build.stmt (.returnStmt (some call))
    let next ← Build.stmt (.method {
      name := "next"
      params := [{ name := "of", typeHint := some (.named "self") }, { name := "other" }]
      returnType := some (.named "static")
      body := some [made, leave]
      docComment := some "/** @param static $other */" })
    let node ← Build.stmt (.classDecl { name := "Node", members := [next] })
    Build.finish "unit" [node]

theorem relative_names_resolved_chainedNodes :
    (chainedNodes.arena.declaredTypes.map render = ["self", "static"]) ∧
      ∃ index, addUnits {} [chainedNodes] = some index ∧
        index.memberTypes.map render = ["static"] ∧
        ∃ st, chainedNodes.analyze index {} = some st ∧
          renderOption (st.table.types.get? 6) = "Node" ∧
          st.TypesIn fun t => t.hasRelative = false := by
  have hindex : (addUnits {} [chainedNodes]).any (fun index => decide
      (index.memberTypes.map render = ["static"] ∧ (∀ t ∈ index.memberTypes, t.Plain) ∧
        ConfinesRelative ⟨chainedNodes.arena, index, {}⟩) &&
      (chainedNodes.analyze index {}).any fun st =>
        renderOption (st.table.types.get? 6) == "Node") = true := by decide +kernel
  obtain ⟨index, hadd, hindex⟩ := (Option.any_eq_true ..).1 hindex
  rw [Bool.and_eq_true, decide_eq_true_eq] at hindex
  obtain ⟨⟨hrender, hmembers, hconfined⟩, hrun⟩ := hindex
  obtain ⟨st, hst, htype⟩ := (Option.any_eq_true ..).1 hrun
  have hdeclared : ∀ t ∈ chainedNodes.arena.declaredTypes, t.Plain := by decide +kernel
  exact ⟨by decide +kernel, index, hadd, hrender, st, hst, by simpa using htype,
    (relative_names_resolved hconfined hmembers hdeclared).2.2 st hst⟩

/-- `function f(\\self $x) { return new $x; }`, where the new object is node 1. -/
def hiddenSelf : SourceUnit :=
  Build.result do
    let name ← Build.expr (.var "x")
    let made ← Build.expr (.new (.dynamic name) [])
    let leave ← Build.stmt (.returnStmt (some made))
    let f ← Build.stmt (.function {
      name := "f", params := [{ name := "x", typeHint := some (.named "\\\\self") }], body := [leave] })
    Build.finish "unit" [f]

/-- A relative name behind separators is not filled in.  Each of the two places that it passes drops
one separator, and an object of the class `self` is recorded. -/
theorem hidden_self_recorded :
    ∃ index, addUnits {} [hiddenSelf] = some index ∧
      ConfinesRelative ⟨hiddenSelf.arena, index, {}⟩ ∧
      (∀ t ∈ index.memberTypes, t.Plain) ∧
      ∃ st, hiddenSelf.analyze index {} = some st ∧
        (st.table.types.get? 1).any hasRelative = true := by
  have hindex : (addUnits {} [hiddenSelf]).any (fun index => decide
      (ConfinesRelative ⟨hiddenSelf.arena, index, {}⟩ ∧
        ∀ t ∈ index.memberTypes, t.Plain) &&
      (hiddenSelf.analyze index {}).any fun st =>
        (st.table.types.get? 1).any hasRelative) = true := by decide +kernel
  obtain ⟨index, hadd, hindex⟩ := (Option.any_eq_true ..).1 hindex
  rw [Bool.and_eq_true, decide_eq_true_eq] at hindex
  obtain ⟨st, hst, htype⟩ := (Option.any_eq_true ..).1 hindex.2
  exact ⟨index, hadd, hindex.1.1, hindex.1.2, st, hst, htype⟩

end FlowTyping

import FlowTyping.Check.Report
import FlowTyping.Proofs.Compare.Rules

/-!
# Checks are observers

The options that choose checks, strict types and the reads of closures say what is reported, not how
a file is analysed.  Two analyses whose other options agree pass the same nodes with the same types
and the same names in scope; they differ at most in what counts as read and as strict.
-/

namespace FlowTyping

open Index List Option Scope State

variable {check : Check} {options left right : Options} {unit : SourceUnit}

/-- The options that types and names in scope depend on are the same. -/
structure Options.SameAnalysis (left right : Options) : Prop where
  maxDepth : left.maxDepth = right.maxDepth
  narrowLooseNull : left.narrowLooseNull = right.narrowLooseNull
  superglobals : left.superglobals = right.superglobals

lemma Options.SameAnalysis.refl (options : Options) : options.SameAnalysis options :=
  ⟨rfl, rfl, rfl⟩

lemma Options.SameAnalysis.symm (h : left.SameAnalysis right) : right.SameAnalysis left :=
  ⟨h.maxDepth.symm, h.narrowLooseNull.symm, h.superglobals.symm⟩

/-- The diagnostics of a report that have a code. -/
def FileReport.withCode (r : FileReport) (code : UInt32) : List Diagnostic :=
  r.diagnostics.filter fun d => d.code == code

/-! ## Two analyses of one file -/

section Analyses

/-- The records say the same, up to what counts as read and as strict. -/
abbrev RecordsLike : List Event → List Event → Prop :=
  Forall₂ (Event.Like ⟨True, False, False⟩ Eq)

/-- The analyses of one file with options that agree; the right one takes over the reads of closures
where the left one does. -/
def Comparison.ofOptions (arena : Arena) (index : Index) (h : left.SameAnalysis right)
    (hreads : left.propagateClosureUsage = true → right.propagateClosureUsage = true) :
    Comparison where
  arena := arena
  leftIndex := index
  rightIndex := index
  leftOptions := left
  rightOptions := right
  exact := ⟨True, False, False⟩
  nodes _ := True
  around := Eq
  types := Eq
  kept _ _ := True
  events := RecordsLike
  index_same := .refl _
  maxDepth_eq := h.maxDepth
  narrowLooseNull_eq := h.narrowLooseNull
  superglobals_eq := h.superglobals
  propagate _ := ⟨hreads, False.elim⟩
  nodes_expr _ _ _ _ := trivial
  nodes_stmt _ _ _ _ := trivial
  around_self _ := rfl
  around_expects heq _ := by rw [heq]
  types_get heq _ := by rw [heq]
  types_insert t heq _ := by rw [heq]
  kept_insert _ _ _ _ _ := trivial
  kept_erase _ _ _ := trivial
  events_cons hes _ he := .cons he hes

namespace Comparison

open Analysis

lemma checkFile {C : Comparison} {ρ : Matching} {ev : Evaluator} (hev : C.Evaluates ev)
    (root : NodeId) (hroot : C.nodes root) :
    C.Self ρ (ev.checkFile root) := by
  refine Sim.read ?_
  rw [left_arena, right_arena]
  split
  · next hstmt =>
    refine (modifyStack fun _ _ _ _ hk => hk.pushNode (C.around_self hroot)).bind fun _ _ _ => ?_
    refine (hev.checkAll (C.nodes_stmt hroot hstmt)).bind fun _ _ _ => ?_
    exact modifyStack fun _ _ _ _ hk => hk.popNode
  · exact (hev.check hroot).result
  · exact Same.pure

lemma states_initial (C : Comparison)
    (hstrict : C.exact.reads → C.leftOptions.strictTypes = C.rightOptions.strictTypes)
    (htypes : C.types {} {}) (hkept : C.kept {} {}) (hevents : C.events [] []) :
    ∃ ρ, C.States ρ (initial C.leftOptions) (initial C.rightOptions) := by
  have hroot : Like C.exact (fun _ _ => False)
      { flags := { isGlobal := true, isStrict := C.leftOptions.strictTypes } }
      { flags := { isGlobal := true, isStrict := C.rightOptions.strictTypes } } :=
    ⟨.nil, rfl, .strict { isGlobal := true } hstrict, fun _ => rfl⟩
  have hempty : Store.Like C.exact (fun _ _ => False) {} {} :=
    ⟨False.elim, False.elim, fun hij => hij.elim, False.elim⟩
  obtain ⟨ρ, -, hσ, hst⟩ := hroot.addSuperglobals C.leftOptions.superglobals le_rfl hempty
  have hright : initial C.rightOptions =
      { store := (addSuperglobals C.leftOptions.superglobals
          { flags := { isGlobal := true, isStrict := C.rightOptions.strictTypes } } {}).2
        stack := { root := (addSuperglobals C.leftOptions.superglobals
          { flags := { isGlobal := true, isStrict := C.rightOptions.strictTypes } } {}).1 } } := by
    rw [C.superglobals_eq]
    rfl
  rw [hright]
  exact ⟨ρ, hσ, ⟨hst, .nil, rfl, .nil⟩, ⟨htypes, fun _ => .none, hkept⟩, .nil, rfl, hevents⟩

end Comparison

lemma analyze_like (unit : SourceUnit) (index : Index) (h : left.SameAnalysis right)
    (hreads : left.propagateClosureUsage = true → right.propagateClosureUsage = true) :
    Rel (fun st st' => st.table.types = st'.table.types ∧
        RecordsLike st.events st'.events)
      (unit.analyze index left) (unit.analyze index right) := by
  obtain ⟨ρ, hinitial⟩ := (Comparison.ofOptions unit.arena index h hreads).states_initial
    False.elim rfl trivial .nil
  have hbudget : unit.budget left = unit.budget right := by
    rw [SourceUnit.budget, SourceUnit.budget, h.maxDepth]
  rw [SourceUnit.analyze, SourceUnit.analyze, hbudget]
  have hrun := Comparison.checkFile (ρ := ρ)
    ((Comparison.ofOptions unit.arena index h hreads).evaluator (unit.budget right))
    unit.root trivial (le_refl ρ) hinitial
  refine rel_map hrun ?_
  rintro r r' ⟨ρ', -, hst, -⟩
  exact ⟨hst.table.types, hst.events⟩

end Analyses

/-! ## What checks find -/

section Findings

variable {exact : Exactness} {v w : ScopeView} {e e' : Event} {es es' : List Event}

/-- The number of what a check reports. -/
def Check.code : Check → UInt32
  | undefinedVariable => Message.undefinedVariable.code
  | unusedVariable => Message.unusedVariable.code

lemma Check.code_of_mem_findings {event : Event} {d : Diagnostic}
    (h : d ∈ check.findings unit event) : d.code = check.code := by
  unfold findings at h
  split at h
  · obtain ⟨name, -, rfl⟩ := mem_map.1 h
    rfl
  · obtain ⟨v, -, rfl⟩ := mem_map.1 h
    rfl
  · cases h

lemma Check.filter_findings (check other : Check) (event : Event) :
    (other.findings unit event).filter (fun d => d.code == check.code) =
      if other = check then check.findings unit event else [] := by
  split
  · next heq =>
    subst heq
    refine filter_eq_self.2 fun d hd => ?_
    rw [code_of_mem_findings hd, beq_self_eq_true]
  · next hne =>
    refine filter_eq_nil_iff.2 fun d hd => ?_
    rw [code_of_mem_findings hd]
    cases other <;> cases check <;> first | exact absurd rfl hne | decide

lemma State.filter_diagnostics (st : State) (h : options.isEnabled check.id = true) :
    (st.diagnostics unit options.enabledChecks).filter (fun d => d.code == check.code) =
      st.history.flatMap (check.findings unit) := by
  have hone : ∀ event, (options.enabledChecks.flatMap fun other =>
      if other = check then check.findings unit event else []) = check.findings unit event := by
    intro event
    unfold Options.enabledChecks Check.all
    simp only [filter_cons, filter_nil]
    cases check with
    | undefinedVariable | unusedVariable => simp only [h, reduceIte]; split <;> simp
  rw [diagnostics, filter_flatMap]
  refine congrArg (st.history.flatMap ·) (funext fun event => ?_)
  rw [filter_flatMap]
  simp only [Check.filter_findings]
  exact hone event

/-! ### Undefined variables -/

lemma ScopeView.Like.contains (h : v.Like exact w)
    (name : String) : v.contains name = w.contains name := by
  have hvars := h.vars
  unfold ScopeView.contains
  generalize v.vars = vs at hvars ⊢
  generalize w.vars = ws at hvars ⊢
  induction hvars with
  | nil => rfl
  | @cons e f es fs hef _ ih =>
    obtain ⟨key, x⟩ := e
    obtain ⟨key', y⟩ := f
    obtain ⟨rfl, -⟩ := hef
    rw [any_cons, any_cons, ih]

lemma Visit.undefined?_eq {v w : Visit} {arena : Arena}
    (h : (Event.visited v).Like exact Eq (.visited w))
    : v.undefined? arena = w.undefined? arena := by
  cases h with
  | visited hnode _ hancestors hcls hscope =>
    rw [forall₂_eq_eq_eq] at hancestors
    unfold undefined?
    rw [hnode, hancestors, hcls, funext hscope.contains, hscope.flags.isDynamic]

lemma undefined_eq (h : e.Like ⟨True, False, False⟩ Eq e') :
    Check.undefinedVariable.findings unit e = Check.undefinedVariable.findings unit e' := by
  cases h with
  | left function hview => rfl
  | @visited v w hnode htype hancestors hcls hscope =>
    show (v.undefined? unit.arena).toList.map _ = (w.undefined? unit.arena).toList.map _
    rw [Visit.undefined?_eq (.visited hnode htype hancestors hcls hscope), hnode]

lemma flatMap_undefined_eq (h : RecordsLike es es') :
    es.flatMap (Check.undefinedVariable.findings unit) =
      es'.flatMap (Check.undefinedVariable.findings unit) := by
  induction h with
  | nil => rfl
  | cons he _ ih => rw [flatMap_cons, flatMap_cons, undefined_eq he, ih]

/-! ### Unused variables -/

lemma reportedUnused_sublist (h : v.Like ⟨True, False, False⟩ w) (file : String) (code : UInt32) :
    (w.reportedUnused.map fun x => Diagnostic.ofCode file x.line code [x.name]).Sublist
      (v.reportedUnused.map fun x => Diagnostic.ofCode file x.line code [x.name]) := by
  have hvars := h.vars
  unfold ScopeView.reportedUnused
  rw [h.flags.isGlobal trivial, h.flags.isDynamic]
  split
  · exact .refl _
  unfold ScopeView.unusedVars
  generalize v.vars = vs at hvars ⊢
  generalize w.vars = ws at hvars ⊢
  induction hvars with
  | nil => exact .refl _
  | @cons e f es fs hef _ ih =>
    have hunused : ScopeView.isUnused f.2 = true → ScopeView.isUnused e.2 = true := by
      simp only [ScopeView.isUnused, Bool.and_eq_true, Bool.not_eq_true', hef.2.kind trivial,
        hef.2.written trivial, hef.2.byReference trivial]
      rintro ⟨⟨⟨hkind, hwritten⟩, hused⟩, href⟩
      refine ⟨⟨⟨hkind, hwritten⟩, ?_⟩, href⟩
      cases he : e.2.used with
      | false => rfl
      | true => rw [(hef.2.used trivial).1 he] at hused; cases hused
    rw [map_cons, map_cons, filter_cons, filter_cons]
    cases hright : ScopeView.isUnused f.2 with
    | true =>
      rw [hunused hright, if_pos rfl, if_pos rfl, filter_cons, filter_cons, hef.2.name]
      split
      · rw [map_cons, map_cons, hef.2.line, hef.2.name]
        exact ih.cons_cons _
      · exact ih
    | false =>
      refine ih.trans (Sublist.map _ (Sublist.filter _ ?_))
      split
      · exact sublist_cons_self ..
      · exact .refl _

lemma unused_sublist (h : e.Like ⟨True, False, False⟩ Eq e') :
    (Check.unusedVariable.findings unit e').Sublist (Check.unusedVariable.findings unit e) := by
  cases h with
  | visited _ _ _ _ _ => exact .refl _
  | left function hview => exact reportedUnused_sublist hview _ _

lemma flatMap_unused_sublist (h : RecordsLike es es') :
    (es'.flatMap (Check.unusedVariable.findings unit)).Sublist
      (es.flatMap (Check.unusedVariable.findings unit)) := by
  induction h with
  | nil => exact .refl _
  | cons he _ ih =>
    exact (unused_sublist he).append ih

end Findings

/-! ## Sorting -/

section Sorting

variable {α : Type} {le : α → α → Bool} {xs ys : List α}
  (htrans : ∀ a b c, le a b = true → le b c = true → le a c = true)
  (htotal : ∀ a b, (le a b || le b a) = true)

include htrans htotal

/-- Where an element goes among sorted ones: behind those that come before it and in front of the
others. -/
lemma mergeSort_insert (a : α) (xs : List α) :
    ((a :: xs).mergeSort le) = (xs.mergeSort le).filter (fun b => !le a b) ++
      a :: (xs.mergeSort le).filter (le a) := by
  obtain ⟨before, behind, hcons, hrest, hbefore⟩ := mergeSort_cons htrans htotal a xs
  have hsorted := pairwise_mergeSort htrans htotal (a :: xs)
  rw [hcons, pairwise_append, pairwise_cons] at hsorted
  have hbehind : ∀ b ∈ behind, le a b = true := hsorted.2.1.1
  have hbefore : ∀ b ∈ before, le a b = false := by simpa using hbefore
  rw [hcons, hrest, filter_append, filter_append]
  rw [filter_eq_self.2 fun b hb => by rw [hbefore b hb]; rfl,
    filter_eq_nil_iff.2 fun b hb => by rw [hbehind b hb]; decide,
    filter_eq_nil_iff.2 fun b hb => by rw [hbefore b hb]; decide,
    filter_eq_self.2 hbehind, append_nil, nil_append]

lemma mergeSort_sublist (h : ys.Sublist xs) : (ys.mergeSort le).Sublist (xs.mergeSort le) := by
  induction h with
  | slnil => exact .refl _
  | @cons ys xs a _ ih =>
    obtain ⟨before, behind, hcons, hrest, -⟩ := mergeSort_cons htrans htotal a xs
    rw [hcons]
    rw [hrest] at ih
    exact ih.trans ((sublist_cons_self a behind).append_left before)
  | @cons_cons ys xs a _ ih =>
    rw [mergeSort_insert htrans htotal, mergeSort_insert htrans htotal]
    exact (ih.filter _).append ((ih.filter _).cons_cons a)

lemma filter_mergeSort (p : α → Bool) (xs : List α) :
    (xs.mergeSort le).filter p = (xs.filter p).mergeSort le := by
  have hpicked : (xs.filter p).Sublist xs := filter_sublist
  have hsublist := (mergeSort_sublist htrans htotal hpicked).filter p
  have hall : ((xs.filter p).mergeSort le).filter p = (xs.filter p).mergeSort le :=
    filter_eq_self.2 fun a ha =>
      (mem_filter.1 ((mergeSort_perm _ le).mem_iff.1 ha)).2
  rw [hall] at hsublist
  refine (hsublist.eq_of_length ?_).symm
  rw [length_mergeSort]
  exact ((mergeSort_perm xs le).filter p).length_eq.symm

end Sorting

lemma Diagnostic.precedes_iff {a b : Diagnostic} :
    a.precedes b = true ↔ a.line < b.line ∨ (a.line = b.line ∧ a.code ≤ b.code) := by
  simp only [Diagnostic.precedes, Bool.or_eq_true, Bool.and_eq_true, decide_eq_true_eq,
    beq_iff_eq]

lemma Diagnostic.precedes_trans (a b c : Diagnostic) (hab : a.precedes b = true)
    (hbc : b.precedes c = true) : a.precedes c = true := by
  rw [precedes_iff] at *
  rcases hab with hab | ⟨hab, hcode⟩ <;> rcases hbc with hbc | ⟨hbc, hcode'⟩
  · exact .inl (UInt32.lt_trans hab hbc)
  · exact .inl (hbc ▸ hab)
  · exact .inl (hab ▸ hbc)
  · exact .inr ⟨hab.trans hbc, UInt32.le_trans hcode hcode'⟩

lemma Diagnostic.precedes_total (a b : Diagnostic) :
    (a.precedes b || b.precedes a) = true := by
  rw [Bool.or_eq_true, precedes_iff, precedes_iff]
  by_cases hline : a.line = b.line
  · exact (UInt32.le_total a.code b.code).imp (fun h => .inr ⟨hline, h⟩)
      fun h => .inr ⟨hline.symm, h⟩
  · exact (UInt32.le_total a.line b.line).imp (fun h => .inl (UInt32.lt_of_le_of_ne h hline))
      fun h => .inl (UInt32.lt_of_le_of_ne h (Ne.symm hline))

/-! ## Reports -/

lemma SourceUnit.report_eq (unit : SourceUnit) (index : Index) (options : Options) :
    unit.report index options = (unit.analyze index options).map fun st =>
      { file := unit.file
        diagnostics := (st.diagnostics unit options.enabledChecks).mergeSort Diagnostic.precedes
        types := st.table.inferredTypes unit.arena } := by
  unfold SourceUnit.report
  cases unit.analyze index options <;> rfl

/-- What a report says under the code of a check that is on: what the check finds, in order. -/
lemma State.withCode_report (st : State) (h : options.isEnabled check.id = true)
    (types : List InferredType) :
    FileReport.withCode
      { file := unit.file
        diagnostics := (st.diagnostics unit options.enabledChecks).mergeSort Diagnostic.precedes
        types } check.code =
      (st.history.flatMap (check.findings unit)).mergeSort Diagnostic.precedes := by
  show (mergeSort _ Diagnostic.precedes).filter _ = _
  rw [filter_mergeSort Diagnostic.precedes_trans Diagnostic.precedes_total,
    filter_diagnostics st h]

lemma report_like (unit : SourceUnit) (index : Index) (h : left.SameAnalysis right)
    (hreads : left.propagateClosureUsage = true → right.propagateClosureUsage = true) :
    Rel (fun r r' => r.types = r'.types ∧
        (left.isEnabled Check.undefinedVariable.id → right.isEnabled Check.undefinedVariable.id →
          r.withCode Check.undefinedVariable.code = r'.withCode Check.undefinedVariable.code) ∧
        (left.isEnabled Check.unusedVariable.id → right.isEnabled Check.unusedVariable.id →
          (r'.withCode Check.unusedVariable.code).Sublist
            (r.withCode Check.unusedVariable.code)))
      (unit.report index left) (unit.report index right) := by
  rw [SourceUnit.report_eq, SourceUnit.report_eq]
  refine rel_map (analyze_like unit index h hreads) ?_
  rintro st st' ⟨htypes, hevents⟩
  have hhistory : RecordsLike st.history st'.history := forall₂_reverse_iff.2 hevents
  refine ⟨?_, fun hl hr => ?_, fun hl hr => ?_⟩
  · simp only [NodeTable.inferredTypes, htypes]
  · rw [withCode_report st hl, withCode_report st' hr, flatMap_undefined_eq hhistory]
  · rw [withCode_report st hl, withCode_report st' hr]
    exact mergeSort_sublist Diagnostic.precedes_trans Diagnostic.precedes_total
      (flatMap_unused_sublist hhistory)

lemma report_same (unit : SourceUnit) (index : Index) (h : left.SameAnalysis right) :
    Rel (fun r r' => r.types = r'.types ∧
        (left.isEnabled Check.undefinedVariable.id → right.isEnabled Check.undefinedVariable.id →
          r.withCode Check.undefinedVariable.code = r'.withCode Check.undefinedVariable.code))
      (unit.report index left) (unit.report index right) := by
  cases hright : right.propagateClosureUsage with
  | true =>
    exact rel_mono (report_like unit index h fun _ => hright) fun hr => ⟨hr.1, hr.2.1⟩
  | false =>
    have hreads : right.propagateClosureUsage = true → left.propagateClosureUsage = true :=
      fun htrue => by
        rw [hright] at htrue
        cases htrue
    rcases rel_cases (report_like unit index h.symm hreads) with ⟨hr, hl⟩ | ⟨r', r, hr, hl, hrr⟩
    · rw [hl, hr]
      exact .none
    · rw [hl, hr]
      exact .some ⟨hrr.1.symm, fun hle hre => (hrr.2.1 hre hle).symm⟩

/-- Options that agree in what an analysis depends on give reports with the same types, and with the
same undefined variables where both look for them.  Where both look for unused variables, taking
over the reads of closures takes some of the findings away and changes nothing else about them. -/
theorem checks_only_observe (unit : SourceUnit) (index : Index) {left right : Options}
    (h : left.SameAnalysis right) :
    (unit.report index left).map FileReport.types =
        (unit.report index right).map FileReport.types ∧
      (left.isEnabled Check.undefinedVariable.id → right.isEnabled Check.undefinedVariable.id →
        (unit.report index left).map (·.withCode Message.undefinedVariable.code) =
          (unit.report index right).map (·.withCode Message.undefinedVariable.code)) ∧
      (left.isEnabled Check.unusedVariable.id → right.isEnabled Check.unusedVariable.id →
        left.propagateClosureUsage = false → right.propagateClosureUsage = true →
        Rel (fun r r' => (r'.withCode Message.unusedVariable.code).Sublist
          (r.withCode Message.unusedVariable.code))
          (unit.report index left) (unit.report index right)) := by
  refine ⟨?_, fun hl hr => ?_, fun hl hr _ hreads => ?_⟩
  · rcases rel_cases (report_same unit index h) with ⟨hleft, hright⟩ | ⟨r, r', hleft, hright, hrr⟩
    · rw [hleft, hright]
    · rw [hleft, hright, map_some, map_some, hrr.1]
  · rcases rel_cases (report_same unit index h) with ⟨hleft, hright⟩ | ⟨r, r', hleft, hright, hrr⟩
    · rw [hleft, hright]
    · rw [hleft, hright]
      exact congrArg some (hrr.2 hl hr)
  · exact rel_mono (report_like unit index h fun _ => hreads) fun hrr => hrr.2.2 hl hr

/-- `function f() { $v = 1; $w = function () use ($v) { return $v; }; }` -/
def captured : SourceUnit :=
  Build.result do
    let one ← Build.expr (.int 1)
    let first ← Build.assignStmt "v" one
    let read ← Build.expr (.var "v")
    let body ← Build.stmt (.returnStmt (some read))
    let closure ← Build.expr (.closure
      { params := [], uses := [⟨"v", false⟩], body := [body], isStatic := false })
    let second ← Build.assignStmt "w" closure
    let function ← Build.stmt (.function
      { name := "f", params := [], body := [first, second] })
    Build.finish "unit" [function]

/-- Strict types, and the reads of closures do not count. -/
def strictOptions : Options :=
  { strictTypes := true, propagateClosureUsage := false }

/-- One check is chosen, and the reads of closures count. -/
def chosenOptions : Options :=
  { checks := [Check.unusedVariable.id] }

/-- Here `$v` is unused on the left only, and `$w` on both sides. -/
theorem checks_only_observe_captured :
    (captured.analyze builtin strictOptions).map
        (fun st => (st.history.flatMap (Check.unusedVariable.findings captured)).length) = some 2 ∧
      (captured.analyze builtin chosenOptions).map
        (fun st => (st.history.flatMap (Check.unusedVariable.findings captured)).length) = some 1 ∧
      (captured.report builtin strictOptions).map FileReport.types =
        (captured.report builtin chosenOptions).map FileReport.types ∧
      Rel (fun r r' => (r'.withCode Message.unusedVariable.code).Sublist
          (r.withCode Message.unusedVariable.code))
        (captured.report builtin strictOptions)
        (captured.report builtin chosenOptions) := by
  have hsame : strictOptions.SameAnalysis chosenOptions := ⟨rfl, rfl, rfl⟩
  obtain ⟨htypes, -, hunused⟩ := checks_only_observe captured builtin hsame
  refine ⟨by decide +kernel, by decide +kernel, htypes, ?_⟩
  exact hunused (by decide) (by decide) rfl rfl

end FlowTyping

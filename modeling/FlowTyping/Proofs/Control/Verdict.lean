import FlowTyping.Ast.Builder
import FlowTyping.Proofs.Analysis.Discipline
import FlowTyping.Proofs.Analysis.Knowledge
import FlowTyping.Proofs.Control.Completion

/-!
# The verdict on control flow

Behind a statement that does not fall through, the code is taken not to run, and what such a branch
did is left out of the join.  This is justified: wherever the check of statements says that they do
not fall through, no way of running them completes normally.

The verdict on a loop or switch depends on the scopes that were recorded where its body is left
early, so the invariant says two things: of statements that may complete normally the verdict says
so, and where they may complete by a jump the innermost frame has gained a scope.
-/

namespace FlowTyping

open Evaluator List Outcome State

variable {cx : Context} {o : Outcome} {stmt : Stmt} {stmts : List NodeId}
  {dead outcomes : List Outcome} {s : Scope} {arena : Arena} {f : Flow} {case : SwitchCase}
  {falling falling' : Option Scope} {st st' st1 : State} {ev : Evaluator} {cases : List SwitchCase}
  {id : NodeId}

open Analysis

/-! ## Frames of loops -/

/-- Frames of loops grow by further scopes in the innermost one. -/
def breaksGrow : Discipline where
  rel st st' := Grown 0 st.breaks st'.breaks
  refl st := .refl 0 st.breaks
  trans h h' := h.trans h'
  store st _ := .refl 0 st.breaks
  current st _ := .refl 0 st.breaks
  table st _ := .refl 0 st.breaks
  event st _ := .refl 0 st.breaks
  recordBreak st frame outer s h := by
    rw [h]
    exact ⟨[s], rfl, fun _ _ _ _ => Nat.zero_le _⟩
  loop {st st'} h := by
    obtain ⟨new, hnew, -⟩ := h
    show Grown 0 st.breaks st'.breaks.tail
    rw [hnew]
    exact .refl 0 st.breaks
  expression _ h := h
  statement _ h := h
  cls _ h := h
  closure {st st'} s h := by
    have hpopped : st'.popped.breaks = st'.breaks := by
      unfold popped
      split <;> rfl
    rw [hpopped]
    exact h
  function {st st'} s _ := .refl 0 st.breaks

/-- The innermost frame, if there is one, has gained a scope. -/
def Jumped (st st' : State) : Prop :=
  ∀ frame outer, st.breaks = frame :: outer →
    ∃ s new, st'.breaks = (frame ++ s :: new) :: outer

namespace Jumped

lemma append (h : Jumped st st1) (hgrow : breaksGrow.rel st1 st') : Jumped st st' := by
  intro frame outer hbreaks
  obtain ⟨s, new, hnew⟩ := h frame outer hbreaks
  have hgrow : Grown 0 st1.breaks st'.breaks := hgrow
  rw [hnew] at hgrow
  obtain ⟨more, hmore, -⟩ := hgrow
  exact ⟨s, new ++ more, by simp [hmore]⟩

lemma prepend (hgrow : breaksGrow.rel st st1) (h : Jumped st1 st') : Jumped st st' := by
  intro frame outer hbreaks
  have hgrow : Grown 0 st.breaks st1.breaks := hgrow
  rw [hbreaks] at hgrow
  obtain ⟨more, hmore, -⟩ := hgrow
  obtain ⟨s, new, hnew⟩ := h _ _ hmore
  cases more with
  | nil => exact ⟨s, new, by simpa using hnew⟩
  | cons s' more => exact ⟨s', more ++ s :: new, by simp [hnew]⟩

lemma breaks_ne_nil (h : Jumped st.enterLoop st') : st'.breaks.headD [] ≠ [] := by
  obtain ⟨s, new, hnew⟩ := h [] st.breaks rfl
  simp [hnew]

end Jumped

/-! ## Statements that always fall through -/

/-- The verdict is always that control falls through. -/
def FallsThrough (cx : Context) (m : Analysis Flow) : Prop :=
  ∀ ⦃st flow st'⦄, m cx st = some (flow, st') → flow = .normal

section FallsThrough

variable {α : Type} {m : Analysis α}

lemma FallsThrough.bind {f : α → Analysis Flow} (hf : ∀ a, FallsThrough cx (f a)) :
    FallsThrough cx (m >>= f) := by
  intro st flow st' h
  obtain ⟨a, st1, -, h⟩ := of_bind h
  exact hf a h

lemma FallsThrough.reading {f : α → Analysis Flow} {a : α} (hm : ∀ st, m cx st = some (a, st))
    (hf : FallsThrough cx (f a)) : FallsThrough cx (m >>= f) := by
  intro st flow st' h
  obtain ⟨_, _, he, h⟩ := of_bind h
  rw [hm] at he
  cases he
  exact hf h

lemma FallsThrough.pure : FallsThrough cx (Pure.pure .normal) :=
  fun _ _ _ h => (of_pure h).1

lemma FallsThrough.last : FallsThrough cx (m >>= fun _ => Pure.pure .normal) :=
  .bind fun _ => .pure

lemma FallsThrough.ite {c : Prop} [Decidable c] {m m' : Analysis Flow}
    (hm : FallsThrough cx m) (hm' : FallsThrough cx m') :
    FallsThrough cx (if c then m else m') := by
  split
  · exact hm
  · exact hm'

/-- Any loop but `do … while` may be passed by. -/
def Stmt.isSkippable : Stmt → Bool
  | .whileStmt .. | .forStmt .. | .foreachStmt .. => true
  | _ => false

lemma fallsThrough_checkStmt (ev : Evaluator) (id : NodeId) (stmt : Stmt)
    (h : stmt.isPlain = true ∨ stmt.isSkippable = true) :
    FallsThrough cx (ev.checkStmt id stmt) := by
  cases stmt with
  | echoStmt _ | unsetStmt _ | function _ => exact .last
  | globalStmt _ | staticStmt _ => exact .bind fun _ => .last
  | declareStmt _ => exact .ite .last .pure
  | classDecl _ => exact .bind fun _ => .bind fun _ => .last
  | method fn =>
    unfold checkStmt
    dsimp only
    split
    · exact .bind fun _ => .last
    · exact .pure
  | property _ | classConst | enumCase | traitUse _ => exact .pure
  | whileStmt _ _ =>
    exact .bind fun _ => .bind fun _ => .bind fun _ => .bind fun _ => .bind fun _ => .last
  | forStmt _ condition _ _ =>
    refine .bind fun _ => .bind fun _ => ?_
    split
    · exact .bind fun _ => .bind fun _ => .bind fun _ => .bind fun _ => .last
    · exact .bind fun _ => .bind fun _ => .bind fun _ => .bind fun _ => .bind fun _ => .bind fun _ =>
        .last
  | foreachStmt _ _ _ byRef _ =>
    refine .bind fun _ => .bind fun _ => .ite (.bind fun name => ?_) ?_
    · cases name
      · exact .bind fun _ => .bind fun _ => .bind fun _ => .last
      · exact .bind fun _ => .bind fun _ => .bind fun _ => .bind fun _ => .last
    · exact .bind fun _ => .bind fun _ => .bind fun _ => .last
  | sourceFile _ _ | block _ | exprStmt _ _ | returnStmt _ | ifStmt _ _ _ _ | doWhileStmt _ _
  | switchStmt _ _ | tryStmt _ _ _ | breakStmt | continueStmt =>
    simp [Stmt.isPlain, Stmt.isSkippable] at h

end FallsThrough

/-! ## The invariant -/

/-- The verdict `flow` covers the ways to complete: it is normal where a normal completion is
possible, and a jump has left a scope in the innermost frame. -/
structure Covers (completes : Flow → Prop) (flow : Flow) (st st' : State) : Prop where
  normal : completes .normal → flow = .normal
  jump : completes .jump → Jumped st st'

lemma Covers.imp {completes completes' : Flow → Prop} {flow : Flow}
    (h : Covers completes flow st st') (himp : ∀ f, f ≠ .exit → completes' f → completes f) :
    Covers completes' flow st st' :=
  ⟨h.normal ∘ himp _ nofun, h.jump ∘ himp _ nofun⟩

/-- The verdicts on all statements cover the ways to complete them, and frames only grow. -/
structure Sound (cx : Context) (ev : Evaluator) : Prop where
  grows : breaksGrow.Governs cx ev
  check : ∀ ⦃id st flow st'⦄, ev.check id cx st = some (flow, st') →
    Covers (Completes cx.arena id) flow st st'

namespace Sound

variable {flow : Flow} (hev : Sound cx ev)

include hev

/-- Statements in order.  Those behind one that does not fall through are checked too, so frames have
to be kept over them. -/
lemma checkAll {ids : List NodeId} (h : ev.checkAll ids cx st = some (flow, st')) :
    Covers (CompletesAll cx.arena ids) flow st st' := by
  induction ids generalizing st flow with
  | nil =>
    obtain ⟨rfl, rfl⟩ := of_pure h
    exact ⟨fun _ => rfl, fun hjump => nomatch hjump⟩
  | cons id ids ih =>
    obtain ⟨first, st1, hfirst, h⟩ := of_bind h
    obtain ⟨rest, hrest, rfl⟩ := of_result h
    have hgrow := hev.grows.check trivial hfirst
    have hgrow' := hev.grows.checkAll (fun _ _ => trivial) hrest
    have hfirst := hev.check hfirst
    have hrest := ih hrest
    constructor
    · intro hnormal
      cases hnormal with
      | next hid hids => rw [hfirst.normal hid, hrest.normal hids]; rfl
      | stop _ hne => exact absurd rfl hne
    · intro hjump
      cases hjump with
      | next _ hids => exact (hrest.jump hids).prepend hgrow
      | stop hid _ => exact (hfirst.jump hid).append hgrow'

lemma checkIn (h : ev.checkIn s stmts cx st = some (o, st')) :
    Covers (CompletesAll cx.arena stmts) o.flow st st' := by
  obtain ⟨⟨flow, after⟩, hin, rfl⟩ := of_result h
  obtain ⟨st1, hrun, -, rfl⟩ := inScope_eq_some.1 hin
  have hcovers := hev.checkAll hrun
  exact ⟨hcovers.normal, hcovers.jump⟩

end Sound

lemma rejoinAll_of_live {flow : Flow} (h : rejoinAll outcomes cx st = some (flow, st'))
    (ho : o ∈ outcomes) (hflow : o.flow = .normal) : flow = .normal := by
  have hlive : o.scope ∈ (outcomes.filter isLive).map scope :=
    mem_map_of_mem (mem_filter.2 ⟨ho, by rw [isLive, hflow]; rfl⟩)
  unfold rejoinAll at h
  cases hpaths : (outcomes.filter isLive).map scope with
  | nil => rw [hpaths] at hlive; cases hlive
  | cons first rest =>
    rw [hpaths, rejoin_cons_run] at h
    cases h
    rfl

/-- Outcomes cover the ways to complete one of several branches, which were checked in order. -/
structure BranchesCover (completes : Flow → Prop) (outcomes : List Outcome) (st st' : State) :
    Prop where
  grows : breaksGrow.rel st st'
  normal : completes .normal → ∃ o ∈ outcomes, o.flow = .normal
  jump : completes .jump → Jumped st st'

namespace BranchesCover

variable {completes completes' : Flow → Prop} {outcomes' : List Outcome}

lemma of_grows (h : breaksGrow.rel st st') : BranchesCover (fun _ => False) [] st st' :=
  ⟨h, False.elim, False.elim⟩

lemma single (hgrow : breaksGrow.rel st st')
    (h : Covers completes o.flow st st') : BranchesCover completes [o] st st' :=
  ⟨hgrow, fun hnormal => ⟨o, mem_singleton_self o, h.normal hnormal⟩, h.jump⟩

lemma append (h : BranchesCover completes outcomes st st1)
    (h' : BranchesCover completes' outcomes' st1 st') :
    BranchesCover (fun f => completes f ∨ completes' f) (outcomes ++ outcomes') st st' where
  grows := breaksGrow.trans h.grows h'.grows
  normal hnormal := by
    rcases hnormal with hnormal | hnormal
    · obtain ⟨o, ho, hflow⟩ := h.normal hnormal
      exact ⟨o, mem_append_left _ ho, hflow⟩
    · obtain ⟨o, ho, hflow⟩ := h'.normal hnormal
      exact ⟨o, mem_append_right _ ho, hflow⟩
  jump hjump := by
    rcases hjump with hjump | hjump
    · exact (h.jump hjump).append h'.grows
    · exact (h'.jump hjump).prepend h.grows

lemma imp (h : BranchesCover completes outcomes st st')
    (himp : ∀ f, f ≠ .exit → completes' f → completes f) :
    BranchesCover completes' outcomes st st' :=
  ⟨h.grows, fun hnormal => h.normal (himp _ nofun hnormal), fun hjump => h.jump (himp _ nofun hjump)⟩

lemma rejoin {flow : Flow} (h : BranchesCover completes outcomes st st1)
    (hrejoin : rejoinAll outcomes cx st1 = some (flow, st')) : Covers completes flow st st' where
  normal hnormal := by
    obtain ⟨o, ho, hflow⟩ := h.normal hnormal
    exact rejoinAll_of_live hrejoin ho hflow
  jump hjump := (h.jump hjump).append (breaksGrow.structural.holding.rejoin _ _ _ hrejoin)

end BranchesCover

/-- A switch may be entered at one of its cases, and its cases from there on may complete in this
way. -/
def Enters (arena : Arena) (cases : List SwitchCase) (f : Flow) : Prop :=
  ∃ before case after, cases = before ++ case :: after ∧ RunsCases arena (case :: after) f

lemma not_enters_nil : ¬ Enters arena [] f := by
  rintro ⟨before, case, after, h, -⟩
  exact append_ne_nil_of_right_ne_nil before (cons_ne_nil case after) h.symm

lemma enters_cons (h : Enters arena (case :: cases) f) :
    RunsCases arena (case :: cases) f ∨ Enters arena cases f := by
  obtain ⟨before, first, after, heq, hrun⟩ := h
  cases before with
  | nil =>
    rw [heq]
    exact .inl hrun
  | cons _ before =>
    rw [cons_append, List.cons.injEq] at heq
    exact .inr ⟨before, first, after, heq.2, hrun⟩

lemma checkCases_cons (hev : breaksGrow.Governs cx ev)
    (h : ev.checkCases (case :: cases) falling cx st = some ((falling', dead), st')) :
    ∃ start o st1 st2 dead', breaksGrow.rel st st1 ∧
      ev.checkIn start case.body cx st1 = some (o, st2) ∧
      ev.checkCases cases (if o.isLive then some o.scope else none) cx st2 =
        some ((falling', dead'), st') := by
  rw [Evaluator.checkCases_cons] at h
  obtain ⟨_, st1, htest, h⟩ := of_bind h
  obtain ⟨start, st2, hstart, h⟩ := of_bind h
  have hgrow := breaksGrow.trans (hev.stepwise.visit? (fun _ _ => trivial) htest)
    (breaksGrow.structural.holding.caseStart _ hstart)
  obtain ⟨o, st3, hbody, h⟩ := of_bind h
  unfold casesBehind at h
  refine ⟨start, o, st2, st3, ?_⟩
  cases hlive : o.isLive with
  | true =>
    rw [if_pos hlive] at h
    exact ⟨dead, hgrow, hbody, h⟩
  | false =>
    rw [if_neg (by simp [hlive])] at h
    obtain ⟨⟨_, dead'⟩, _, hrest, h⟩ := of_bind h
    cases h
    exact ⟨dead', hgrow, hbody, hrest⟩

namespace Sound

variable {flow : Flow} (hev : Sound cx ev) {condition subject : NodeId}
  {body thenBranch : List NodeId} {elseIfs : List ElseIf} {elseBranch : Option (List NodeId)}
  {catches : List CatchClause}

include hev

/-! ## Branches -/

lemma branch (h : ev.checkIn s stmts cx st = some (o, st')) :
    BranchesCover (CompletesAll cx.arena stmts) [o] st st' :=
  .single (hev.grows.checkIn (hev.grows.checkAll fun _ _ => trivial) _ h) (hev.checkIn h)

lemma checkElseIfs {branches : List ElseIf} {remaining last : Scope}
    (h : ev.checkElseIfs branches remaining cx st = some ((outcomes, last), st')) :
    BranchesCover (fun f => ∃ b ∈ branches, CompletesAll cx.arena b.body f) outcomes st st' := by
  induction branches generalizing st remaining outcomes with
  | nil =>
    cases h
    exact (BranchesCover.of_grows (breaksGrow.refl _)).imp fun _ _ ⟨_, hb, _⟩ => nomatch hb
  | cons branch branches ih =>
    obtain ⟨⟨⟨taken, skipped⟩, _⟩, st1, htest, h⟩ := of_bind h
    obtain ⟨o, st2, hbody, h⟩ := of_bind h
    obtain ⟨⟨others, _⟩, st3, hrest, h⟩ := of_bind h
    cases h
    have hgrow := Custom.Follows.inScope (Custom.Follows.bind (hev.grows.visit trivial) fun _ =>
      breaksGrow.structural.holding.branchScopes _) htest
    exact ((BranchesCover.of_grows hgrow).append ((hev.branch hbody).append (ih hrest))).imp
      fun _ _ hb => .inr ((exists_mem_cons_iff ..).1 hb)

lemma ifOutcomes
    (h : ev.ifOutcomes condition thenBranch elseIfs elseBranch cx st = some (outcomes, st')) :
    BranchesCover (Runs cx.arena (.ifStmt condition thenBranch elseIfs elseBranch)) outcomes
      st st' := by
  obtain ⟨_, st1, htest, h⟩ := of_bind h
  obtain ⟨⟨thenScope, remaining⟩, st2, hscopes, h⟩ := of_bind h
  obtain ⟨first, st3, hfirst, h⟩ := of_bind h
  obtain ⟨⟨middle, last⟩, st4, hmiddle, h⟩ := of_bind h
  have hgrow := breaksGrow.trans (hev.grows.visit trivial htest)
    (breaksGrow.structural.holding.branchScopes _ hscopes)
  have htest := BranchesCover.of_grows hgrow
  have hfirst := hev.branch hfirst
  have hmiddle := hev.checkElseIfs hmiddle
  cases elseBranch with
  | none =>
    cases h
    have hlast : BranchesCover (· = .normal) [⟨last, .normal⟩] st' st' :=
      .single (breaksGrow.refl _) ⟨fun _ => rfl, nofun⟩
    refine (htest.append (hfirst.append (hmiddle.append hlast))).imp fun f _ hrun => ?_
    cases hrun with
    | plain hplain => cases hplain
    | thenBranch hthen => exact .inr (.inl hthen)
    | elseIf hb hbody => exact .inr (.inr (.inl ⟨_, hb, hbody⟩))
    | noBranch => exact .inr (.inr (.inr rfl))
  | some body =>
    obtain ⟨o, hlast, rfl⟩ := of_result h
    have hlast := hev.branch hlast
    refine (htest.append (hfirst.append (hmiddle.append hlast))).imp fun f _ hrun => ?_
    cases hrun with
    | plain hplain => cases hplain
    | thenBranch hthen => exact .inr (.inl hthen)
    | elseIf hb hbody => exact .inr (.inr (.inl ⟨_, hb, hbody⟩))
    | elseBranch helse => exact .inr (.inr (.inr helse))

lemma checkIf (h : ev.checkIf condition thenBranch elseIfs elseBranch cx st = some (flow, st')) :
    Covers (Runs cx.arena (.ifStmt condition thenBranch elseIfs elseBranch)) flow st st' := by
  rw [checkIf_eq] at h
  obtain ⟨outcomes, st1, houtcomes, h⟩ := of_bind h
  exact (hev.ifOutcomes houtcomes).rejoin h

/-! ## Loops and switches -/

lemma checkDoWhile (h : ev.checkDoWhile body condition cx st = some (flow, st')) :
    Covers (Runs cx.arena (.doWhileStmt body condition)) flow st st' := by
  replace h := bind_rest h rfl
  obtain ⟨bodyFlow, st1, hbody, h⟩ := of_bind h
  obtain ⟨_, st2, hcondition, h⟩ := of_bind h
  replace h := bind_rest h rfl
  have hgrow := hev.grows.visit trivial hcondition
  have hbody : Covers (CompletesAll cx.arena body) bodyFlow st.enterLoop st1 := hev.checkAll hbody
  refine ⟨fun hrun => ?_, fun hrun => ?_⟩
  · by_cases hexit : (bodyFlow == .exit && (st2.breaks.headD []).isEmpty) = true
    · -- The body was found to exit and to leave no scope behind, so its first run does not end.
      rw [Bool.and_eq_true, beq_iff_eq, List.isEmpty_iff] at hexit
      cases hrun with
      | plain hplain => cases hplain
      | @doWhile _ _ g _ hfirst hg _ =>
        cases g with
        | normal => exact nomatch (hbody.normal hfirst).symm.trans hexit.1
        | jump => exact absurd hexit.2 ((hbody.jump hfirst).append hgrow).breaks_ne_nil
        | exit => exact absurd rfl hg
    · rw [if_neg hexit] at h
      exact FallsThrough.bind (fun _ => .bind fun _ => .last) h
  · cases hrun with
    | doWhile _ _ hloops => exact absurd rfl hloops.ne_jump

lemma checkCases (h : ev.checkCases cases falling cx st = some ((falling', dead), st')) :
    (Enters cx.arena cases .normal → falling'.isSome = true) ∧
      (Enters cx.arena cases .jump → Jumped st st') ∧ (cases = [] → falling' = falling) := by
  induction cases generalizing st falling dead with
  | nil =>
    cases h
    exact ⟨fun hnormal => absurd hnormal not_enters_nil, fun hjump => absurd hjump not_enters_nil,
      fun _ => rfl⟩
  | cons case cases ih =>
    obtain ⟨start, o, st1, st2, dead', hstart, hbody, hrest⟩ := checkCases_cons hev.grows h
    have hgrow := hev.grows.checkCases _ (fun _ _ => ⟨fun _ _ => hev.grows.infer trivial,
      hev.grows.checkAll fun _ _ => trivial⟩) hrest
    have hcovers := hev.checkIn hbody
    have hgrow' := breaksGrow.trans hstart
      (hev.grows.checkIn (hev.grows.checkAll fun _ _ => trivial) _ hbody)
    obtain ⟨hnormal, hjump, hnil⟩ := ih hrest
    refine ⟨fun henters => ?_, fun henters => ?_, nofun⟩
    · rcases enters_cons henters with hrun | hlater
      · cases hrun with
        | next hcase hcases =>
          -- The body falls through into the cases that follow, or off the end.
          have hlive : o.isLive = true := by
            rw [isLive, hcovers.normal hcase]
            rfl
          cases cases with
          | nil => rw [hnil rfl, if_pos hlive]; rfl
          | cons => exact hnormal ⟨[], _, _, rfl, hcases⟩
        | stop _ hne => exact absurd rfl hne
      · exact hnormal hlater
    · rcases enters_cons henters with hrun | hlater
      · cases hrun with
        | next _ hcases =>
          cases cases with
          | nil => exact nomatch hcases
          | cons => exact (hjump ⟨[], _, _, rfl, hcases⟩).prepend hgrow'
        | stop hcase _ => exact ((hcovers.jump hcase).prepend hstart).append hgrow
      · exact (hjump hlater).prepend hgrow'

lemma switchPaths_ne_nil {paths : List Scope}
    (h : ev.switchPaths subject cases cx st = some ((paths, dead), st'))
    (hrun : Runs cx.arena (.switchStmt subject cases) .normal) : paths ≠ [] := by
  obtain ⟨_, st1, -, h⟩ := of_bind h
  replace h := bind_rest h rfl
  obtain ⟨⟨falling, _⟩, st2, hcases, h⟩ := of_bind h
  replace h := bind_rest h rfl
  obtain ⟨hnormal, hjump, -⟩ := hev.checkCases hcases
  have hpaths : ∃ skipped, paths = st2.breaks.headD [] ++ falling.toList ++ skipped ∧
      (skipped = [] → (cases.any fun case => case.test.isNone) = true) := by
    by_cases hdefault : (cases.any fun case => case.test.isNone) = true
    · rw [if_pos hdefault] at h
      cases h
      exact ⟨[], rfl, fun _ => hdefault⟩
    · rw [if_neg hdefault] at h
      obtain ⟨s, _, -, h⟩ := of_bind h
      cases h
      exact ⟨[s], rfl, nofun⟩
  obtain ⟨skipped, rfl, hskipped⟩ := hpaths
  rw [ne_eq, append_eq_nil_iff, append_eq_nil_iff]
  rintro ⟨⟨hbreaks, hfalling⟩, hskip⟩
  cases hrun with
  | plain hplain => cases hplain
  | switchAt hcase _ =>
    have hsome := hnormal ⟨_, _, _, rfl, hcase⟩
    rw [Option.toList_eq_nil_iff] at hfalling
    rw [hfalling] at hsome
    cases hsome
  | switchBreak hcase => exact (hjump ⟨_, _, _, rfl, hcase⟩).breaks_ne_nil hbreaks
  | switchSkip hdefault =>
    obtain ⟨case, hcase, hnone⟩ := any_eq_true.1 (hskipped hskip)
    rw [hdefault case hcase] at hnone
    cases hnone

lemma checkSwitch (h : ev.checkSwitch subject cases cx st = some (flow, st')) :
    Covers (Runs cx.arena (.switchStmt subject cases)) flow st st' := by
  rw [checkSwitch_eq] at h
  obtain ⟨⟨paths, dead⟩, st1, hpaths, h⟩ := of_bind h
  refine ⟨fun hrun => ?_, fun hrun => ?_⟩
  · obtain ⟨first, rest, rfl⟩ := exists_cons_of_ne_nil (hev.switchPaths_ne_nil hpaths hrun)
    dsimp only at h
    cases h
    rfl
  · cases hrun with
    | switchAt _ hne => exact absurd rfl hne

/-! ## Handlers -/

lemma checkCatches {entry : Scope} {line : Line} {clauses : List CatchClause}
    (h : ev.checkCatches entry line clauses cx st = some (outcomes, st')) :
    BranchesCover (fun f => ∃ clause ∈ clauses, CompletesAll cx.arena clause.body f) outcomes
      st st' := by
  induction clauses generalizing st outcomes with
  | nil =>
    cases h
    exact (BranchesCover.of_grows (breaksGrow.refl _)).imp fun _ _ ⟨_, hc, _⟩ => nomatch hc
  | cons clause clauses ih =>
    rw [checkCatches_cons] at h
    obtain ⟨s, st1, hstart, h⟩ := of_bind h
    have hgrow := breaksGrow.structural.holding.catchStart _ _
      (fun name _ => Ty.closed_true.meansIn name) hstart
    obtain ⟨o, st2, hbody, h⟩ := of_bind h
    obtain ⟨others, hrest, rfl⟩ := of_result h
    exact ((BranchesCover.of_grows hgrow).append ((hev.branch hbody).append (ih hrest))).imp
      fun _ _ hc => .inr ((exists_mem_cons_iff ..).1 hc)

lemma tryOutcomes (h : ev.tryOutcomes id body catches cx st = some (outcomes, st')) :
    BranchesCover (Tries cx.arena body catches) outcomes st st' := by
  replace h := bind_rest h rfl
  obtain ⟨entry, st1, hentry, h⟩ := of_bind h
  obtain ⟨start, st2, hstart, h⟩ := of_bind h
  obtain ⟨first, st3, hfirst, h⟩ := of_bind h
  obtain ⟨catchEntry, st4, hmerge, h⟩ := of_bind h
  obtain ⟨others, hothers, rfl⟩ := of_result h
  have hgrow := breaksGrow.trans (breaksGrow.structural.holding.forkCurrent hentry) (breaksGrow.onStore _ hstart)
  have hbetween := BranchesCover.of_grows (breaksGrow.onStore _ hmerge)
  refine ((BranchesCover.of_grows hgrow).append ((hev.branch hfirst).append
    (hbetween.append (hev.checkCatches hothers)))).imp fun f hf htries => ?_
  cases htries with
  | body hbody => exact .inr (.inl hbody)
  | caught hc hclause => exact .inr (.inr (.inr ⟨_, hc, hclause⟩))
  | uncaught => exact absurd rfl hf

lemma checkTry {finallyBody : Option (List NodeId)}
    (h : ev.checkTry id body catches finallyBody cx st = some (flow, st')) :
    Covers (Runs cx.arena (.tryStmt body catches finallyBody)) flow st st' := by
  rw [checkTry_eq] at h
  obtain ⟨outcomes, st1, houtcomes, h⟩ := of_bind h
  obtain ⟨triedFlow, st2, hrejoin, h⟩ := of_bind h
  have htried := (hev.tryOutcomes houtcomes).rejoin hrejoin
  have hgrow := breaksGrow.trans (hev.grows.tryOutcomes _
    (fun name _ => Ty.closed_true.meansIn name) (hev.grows.checkAll fun _ _ => trivial)
    (fun _ _ => hev.grows.checkAll fun _ _ => trivial) houtcomes)
    (breaksGrow.structural.holding.rejoin _ _ _ hrejoin)
  cases finallyBody with
  | none =>
    cases h
    refine htried.imp fun f _ hrun => ?_
    cases hrun with
    | plain hplain => cases hplain
    | tries htries => exact htries
  | some last =>
    obtain ⟨lastFlow, hlast, rfl⟩ := of_result h
    have hgrow' := hev.grows.checkAll (fun _ _ => trivial) hlast
    have hlast := hev.checkAll hlast
    refine ⟨fun hrun => ?_, fun hrun => ?_⟩
    · cases hrun with
      | plain hplain => cases hplain
      | triesFinally htries hends =>
        rw [htried.normal htries, hlast.normal hends]
        rfl
      | finallyLeaves _ _ hne => exact absurd rfl hne
    · cases hrun with
      | triesFinally htries _ => exact (htried.jump htries).append hgrow'
      | finallyLeaves _ hends _ => exact (hlast.jump hends).prepend hgrow

/-! ## All statements -/

omit hev in
lemma checkExprStmt {expr : NodeId} {doc : Option String}
    (h : ev.checkExprStmt id expr doc cx st = some (flow, st')) :
    Covers (Runs cx.arena (.exprStmt expr doc)) flow st st' := by
  have hflow : ¬ cx.arena.Leaves expr → flow = .normal := by
    intro hleaves
    rw [checkExprStmt_eq] at h
    obtain ⟨_, st1, -, h⟩ := of_bind h
    refine FallsThrough.bind (fun _ => .reading (fun _ => rfl) ?_) h
    split
    · exact absurd (.inl ⟨_, ‹_›⟩) hleaves
    · exact absurd (.inr ⟨_, ‹_›⟩) hleaves
    · exact .pure
  refine ⟨fun hrun => ?_, fun hrun => nomatch hrun⟩
  cases hrun with
  | plain hplain => cases hplain
  | expression hleaves => exact hflow hleaves

omit hev in
lemma checkJump (h : checkJump cx st = some (flow, st'))
    (hstmt : ¬ Runs cx.arena stmt .normal) : Covers (Runs cx.arena stmt) flow st st' := by
  obtain ⟨s, st1, hfork, h⟩ := of_bind h
  obtain ⟨_, hrecord, rfl⟩ := of_result h
  refine ⟨fun hrun => absurd hrun hstmt, fun _ =>
    Jumped.prepend (breaksGrow.structural.holding.forkCurrent hfork) ?_⟩
  intro frame outer hbreaks
  rw [recordBreak_run, hbreaks] at hrecord
  cases hrecord
  exact ⟨s, [], rfl⟩

lemma checkStmt (h : ev.checkStmt id stmt cx st = some (flow, st')) :
    Covers (Runs cx.arena stmt) flow st st' := by
  have hsimple (hstmt : stmt.isPlain = true ∨ stmt.isSkippable = true)
      (hjump : ¬ Runs cx.arena stmt .jump) : Covers (Runs cx.arena stmt) flow st st' :=
    ⟨fun _ => fallsThrough_checkStmt ev id stmt hstmt h, fun hrun => absurd hrun hjump⟩
  cases stmt with
  | sourceFile name stmts =>
    refine (hev.checkAll h).imp fun f _ hrun => ?_
    cases hrun with
    | sourceFile hall => exact hall
    | plain hplain => cases hplain
  | block stmts =>
    refine (hev.checkAll h).imp fun f _ hrun => ?_
    cases hrun with
    | block hall => exact hall
    | plain hplain => cases hplain
  | exprStmt expr doc => exact checkExprStmt h
  | returnStmt expr =>
    refine ⟨fun hrun => ?_, fun hrun => nomatch hrun⟩
    cases hrun with
    | plain hplain => cases hplain
  | ifStmt condition thenBranch elseIfs elseBranch => exact hev.checkIf h
  | doWhileStmt body condition => exact hev.checkDoWhile h
  | switchStmt subject cases => exact hev.checkSwitch h
  | tryStmt body catches finallyBody => exact hev.checkTry h
  | breakStmt | continueStmt =>
    refine checkJump h fun hrun => ?_
    cases hrun with
    | plain hplain => cases hplain
  | whileStmt _ _ =>
    refine hsimple (.inr rfl) fun hrun => ?_
    cases hrun with
    | whileLoop hloops => exact hloops.ne_jump rfl
  | forStmt _ _ _ _ =>
    refine hsimple (.inr rfl) fun hrun => ?_
    cases hrun with
    | forLoop hloops => exact hloops.ne_jump rfl
  | foreachStmt _ _ _ _ _ =>
    refine hsimple (.inr rfl) fun hrun => ?_
    cases hrun with
    | foreachLoop hloops => exact hloops.ne_jump rfl
  | _ => exact hsimple (.inl rfl) fun hrun => nomatch hrun

lemma checkNode (h : ev.checkNode id cx st = some (flow, st')) :
    Covers (Completes cx.arena id) flow st st' := by
  replace h := bind_rest h rfl
  cases hstmt : cx.arena.stmt? id with
  | none =>
    rw [hstmt] at h
    refine ⟨fun _ => FallsThrough.last h, fun hjump => ?_⟩
    cases hjump with
    | statement hsome _ => exact nomatch hstmt.symm.trans hsome
  | some stmt =>
    rw [hstmt] at h
    replace h := bind_rest h rfl
    obtain ⟨_, st1, hcheck, h⟩ := of_bind h
    obtain ⟨_, st2, hvisit, h⟩ := of_bind h
    cases h
    have hcovers := hev.checkStmt hcheck
    have hgrow := breaksGrow.recordVisit id none hvisit
    refine Covers.imp ⟨hcovers.normal, fun hrun => (hcovers.jump hrun).append hgrow⟩ fun f hf hrun => ?_
    cases hrun with
    | throws => exact absurd rfl hf
    | value hnone => exact nomatch hstmt.symm.trans hnone
    | statement hsome hrun =>
      cases hstmt.symm.trans hsome
      exact hrun

end Sound

lemma evaluator_sound (cx : Context) (budget : Nat) : Sound cx (evaluator budget) := by
  induction budget with
  | zero => exact ⟨breaksGrow.evaluator cx 0, fun _ _ _ _ h => nomatch h⟩
  | succ n ih => exact ⟨breaksGrow.evaluator cx (n + 1), fun _ _ _ _ h => ih.checkNode h⟩

/-! ## Statements that leave -/

/-- A statement that leaves the list it stands in. -/
inductive Departs (arena : Arena) : Stmt → Prop
  | returns {e : Option NodeId} : Departs arena (.returnStmt e)
  | breaks : Departs arena .breakStmt
  | continues : Departs arena .continueStmt
  | leave {e : NodeId} {doc : Option String} (h : arena.Leaves e) : Departs arena (.exprStmt e doc)

lemma Departs.flow {flow : Flow} (hstmt : Departs cx.arena stmt)
    (h : ev.checkStmt id stmt cx st = some (flow, st')) : flow ≠ .normal := by
  cases hstmt with
  | returns =>
    obtain ⟨_, st1, -, h⟩ := of_bind h
    cases h
    exact nofun
  | breaks | continues =>
    obtain ⟨_, st1, -, h⟩ := of_bind h
    obtain ⟨_, st2, -, h⟩ := of_bind h
    cases h
    exact nofun
  | @leave e doc hleaves =>
    rw [checkStmt, checkExprStmt_eq] at h
    obtain ⟨_, st1, -, h⟩ := of_bind h
    obtain ⟨_, st2, -, h⟩ := of_bind h
    replace h := bind_rest h rfl
    rcases hleaves with ⟨_, hexpr⟩ | ⟨_, hexpr⟩
    all_goals
      rw [hexpr] at h
      cases h
      exact nofun

lemma checkAll_of_departs {budget : Nat} {flow : Flow} (hid : id ∈ stmts)
    (hstmt : cx.arena.stmt? id = some stmt) (hdeparts : Departs cx.arena stmt)
    (h : (evaluator budget).checkAll stmts cx st = some (flow, st')) : flow ≠ .normal := by
  induction stmts generalizing st flow with
  | nil => cases hid
  | cons first rest ih =>
    obtain ⟨firstFlow, st1, hfirst, h⟩ := of_bind h
    obtain ⟨restFlow, hrest, rfl⟩ := of_result h
    rcases mem_cons.1 hid with rfl | hid
    · obtain ⟨_, _, -, hrun, -⟩ := check_inside hstmt hfirst
      have hne := hdeparts.flow hrun
      cases firstFlow with
      | normal => exact absurd rfl hne
      | jump | exit => exact hne
    · have hne := ih hid hrest
      cases firstFlow with
      | normal => exact hne
      | jump | exit => exact nofun

/-! ## The verdict -/

/-- Where the verdict on statements is that they do not fall through, no way of running them completes
normally, and the same holds of one statement of any kind; a way of running them that jumps has left
a scope in the frame of the loop or switch around.  The verdict is of use: a list with a statement
that leaves it is found not to fall through. -/
theorem verdict_sound (budget : Nat) (cx : Context) (st : State) :
    (∀ stmts flow st', (evaluator budget).checkAll stmts cx st = some (flow, st') →
      (flow ≠ .normal → ¬ CompletesAll cx.arena stmts .normal) ∧
      (CompletesAll cx.arena stmts .jump → Jumped st st') ∧
      ((∃ id ∈ stmts, ∃ stmt, cx.arena.stmt? id = some stmt ∧ Departs cx.arena stmt) →
        flow ≠ .normal)) ∧
    ∀ id stmt flow st', cx.arena.stmt? id = some stmt →
      (evaluator budget).check id cx st = some (flow, st') →
      flow ≠ .normal → ¬ Runs cx.arena stmt .normal := by
  have hsound := evaluator_sound cx budget
  refine ⟨fun stmts flow st' h => ?_, fun id stmt flow st' hstmt h hne hrun => ?_⟩
  · have hcovers := hsound.checkAll h
    refine ⟨fun hne hnormal => hne (hcovers.normal hnormal), hcovers.jump, ?_⟩
    rintro ⟨id, hid, stmt, hstmt, hdeparts⟩
    exact checkAll_of_departs hid hstmt hdeparts h
  · exact hne ((hsound.check h).normal (.statement hstmt hrun))

/-- `do { try { return; } catch (E $e) { switch (c()) { case 1: default: throw $e; } } } while (c());`
where node 9 is the loop. -/
def leavingLoop : SourceUnit :=
  Build.result do
    let leave ← Build.stmt (.returnStmt none)
    let subject ← Build.expr (.callNamed "c" [])
    let one ← Build.expr (.int 1)
    let thrown ← Build.expr (.var "e")
    let throws ← Build.expr (.throwExpr thrown)
    let rethrow ← Build.stmt (.exprStmt throws none)
    let choice ← Build.stmt (.switchStmt subject [⟨some one, []⟩, ⟨none, [rethrow]⟩])
    let handled ← Build.stmt (.tryStmt [leave] [⟨["E"], some "e", [choice]⟩] none)
    let condition ← Build.expr (.callNamed "c" [])
    let loop ← Build.stmt (.doWhileStmt [handled] condition)
    Build.finish "unit" [loop]

theorem verdict_sound_leavingLoop :
    leavingLoop.arena.stmt? 9 = some (.doWhileStmt [7] 8) ∧
    ∃ st', (evaluator 9).checkAll [9] ⟨leavingLoop.arena, {}, {}⟩ (initial {}) =
        some (.exit, st') ∧
      ¬ CompletesAll leavingLoop.arena [9] .normal ∧
      ¬ Runs leavingLoop.arena (.doWhileStmt [7] 8) .normal := by
  have hrun : ((evaluator 9).checkAll [9] ⟨leavingLoop.arena, {}, {}⟩ (initial {})).any
      (fun r => r.1 == .exit) = true := by decide +kernel
  obtain ⟨⟨flow, st'⟩, hrun, hflow⟩ := (Option.any_eq_true ..).1 hrun
  obtain rfl : flow = .exit := by simpa using hflow
  have hlist := ((verdict_sound 9 ⟨leavingLoop.arena, {}, {}⟩ _).1 _ _ _ hrun).1 nofun
  have hloop : leavingLoop.arena.stmt? 9 = some (.doWhileStmt [7] 8) := rfl
  exact ⟨hloop, st', hrun, hlist, fun h => hlist (.next (.statement hloop h) .nil)⟩

end FlowTyping

import FlowTyping.Proofs.Compare.Below
import FlowTyping.Proofs.Compare.Operators

/-!
# De Morgan for branch scopes

`!(a && b)` and `(!a) || (!b)` are evaluated in different steps.  The first one copies the outcomes of
`a && b`; the second one copies those of `a` and of `b` before it joins them, in the opposite order.
They come to the same: the same current scope, and the same scopes on either outcome.
-/

namespace FlowTyping

open List Option Evaluator State Store Stack Scope Arena

variable {id operand negated : NodeId}

open Analysis

/-! ## Duals -/

/-- The expressions `!(a && b)` and `(!a) || (!b)` over the same operands.  The operands have no node in
common, and the operators around them are none of their nodes. -/
structure Arena.Duals (arena : Arena) where
  left : NodeId
  right : NodeId
  both : NodeId
  notBoth : NodeId
  notLeft : NodeId
  notRight : NodeId
  either : NodeId
  both_eq : arena.expr? both = some (.binary .boolAnd left right)
  notBoth_eq : arena.expr? notBoth = some (.unary .not both)
  notLeft_eq : arena.expr? notLeft = some (.unary .not left)
  notRight_eq : arena.expr? notRight = some (.unary .not right)
  either_eq : arena.expr? either = some (.binary .boolOr notLeft notRight)
  disjoint : ∀ {id}, arena.Reach left id → arena.Reach right id → arena.get? id = none
  outside : ∀ {id}, id ∈ [both, notBoth, notLeft, notRight, either] →
    ¬ arena.Reach left id ∧ ¬ arena.Reach right id
  notLeft_ne : notLeft ≠ notRight

namespace Arena.Duals

variable {arena : Arena} (d : arena.Duals)

/-- The nodes of the operators. -/
def operators : List NodeId :=
  [d.both, d.notBoth, d.notLeft, d.notRight, d.either]

/-- Nothing is recorded of what the nodes of the two expressions imply. -/
def Untested (st : State) : Prop :=
  ∀ {id}, arena.Reach d.left id ∨ arena.Reach d.right id ∨ id ∈ d.operators →
    st.table.assertions.get? id = none

lemma not_tested_left (h : arena.Reach d.right id) :
    ¬ (arena.Reach d.left id ∧ (arena.expr? id).isSome = true) := by
  rintro ⟨hleft, hexpr⟩
  rw [expr?, d.disjoint hleft h] at hexpr
  cases hexpr

lemma not_tested_right (h : arena.Reach d.left id) :
    ¬ (arena.Reach d.right id ∧ (arena.expr? id).isSome = true) := by
  rintro ⟨hright, hexpr⟩
  rw [expr?, d.disjoint h hright] at hexpr
  cases hexpr

end Arena.Duals

lemma Arena.expectsBool_of_expr? {arena : Arena} {parent : NodeId} {e : Expr}
    (h : arena.expr? parent = some e)
    (hexpects : ∀ line, Node.expectsBool id ⟨line, .expr e⟩ = true) :
    arena.expectsBool parent id = true := by
  unfold expr? at h
  unfold expectsBool
  split at h
  · next line _ hget =>
    cases h
    rw [hget]
    exact hexpects line
  · cases h

/-! ## Operands -/

variable {cx : Context} {aside : NodeId → Prop} {ρ : Matching}

/-- Behind an operand, evaluated from `L` on the left, and its negation, evaluated from `R` on the
right: the states are alike, and the outcomes are exchanged. -/
structure Opposite (cx : Context) (aside : NodeId → Prop) (L R : State) (operand negated : NodeId)
    (ρ : Matching) (u v : State) : Prop where
  store : u.store.Like .full ρ v.store
  current : u.stack.current.Like .full ρ v.stack.current
  stackLeft : stackKept.rel L u
  stackRight : stackKept.rel R v
  breaks : List.Forall₂ (AllLike .full ρ) u.breaks v.breaks
  types : ∀ {c}, ¬ aside c → u.table.types.get? c = v.table.types.get? c
  recordsLeft : ∀ {c}, ¬ (cx.arena.Reach operand c ∧ (cx.arena.expr? c).isSome = true) →
    u.table.assertions.get? c = L.table.assertions.get? c
  recordsRight : ∀ {c}, ¬ (cx.arena.Reach operand c ∧ (cx.arena.expr? c).isSome = true) →
    c ≠ negated → v.table.assertions.get? c = R.table.assertions.get? c
  isSome : (u.table.assertions.get? operand).isSome = (v.table.assertions.get? negated).isSome
  outcomes : ∀ outcome, (u.implied operand outcome).SaysLike True True u.store
    (v.implied negated (!outcome)) v.store

lemma Comparison.States.implied {C : Comparison} {u v : State} (h : C.States ρ u v)
    (hid : C.nodes id) (outcome : Bool) :
    (u.implied id outcome).Like C.exact ρ (v.implied id outcome) := by
  have hassumed : Rel (Scope.Like C.exact ρ) (u.assumed id outcome) (v.assumed id outcome) := by
    cases outcome
    exacts [h.table.whenFalse? hid, h.table.whenTrue? hid]
  exact like_getD hassumed h.stack.current

/-- The evaluations of an operand and of its negation both run out of budget, or come to opposite
outcomes. -/
lemma opposite_operand (n : Nat) {L R : State}
    (haside : ∀ {id}, cx.arena.Reach operand id → ¬ aside id) (hnegated : aside negated)
    (he : cx.arena.expr? negated = some (.unary .not operand))
    (hdepth : R.depth < cx.options.maxDepth.toNat) (hfresh : R.table.assertions.get? negated = none)
    (h : (Comparison.below cx operand haside L (R.enterNode negated)).States ρ L
      (R.enterNode negated)) :
    Rel (fun r r' => ∃ ρ', ρ ≤ ρ' ∧ Opposite cx aside L R operand negated ρ' r.2 r'.2)
      ((evaluator n).infer operand cx L) ((evaluator (n + 1)).infer negated cx R) := by
  rcases rel_cases (Comparison.infer_below haside n h) with
    ⟨hleft, hright⟩ | ⟨⟨type, u⟩, ⟨type', w⟩, hleft, hright, ρ', hle, hstates, htype⟩
  · rw [hleft, show (evaluator (n + 1)).infer negated cx R = none from
      infer_not_none he hdepth hright]
    exact .none
  have hout : ¬ (cx.arena.Reach operand negated ∧ (cx.arena.expr? negated).isSome = true) :=
    fun hreach => haside hreach.1 hnegated
  have hid : w.table.assertions.get? negated = none :=
    (hstates.table.kept.2.others hout).trans hfresh
  have hexpects : cx.arena.expectsBool negated operand = true :=
    expectsBool_of_expr? he fun _ => rfl
  obtain ⟨v, hrun, hnegates⟩ := infer_not he hdepth hright hid
    (hstates.table.kept.2.nonempty (.refl operand))
    (type_eq_none_of_reference rfl hexpects hright)
  rw [hleft, show (evaluator (n + 1)).infer negated cx R = _ from hrun]
  refine .some ⟨ρ', hle, ?_⟩
  have hstore := hstates.store.extend (.refl u.store) hnegates.store
  exact {
    store := hstore
    current := by
      have hcurrent := hstates.stack.current
      rw [← hnegates.stack] at hcurrent
      exact hcurrent
    stackLeft := (stackKept.evaluator cx n).infer trivial hleft
    stackRight := (stackKept.evaluator cx (n + 1)).infer trivial hrun
    breaks := by
      have hbreaks := hstates.breaks
      rw [← hnegates.breaks] at hbreaks
      exact hbreaks
    types := fun {c} hc => by
      have hne : negated ≠ c := fun heq => hc (heq ▸ hnegated)
      show _ = (v.table.types.insert negated .bool).get? c
      rw [IdMap.get?_insert, if_neg hne, hnegates.types]
      exact hstates.table.types hc
    recordsLeft := hstates.table.kept.1.others
    recordsRight := fun hc hne => (hnegates.others hne).trans (hstates.table.kept.2.others hc)
    isSome := (hstates.table.isSome (.refl operand)).trans hnegates.isSome.symm
    outcomes := fun outcome => by
      have hsame := ((hstates.implied (.refl operand) outcome).saysLike hstates.store).symm
      rw [← Bool.not_not outcome] at hsame
      have hopposite := (hnegates.outcomes hsame).symm
      rw [Bool.not_not] at hopposite
      exact hopposite }

/-! ## Operators -/

lemma Stack.setCurrent_pushNode (k : Stack) (id : NodeId) (s : Scope) :
    (k.pushNode id).setCurrent s = (k.setCurrent s).pushNode id := by
  obtain ⟨_, nested, _⟩ := k
  cases nested <;> rfl

namespace Arena.Duals

variable (d : cx.arena.Duals) {st : State}

/-- The state in which the left operand of `a && b` is evaluated. -/
def insideAnd (st : State) : State :=
  (st.enterNode d.notBoth).enterNode d.both

/-- The state in which the left operand of `(!a) || (!b)` is evaluated. -/
def insideOr (st : State) : State :=
  st.enterNode d.either

lemma expectsBool_not (he : cx.arena.expr? negated = some (.unary .not operand)) (id : NodeId) :
    cx.arena.expectsBool negated id = true :=
  expectsBool_of_expr? he fun _ => rfl

/-- An operand stands under two operators that look at truth values, in either expression. -/
lemma stacks_operand (hst : st.Placed) (haside : ∀ {id}, cx.arena.Reach operand id → ¬ aside id)
    (he : cx.arena.expr? negated = some (.unary .not operand)) (start start' : State) :
    (Comparison.below cx operand haside start start').Stacks (.upTo st.store.size)
      (d.insideAnd st).stack ((d.insideOr st).stack.pushNode negated) where
  root := hst.like_root
  nested := hst.like_nested
  classes := rfl
  ancestors := by
    refine .cons (fun {id} _ => ?_) (.cons (fun {id} _ => ?_) (forall₂_same.2 fun _ _ _ _ => rfl))
    · rw [expectsBool_of_expr? d.both_eq fun _ => rfl, expectsBool_not he]
    · rw [expectsBool_not d.notBoth_eq, expectsBool_of_expr? d.either_eq fun _ => rfl]

lemma aside_left (h : cx.arena.Reach d.left id) : id ∉ d.operators :=
  fun hid => (d.outside hid).1 h

lemma aside_right (h : cx.arena.Reach d.right id) : id ∉ d.operators :=
  fun hid => (d.outside hid).2 h

lemma opposite_left (n : Nat) (hst : st.Placed) (hfresh : d.Untested st)
    (hdepth : st.depth + 1 < cx.options.maxDepth.toNat) :
    Rel (fun r r' => ∃ ρ, .upTo st.store.size ≤ ρ ∧ Opposite cx (· ∈ d.operators)
        (d.insideAnd st) (d.insideOr st) d.left d.notLeft ρ r.2 r'.2)
      ((evaluator n).infer d.left cx (d.insideAnd st))
      ((evaluator (n + 1)).infer d.notLeft cx (d.insideOr st)) := by
  refine opposite_operand n d.aside_left (by simp [operators]) d.notLeft_eq hdepth
    (hfresh (.inr (.inr (by simp [operators])))) ?_
  exact Comparison.below_start d.aside_left st.store.like_self
    (d.stacks_operand hst d.aside_left d.notLeft_eq _ _) (fun _ => rfl)
    (fun hid => hfresh (.inl hid)) (fun hid => hfresh (.inl hid)) hst.like_breaks rfl

section RightOperand

variable {u v : State}

/-- The state in which the right operand of `a && b` is evaluated, behind the left one. -/
def rightOfAnd (u : State) : State :=
  u.enterRight d.left true

/-- The state in which the right operand of `(!a) || (!b)` is evaluated, behind the left one. -/
def rightOfOr (v : State) : State :=
  v.enterRight d.notLeft false

/-- The right operands of both expressions, and the outcomes of the left ones that are kept for
later. -/
lemma opposite_right (n : Nat) (hst : st.Placed) (hfresh : d.Untested st)
    (hdepth : st.depth + 1 < cx.options.maxDepth.toNat) (hle : .upTo st.store.size ≤ ρ)
    (h : Opposite cx (· ∈ d.operators) (d.insideAnd st) (d.insideOr st) d.left d.notLeft ρ u v) :
    ∃ ρ', ρ ≤ ρ' ∧ (u.copyOn d.left false).Like .full ρ' (v.copyOn d.notLeft true) ∧
      Rel (fun r r' => ∃ ρ'', ρ' ≤ ρ'' ∧ Opposite cx (· ∈ d.operators) (d.rightOfAnd u)
          (d.rightOfOr v) d.right d.notRight ρ'' r.2 r'.2)
        ((evaluator n).infer d.right cx (d.rightOfAnd u))
        ((evaluator (n + 1)).infer d.notRight cx (d.rightOfOr v)) := by
  obtain ⟨ρ', hle', hstore, hstart, hkept⟩ :=
    forks_crosswise h.store (h.outcomes true) (h.outcomes false)
  obtain ⟨⟨s, hstackLeft⟩, hdepthLeft⟩ := h.stackLeft
  obtain ⟨⟨s', hstackRight⟩, hdepthRight⟩ := h.stackRight
  have houtside : ∀ {c}, c ∈ d.operators →
      ¬ (cx.arena.Reach d.left c ∧ (cx.arena.expr? c).isSome = true) :=
    fun hc hreach => (d.outside hc).1 hreach.1
  have hnotRight : v.table.assertions.get? d.notRight = none :=
    (h.recordsRight (houtside (by simp [operators])) d.notLeft_ne.symm).trans
      (hfresh (.inr (.inr (by simp [operators]))))
  refine ⟨ρ', hle', hkept, opposite_operand n d.aside_right (by simp [operators]) d.notRight_eq
    (hdepthRight ▸ hdepth) hnotRight ?_⟩
  refine Comparison.below_start d.aside_right hstore ?_ h.types (fun {id} hid => ?_)
    (fun {id} hid => ?_) (h.breaks.imp fun _ _ hframe => AllLike.mono hframe hle') ?_
  · have hstacks := (d.stacks_operand hst d.aside_right d.notRight_eq (d.rightOfAnd u)
      ((d.rightOfOr v).enterNode d.notRight)).mono (le_trans hle hle')
    have hleft : (d.rightOfAnd u).stack =
        (d.insideAnd st).stack.setCurrent (u.copyOn d.left true) := by
      show u.stack.setCurrent _ = _
      rw [hstackLeft, setCurrent_setCurrent]
    have hright : ((d.rightOfOr v).enterNode d.notRight).stack =
        ((d.insideOr st).stack.pushNode d.notRight).setCurrent (v.copyOn d.notLeft false) := by
      show (v.stack.setCurrent _).pushNode _ = _
      rw [hstackRight, setCurrent_setCurrent, setCurrent_pushNode]
    rw [hleft, hright]
    exact hstacks.setCurrent hstart
  · exact (h.recordsLeft (d.not_tested_left hid)).trans (hfresh (.inr (.inl hid)))
  · have hne : id ≠ d.notLeft := by
      rintro rfl
      exact d.aside_right hid (by simp [operators])
    exact (h.recordsRight (d.not_tested_left hid) hne).trans (hfresh (.inr (.inl hid)))
  · show u.depth = v.depth + 1
    rw [hdepthLeft, hdepthRight]
    rfl

/-- The state behind `a && b`, behind its operands. -/
def behindAnd (u w : State) : State :=
  (w.leaveRight true d.both d.left d.right u.stack.current (u.copyOn d.left false)).leaveNode d.both
    (some .bool)

/-- The state behind `(!a) || (!b)`, behind its operands. -/
def behindOr (v x : State) : State :=
  (x.leaveRight false d.either d.notLeft d.notRight v.stack.current
    (v.copyOn d.notLeft true)).leaveNode d.either (some .bool)

lemma notBoth_ne : d.notBoth ≠ d.both := by
  intro heq
  have := d.notBoth_eq
  rw [heq, d.both_eq] at this
  cases this

lemma either_ne_not
    (he : cx.arena.expr? negated = some (.unary .not operand)) : d.either ≠ negated := by
  intro heq
  have := d.either_eq
  rw [heq, he] at this
  cases this

variable {ρ' : Matching} {w x : State}
  (h : Opposite cx (· ∈ d.operators) (d.insideAnd st) (d.insideOr st) d.left d.notLeft ρ u v)
  (h' : Opposite cx (· ∈ d.operators) (d.rightOfAnd u) (d.rightOfOr v) d.right d.notRight ρ' w x)

include h h'

lemma narrows_eq :
    ((w.table.assertions.get? d.left).isSome || (w.table.assertions.get? d.right).isSome) =
      ((x.table.assertions.get? d.notLeft).isSome ||
        (x.table.assertions.get? d.notRight).isSome) := by
  have hleft : w.table.assertions.get? d.left = u.table.assertions.get? d.left :=
    h'.recordsLeft (d.not_tested_right (.refl d.left))
  have hright : x.table.assertions.get? d.notLeft = v.table.assertions.get? d.notLeft :=
    h'.recordsRight (fun hreach => (d.outside (by simp)).2 hreach.1) d.notLeft_ne
  rw [hleft, hright, h.isSome, h'.isSome]

/-- An operator of which nothing was recorded before its operands has no record behind them. -/
lemma untested_behind_left (hfresh : d.Untested st) (hid : id ∈ d.operators) :
    w.table.assertions.get? id = none :=
  (h'.recordsLeft fun hreach => (d.outside hid).2 hreach.1).trans
    ((h.recordsLeft fun hreach => (d.outside hid).1 hreach.1).trans (hfresh (.inr (.inr hid))))

lemma untested_behind_right (hfresh : d.Untested st) (hid : id ∈ d.operators)
    (hne : id ≠ d.notLeft) (hne' : id ≠ d.notRight) : x.table.assertions.get? id = none :=
  (h'.recordsRight (fun hreach => (d.outside hid).2 hreach.1) hne').trans
    ((h.recordsRight (fun hreach => (d.outside hid).1 hreach.1) hne).trans
      (hfresh (.inr (.inr hid))))

/-- Behind `a && b` and `(!a) || (!b)` the current scopes are alike, and the outcomes are exchanged. -/
lemma alike_behind (hfresh : d.Untested st) (hle : ρ ≤ ρ')
    (hkept : (u.copyOn d.left false).Like .full ρ' (v.copyOn d.notLeft true)) :
    (∃ ρ'', (d.behindAnd u w).store.Like .full ρ'' (d.behindOr v x).store ∧
      (d.behindAnd u w).stack.current.Like .full ρ'' (d.behindOr v x).stack.current) ∧
    ∀ outcome, ((d.behindAnd u w).implied d.both (!outcome)).SaysLike True True (d.behindAnd u w).store
      ((d.behindOr v x).implied d.either outcome) (d.behindOr v x).store := by
  obtain ⟨ρ'', -, hstore, hcurrent, hcopy, hjoin⟩ := shortCircuit_crosswise h'.store
    (h'.outcomes true) (hkept.saysLike h'.store) (h'.outcomes false) (h.current.mono hle) h'.current
  have hsame := hcurrent.saysLike hstore
  have hcurrentAnd : (d.behindAnd u w).stack.current = _ := current_setCurrent ..
  have hcurrentOr : (d.behindOr v x).stack.current = _ := current_setCurrent ..
  have hand : ∀ outcome, (d.behindAnd u w).implied d.both outcome = _ := fun outcome =>
    implied_leaveShort (d.untested_behind_left h h' hfresh (by simp [operators])) d.left
      d.right _ _ _ outcome
  have hor : ∀ outcome, (d.behindOr v x).implied d.either outcome = _ := fun outcome =>
    implied_leaveShort (d.untested_behind_right h h' hfresh (by simp [operators])
      (d.either_ne_not d.notLeft_eq) (d.either_ne_not d.notRight_eq)) d.notLeft d.notRight
      _ _ _ outcome
  refine ⟨⟨ρ'', hstore, ?_⟩, fun outcome => ?_⟩
  · rw [hcurrentAnd, hcurrentOr]
    exact hcurrent
  · rw [hand, hor, d.narrows_eq h h']
    split
    · cases outcome
      exacts [hcopy, hjoin]
    · exact hsame

end RightOperand

/-! ### Runs -/

lemma run_and (n : Nat) (hdepth : st.depth + 1 < cx.options.maxDepth.toNat) :
    (evaluator (n + 1)).infer d.both cx (st.enterNode d.notBoth) =
      ((evaluator n).infer d.left cx (d.insideAnd st)).bind fun u =>
        ((evaluator n).infer d.right cx (d.rightOfAnd u.2)).bind fun w =>
          some (some .bool, d.behindAnd u.2 w.2) :=
  inferNode_short d.both_eq hdepth

lemma run_or (n : Nat) (hdepth : st.depth < cx.options.maxDepth.toNat) :
    (evaluator (n + 1)).infer d.either cx st =
      ((evaluator n).infer d.notLeft cx (d.insideOr st)).bind fun v =>
        ((evaluator n).infer d.notRight cx (d.rightOfOr v.2)).bind fun x =>
          some (some .bool, d.behindOr v.2 x.2) :=
  inferNode_short d.either_eq hdepth

/-- Behind the two expressions the current scopes are alike, and the outcomes say the same. -/
structure Alike (d : cx.arena.Duals) (g y : State) : Prop where
  current : ∃ ρ, g.store.Like .full ρ y.store ∧ g.stack.current.Like .full ρ y.stack.current
  outcomes : ∀ outcome, (g.implied d.notBoth outcome).SaysLike True True g.store
    (y.implied d.either outcome) y.store

lemma alike_infer (budget : Nat) (hst : st.Placed) (hfresh : d.Untested st)
    (hdepth : st.depth + 1 < cx.options.maxDepth.toNat) :
    Rel (fun r r' => r.1 = r'.1 ∧ d.Alike r.2 r'.2)
      ((evaluator budget).infer d.notBoth cx st) ((evaluator budget).infer d.either cx st) := by
  have hdepth' : st.depth < cx.options.maxDepth.toNat := Nat.lt_of_succ_lt hdepth
  match budget with
  | 0 => exact .none
  | 1 =>
    rw [show (evaluator 1).infer d.notBoth cx st = none from
      infer_not_none d.notBoth_eq hdepth' rfl, d.run_or 0 hdepth']
    exact .none
  | n + 2 =>
    have hneither : (evaluator (n + 1)).infer d.both cx (st.enterNode d.notBoth) = none →
        (evaluator (n + 2)).infer d.notBoth cx st = none := infer_not_none d.notBoth_eq hdepth'
    have hand := d.run_and n hdepth
    have hor := d.run_or (n + 1) hdepth'
    rcases rel_cases (d.opposite_left n hst hfresh hdepth) with
      ⟨hleft, hnotLeft⟩ | ⟨u, v, hleft, hnotLeft, ρ1, hle1, hopposite⟩
    · rw [hleft] at hand
      rw [hneither hand, hor, hnotLeft]
      exact .none
    obtain ⟨ρ2, hle2, hkept, hoperands⟩ := d.opposite_right n hst hfresh hdepth hle1 hopposite
    rcases rel_cases hoperands with
      ⟨hright, hnotRight⟩ | ⟨w, x, hright, hnotRight, ρ3, hle3, hopposite'⟩
    · rw [hleft, bind_some, hright] at hand
      rw [hneither hand, hor, hnotLeft, bind_some, hnotRight]
      exact .none
    rw [hleft, bind_some, hright, bind_some] at hand
    rw [hor, hnotLeft, bind_some, hnotRight, bind_some]
    obtain ⟨⟨ρ', hstore, hcurrent⟩, houtcomes⟩ := d.alike_behind hopposite hopposite' hfresh
      (le_trans hle2 hle3) (hkept.mono hle3)
    have hreference : (cx.arena.reference? d.both).isSome = false := by
      simp [reference?, d.both_eq]
    obtain ⟨g, hrun, hnegates⟩ := infer_not d.notBoth_eq hdepth' hand
      ((get?_leaveShort d.notBoth_ne ..).trans
        (d.untested_behind_left hopposite hopposite' hfresh (by simp [operators])))
      (isEmpty_leaveShort
        (d.untested_behind_left hopposite hopposite' hfresh (by simp [operators])))
      (fun _ href => by rw [hreference] at href; cases href)
    rw [show (evaluator (n + 2)).infer d.notBoth cx st = _ from hrun]
    refine .some ⟨rfl, ⟨ρ', hstore.extend hnegates.store (.refl _), ?_⟩, fun outcome => ?_⟩
    · rw [← hnegates.stack] at hcurrent
      exact hcurrent
    · exact hnegates.outcomes (houtcomes outcome)

end Arena.Duals

/-! ## What scopes say -/

/-- The view with the marks of changed variables cleared. -/
def ScopeView.settled (view : ScopeView) : ScopeView :=
  { view with vars := view.vars.map fun (name, v) => (name, unchanged v) }

lemma Variable.Like.unchanged_eq {v w : Variable} (h : v.Like ⟨True, True, False⟩ w) :
    unchanged v = unchanged w :=
  Variable.Like.eq { h with typeChanged := fun _ => rfl }

lemma ScopeView.Like.settled_eq {v w : ScopeView} (h : v.Like ⟨True, True, False⟩ w) :
    v.settled = w.settled := by
  have hvars : v.vars.map (fun (name, x) => (name, unchanged x)) =
      w.vars.map fun (name, x) => (name, unchanged x) := by
    rw [← forall₂_eq_eq_eq, forall₂_map_left_iff, forall₂_map_right_iff]
    exact h.vars.imp fun _ _ hef => Prod.ext hef.1 hef.2.unchanged_eq
  unfold settled
  rw [hvars, h.chains, h.flags.eq, h.function trivial]

lemma copies_says {g y : State} {id' : NodeId}
    (h : ∀ outcome, (g.implied id outcome).SaysLike True True g.store (y.implied id' outcome) y.store) :
    (g.copies id).1.1.SaysLike True True (g.copies id).2 (y.copies id').1.1 (y.copies id').2 ∧
      (g.copies id).1.2.SaysLike True True (g.copies id).2 (y.copies id').1.2 (y.copies id').2 :=
  ⟨(h true).forkLeft.forkRight.extend (extends_fork ..) (extends_fork ..),
    ((h false).extend (extends_fork ..) (extends_fork ..)).forkLeft.forkRight⟩

/-- Two evaluations of conditions have the same type and leave the same current scope, and the scopes on
either outcome are the same side by side, up to the marks of changed variables. -/
structure SameBranches (cx : Context) (id id' : NodeId) (r r' : Option Ty × State) : Prop where
  type : r.1 = r'.1
  current : r.2.stack.current.view r.2.store = r'.2.stack.current.view r'.2.store
  branches : ∃ branches branches' after after',
    branchScopes id cx r.2 = some (branches, after) ∧
    branchScopes id' cx r'.2 = some (branches', after') ∧
    (branches.1.view after.store).settled = (branches'.1.view after'.store).settled ∧
    (branches.2.view after.store).settled = (branches'.2.view after'.store).settled

/-- De Morgan for branch scopes: `!(a && b)` and `(!a) || (!b)` over the same operands, evaluated from
a state in which nothing is known of their nodes, come to the same.  Neither runs out of budget without
the other. -/
theorem deMorgan (d : cx.arena.Duals) (budget : Nat) {st : State} (hst : st.Placed)
    (hfresh : d.Untested st) (hdepth : st.depth + 1 < cx.options.maxDepth.toNat) :
    Rel (SameBranches cx d.notBoth d.either)
      ((evaluator budget).infer d.notBoth cx st) ((evaluator budget).infer d.either cx st) := by
  refine rel_mono (d.alike_infer budget hst hfresh hdepth) fun {r r'} h => ?_
  obtain ⟨htype, ⟨ρ, hstore, hcurrent⟩, houtcomes⟩ := h
  obtain ⟨htrue, hfalse⟩ := copies_says houtcomes
  exact ⟨htype, (hcurrent.view hstore).eq, _, _, _, _, branchScopes_copies d.notBoth r.2,
    branchScopes_copies d.either r'.2, htrue.view.settled_eq, hfalse.view.settled_eq⟩

/-- `!($x === null && $y = 1)`, and `!($x === null) || !($y = 1)` over the same operands. -/
def dualTests : SourceUnit :=
  Build.result do
    let subject ← Build.expr (.var "x")
    let null ← Build.expr .nullConst
    let left ← Build.expr (.binary .identical subject null)
    let target ← Build.expr (.var "y")
    let one ← Build.expr (.int 1)
    let right ← Build.expr (.assign target one)
    let both ← Build.expr (.binary .boolAnd left right)
    let _ ← Build.expr (.unary .not both)
    let notLeft ← Build.expr (.unary .not left)
    let notRight ← Build.expr (.unary .not right)
    let _ ← Build.expr (.binary .boolOr notLeft notRight)
    Build.finish "unit" []

/-- The unit, in an analysis where `$x` is bound from the start. -/
def dualContext : Context :=
  ⟨dualTests.arena, {}, { superglobals := ["x"] }⟩

lemma reach_dualLeft (h : dualContext.arena.Reach 2 id) : id = 0 ∨ id = 1 ∨ id = 2 := by
  simpa using h.mem_of_closed [0, 1, 2] (by decide +kernel) (by simp)

lemma reach_dualRight (h : dualContext.arena.Reach 5 id) : id = 3 ∨ id = 4 ∨ id = 5 := by
  simpa using h.mem_of_closed [3, 4, 5] (by decide +kernel) (by simp)

/-- The two expressions of the unit. -/
def dualForms : dualContext.arena.Duals where
  left := 2
  right := 5
  both := 6
  notBoth := 7
  notLeft := 8
  notRight := 9
  either := 10
  both_eq := rfl
  notBoth_eq := rfl
  notLeft_eq := rfl
  notRight_eq := rfl
  either_eq := rfl
  disjoint hleft hright := by
    have hother := reach_dualRight hright
    rcases reach_dualLeft hleft with rfl | rfl | rfl <;> exact absurd hother (by decide)
  outside {id} hid := by
    constructor
    · intro hreach
      rcases reach_dualLeft hreach with rfl | rfl | rfl <;> exact absurd hid (by decide)
    · intro hreach
      rcases reach_dualRight hreach with rfl | rfl | rfl <;> exact absurd hid (by decide)
  notLeft_ne := by decide

/-- Whether `$x` is null and `$y` is bound where the condition at a node fails. -/
def nullAndBound (id : NodeId) : Option Bool :=
  ((evaluator 9).infer id dualContext (initial dualContext.options)).bind fun r =>
    (branchScopes id dualContext r.2).map fun (branches, after) =>
      branches.2.typeOf? after.store "x" == some .null && branches.2.contains "y"

/-- Both expressions are evaluated to an end, and where they fail `$x` is null and `$y` is bound. -/
theorem deMorgan_dualForms :
    nullAndBound 7 = some true ∧ nullAndBound 10 = some true ∧
    Rel (SameBranches dualContext 7 10)
      ((evaluator 9).infer 7 dualContext (initial dualContext.options))
      ((evaluator 9).infer 10 dualContext (initial dualContext.options)) :=
  ⟨by decide +kernel, by decide +kernel,
    deMorgan dualForms 9 (wf_initial Ty.closed_true _) (fun _ => rfl) (by decide)⟩

end FlowTyping

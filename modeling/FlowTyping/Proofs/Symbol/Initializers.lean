import FlowTyping.Ast.Builder
import FlowTyping.Check.Report
import FlowTyping.Proofs.Ty.Equality
import FlowTyping.Proofs.Walk.Engine

/-!
# Initializers of constants

The type of a constant is read off its initializer, without an evaluation.  Both readings agree on
literals and on words such as `true`.  A sign in front makes a number of whatever it is applied to,
but the first reading passes it over, so that it is right about signs in front of numbers alone.
-/

namespace FlowTyping

open Analysis Arena Option Ty

variable {cx : Context} {arena : Arena} {id : NodeId} {t : Ty} {signs n : Nat} {st st' : State}
  {type : Option Ty}

/-- The type of an initializer that has no sign in front. -/
def Expr.literalType? : Expr → Option Ty
  | .int _ => some .int
  | .float _ => some .float
  | .string _ | .interpolated _ => some .string
  | .array _ => some .array
  | .const name => keywordType? name
  | _ => none

/-- An initializer of the type `t` with `signs` signs in front. -/
inductive Arena.Initializer (arena : Arena) (t : Ty) : Nat → NodeId → Prop
  | plain {id : NodeId} {e : Expr} (he : arena.expr? id = some e) (ht : e.literalType? = some t) :
    Initializer arena t 0 id
  | signed {signs : Nat} {id operand : NodeId} {op : UnaryOp}
    (he : arena.expr? id = some (.unary op operand)) (hop : op = .minus ∨ op = .plus)
    (h : Initializer arena t signs operand) : Initializer arena t (signs + 1) id

lemma Arena.exists_initializer (h : arena.literalTypeUpTo n id = some (some t)) :
    ∃ signs, arena.Initializer t signs id := by
  induction n generalizing id with
  | zero => cases h
  | succ n ih =>
    have hplain {e : Expr} (he : arena.expr? id = some e) (ht : e.literalType? = some t) :
        ∃ signs, arena.Initializer t signs id := ⟨0, .plain he ht⟩
    have hsigned {op : UnaryOp} {operand : NodeId} (he : arena.expr? id = some (.unary op operand))
        (hop : op = .minus ∨ op = .plus) (h : arena.literalTypeUpTo n operand = some (some t)) :
        ∃ signs, arena.Initializer t signs id := by
      obtain ⟨signs, hinit⟩ := ih h
      exact ⟨signs + 1, .signed he hop hinit⟩
    unfold literalTypeUpTo at h
    split at h
    case h_9 => cases h
    all_goals rename_i he
    case h_7 => exact hsigned he (.inl rfl) h
    case h_8 => exact hsigned he (.inr rfl) h
    all_goals exact hplain he (some.inj h)

lemma Expr.exists_of_literalType? {e : Expr} (h : e.literalType? = some t) :
    ∃ kind, t = .primitive kind := by
  unfold Expr.literalType? keywordType? at h
  split at h
  case h_6 => split at h <;> cases h <;> exact ⟨_, rfl⟩
  all_goals cases h <;> exact ⟨_, rfl⟩

lemma Arena.Initializer.primitive (h : arena.Initializer t signs id) :
    ∃ kind, t = .primitive kind := by
  induction h with
  | plain _ ht => exact Expr.exists_of_literalType? ht
  | signed _ _ _ ih => exact ih

lemma Context.constantType?_of_keyword {name : String} (h : keywordType? name = some t) :
    cx.constantType? name = some t := by
  have hkey : Name.key name = Name.key (Name.foldCase name) := (Name.key_foldCase name).symm
  unfold keywordType? at h
  unfold constantType?
  rw [hkey]
  split at h
  · next hword => rw [hword]; exact h
  · next hword => rw [hword]; exact h
  · next hword => rw [hword]; exact h
  · cases h

/-- The type behind signs: a number, unless there are none. -/
def Ty.behindSigns (t : Ty) : Nat → Ty
  | 0 => t
  | _ + 1 => ofSigned (some t)

lemma Ty.ofSigned_behindSigns (t : Ty) (signs : Nat) :
    ofSigned (some (t.behindSigns signs)) = t.behindSigns (signs + 1) := by
  cases signs with
  | zero => rfl
  | succ signs =>
    have hnumber : t.behindSigns (signs + 1) = int ∨ t.behindSigns (signs + 1) = float ∨
        t.behindSigns (signs + 1) = join int float := by
      rw [show t.behindSigns (signs + 1) = ofSigned (some t) from rfl, ofSigned]
      split
      · exact .inl rfl
      · split
        · exact .inr (.inl rfl)
        · exact .inr (.inr rfl)
    show ofSigned (some (t.behindSigns (signs + 1))) = t.behindSigns (signs + 1)
    rcases hnumber with h | h | h <;> rw [h] <;> rfl

lemma Ty.behindSigns_eq_iff {kind : Primitive} :
    (primitive kind).behindSigns signs = primitive kind ↔ signs = 0 ∨ kind = .int ∨ kind = .float := by
  cases signs with
  | zero => simp [behindSigns]
  | succ signs =>
    have hnumber : ofSigned (some (primitive kind)) = primitive kind →
        kind = .int ∨ kind = .float := by
      cases kind with
      | int => exact fun _ => .inl rfl
      | float => exact fun _ => .inr rfl
      | _ => exact nofun
    refine ⟨fun h => .inr (hnumber h), ?_⟩
    rintro (h | rfl | rfl)
    · cases h
    · rfl
    · rfl

lemma Expr.type_of_literalType? {e : Expr} {ev : Evaluator} (h : e.literalType? = some t)
    (hrun : ev.inferExpr id e cx st = some (type, st')) : type = some t := by
  unfold Expr.literalType? at h
  split at h
  case h_7 => cases h
  case h_6 name =>
    have hrun : (pure (cx.constantType? name) : Analysis _) cx st = some (type, st') := hrun
    rw [(of_pure hrun).1, Context.constantType?_of_keyword h]
  all_goals cases h
  case h_4 | h_5 =>
    obtain ⟨⟨⟩, -, rfl⟩ := of_result hrun
    rfl
  all_goals exact (of_pure hrun).1

/-- The induction is on the signs: each of them is one level of evaluation. -/
lemma Arena.Initializer.type_eq (h : cx.arena.Initializer t signs id)
    (hdepth : st.depth + signs < cx.options.maxDepth.toNat)
    (hrun : (evaluator n).infer id cx st = some (type, st')) :
    type = some (t.behindSigns signs) := by
  induction h generalizing n st st' type with
  | plain he ht =>
    obtain ⟨m, st1, -, hrun, -⟩ := infer_inside he hdepth hrun
    exact Expr.type_of_literalType? ht hrun
  | @signed signs id operand op he hop _ ih =>
    obtain ⟨m, st1, -, hrun, -⟩ := infer_inside he (by omega) hrun
    obtain ⟨operandType, st2, hoperand, hrest⟩ := of_bind hrun
    have hdepth : (st.enterNode id).depth + signs < cx.options.maxDepth.toNat := by
      show st.depth + 1 + signs < _
      omega
    rw [← ofSigned_behindSigns, ← ih hdepth hoperand]
    rcases hop with rfl | rfl <;> exact (of_pure hrest).1

/-- A constant is recorded with the type that is read off its initializer.  The evaluation of the
initializer has this type exactly if no sign stands in front or it is a number; signs in front of
anything else make a number of it.  The evaluation ends where the paths from the initializer do. -/
theorem initializer_type (cx : Context) (id : NodeId) (t : Ty)
    (h : cx.arena.literalType id = some (some t)) :
    (∀ file cls info member name, cx.arena.stmt? member = some (.classConst name id) →
      DeclaredIn.addMember ⟨cx.arena, file⟩ cls info member =
        some (info.addConstant { name, type := some t })) ∧
    (∀ file expr callee first second rest name,
      cx.arena.expr? expr = some (.call (.named callee) (first :: second :: rest)) →
      Name.key callee = "define" → cx.arena.expr? first.value = some (.string name) →
      second.value = id →
      DeclaredIn.defined ⟨cx.arena, file⟩ expr = some [.constant { name, type := some t }]) ∧
    ∃ signs, cx.arena.Initializer t signs id ∧ ∀ n st,
      (cx.arena.EndsWithin (cx.arena.size + 1) id → 2 * (cx.arena.size + 1) ≤ n →
        ((evaluator n).infer id cx st).isSome = true) ∧
      ∀ type st', st.depth + signs < cx.options.maxDepth.toNat →
        (evaluator n).infer id cx st = some (type, st') →
        type = some (t.behindSigns signs) ∧
          (type = some t ↔ signs = 0 ∨ t = .int ∨ t = .float) := by
  obtain ⟨signs, hinit⟩ := Arena.exists_initializer h
  refine ⟨fun file cls info member name hmember => ?_, ?_, signs, hinit,
    fun n st => ⟨fun hends hn => ?_, fun type st' hdepth hrun => ?_⟩⟩
  · rw [DeclaredIn.addMember, hmember]
    dsimp only
    rw [h]
    rfl
  · rintro file expr callee first second rest name hexpr hcallee hname rfl
    rw [DeclaredIn.defined, hexpr]
    dsimp only
    rw [if_pos (beq_iff_eq.2 hcallee), hname]
    dsimp only
    rw [h]
    rfl
  · have hwalks := (walker_evaluator cx (Nat.le_refl _) hn).infer hends
    obtain ⟨type, st', hrun, -⟩ := @hwalks st
    rw [hrun]
    rfl
  · have htype := hinit.type_eq hdepth hrun
    obtain ⟨kind, rfl⟩ := hinit.primitive
    refine ⟨htype, ?_⟩
    rw [htype, some.injEq, behindSigns_eq_iff, primitive.injEq, primitive.injEq]

/-- `define('K', -e); K;`, where the negation is node 1, the call node 3 and the constant node 5. -/
def negatedConstant (e : Expr) : SourceUnit :=
  Build.result do
    let literal ← Build.expr e
    let value ← Build.expr (.unary .minus literal)
    let name ← Build.expr (.string "K")
    let call ← Build.expr (.callNamed "define" [name, value])
    let define ← Build.stmt (.exprStmt call none)
    let read ← Build.expr (.const "K")
    let use ← Build.stmt (.exprStmt read none)
    Build.finish "unit" [define, use]

theorem initializer_type_negated_int :
    (negatedConstant (.int 7)).arena.literalType 1 = some (some .int) ∧
    DeclaredIn.defined ⟨(negatedConstant (.int 7)).arena, "unit"⟩ 3 =
      some [.constant { name := "K", type := some .int }] ∧
    ∃ st', (evaluator 9).infer 1 ⟨(negatedConstant (.int 7)).arena, {}, {}⟩ (State.initial {}) =
      some (some .int, st') := by
  have hrun : ((evaluator 9).infer 1 ⟨(negatedConstant (.int 7)).arena, {}, {}⟩
      (State.initial {})).isSome = true := by decide +kernel
  obtain ⟨⟨type, st'⟩, hrun⟩ := isSome_iff_exists.1 hrun
  obtain ⟨-, hdefined, signs, hinit, heval⟩ :=
    initializer_type ⟨(negatedConstant (.int 7)).arena, {}, {}⟩ 1 .int rfl
  have hsigns : signs = 1 := by
    cases hinit with
    | plain he ht => cases he; cases ht
    | signed he _ h =>
      cases he
      cases h with
      | plain => rfl
      | signed he => cases he
  subst hsigns
  obtain ⟨-, htype⟩ := (heval 9 _).2 type st' (by decide) hrun
  exact ⟨rfl, hdefined _ 3 _ _ _ _ _ rfl (by decide) rfl rfl, st', by
    rw [hrun, htype.2 (.inr (.inl rfl))]⟩

/-- The constant is recorded as a text, which its initializer is not. -/
theorem negated_text_constant :
    (negatedConstant (.string "a")).arena.literalType 1 = some (some .string) ∧
    (do
      let index ← ({} : Index).addUnits [negatedConstant (.string "a")]
      let st ← (negatedConstant (.string "a")).analyze index {}
      return (renderOption (st.table.types.get? 1), renderOption (st.table.types.get? 5))) =
        some ("int|float", "string") :=
  ⟨rfl, by decide +kernel⟩

end FlowTyping

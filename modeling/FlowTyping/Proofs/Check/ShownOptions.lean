import FlowTyping.Ast.Builder
import FlowTyping.Proofs.Analysis.Engine
import FlowTyping.Proofs.Symbol.Declarations
import FlowTyping.Proofs.Ty.Equivalence
import FlowTyping.Proofs.Ty.Meaning
import FlowTyping.Proofs.Ty.PrintedTypes

/-!
# Options that look alike

The options of a union that a check records differ as types.  Whether a reader can tell them apart is a
question about their texts.
-/

namespace FlowTyping

open Index List Name Text Ty

/-! ## Texts in lower case -/

lemma Text.map_joinWith (f : Char → Char) (sep : List Char) (pieces : List (List Char)) :
    (joinWith sep pieces).map f = joinWith (sep.map f) (pieces.map (map f)) := by
  fun_induction joinWith sep pieces <;> simp_all [joinWith]

namespace Ty

/-- The text shows what the type is: no class in it is called like a built-in type or has an operator
in its name, and unions and intersections have several members. -/
inductive Shown : Ty → Prop
  | named {name : String} (hchars : ∀ c ∈ name.toList, c ∉ operatorChars)
    (hkind : ∀ kind : Primitive, key name ≠ key kind.keyword) : Shown (.named name)
  | primitive (kind : Primitive) : Shown (.primitive kind)
  | union {members : List Ty} (htwo : 2 ≤ members.length) (h : ∀ t ∈ members, Shown t) :
    Shown (.union members)
  | inter {members : List Ty} (htwo : 2 ≤ members.length) (h : ∀ t ∈ members, Shown t) :
    Shown (.inter members)

/-- The operator between the members. -/
def operator : Ty → Option Char
  | .union _ => some '|'
  | .inter _ => some '&'
  | _ => none

/-- The members on either side of an operator. -/
def operands : Ty → List Ty
  | .union members | .inter members => members
  | _ => []

/-- The text of a type in lower case. -/
def folded (t : Ty) : List Char :=
  t.chars.map Char.toLower

/-- The text of a member in lower case. -/
def foldedMember (t : Ty) : List Char :=
  if t.operator.isSome then inBrackets t.folded else t.folded

lemma folded_of_operator {t : Ty} {sep : Char} (h : t.operator = some sep) :
    t.folded = joinWith [sep] (t.operands.map foldedMember) := by
  have hmember : map Char.toLower ∘ memberText = foldedMember := by
    funext t
    cases t <;> simp [memberText, foldedMember, isCompound, operator, inBrackets, folded]
  cases t with
  | union members | inter members =>
    cases h
    simp only [folded, chars_union, chars_inter, map_joinWith, map_map, hmember]
    rfl
  | _ => cases h

lemma bracket_operator {t : Ty} {sep : Char} (h : t.operator = some sep) :
    opensBracket sep = false ∧ closesBracket sep = false ∧
      ∀ c, isInOperand c = true → (c != sep) = true := by
  cases t with
  | union | inter =>
    cases h
    refine ⟨rfl, rfl, fun c hc => ?_⟩
    simp_all [isInOperand]
  | _ => cases h

namespace Shown

variable {t a b : Ty} {sep : Char}

lemma operands_of_operator (h : t.Shown) (hop : t.operator = some sep) :
    2 ≤ t.operands.length ∧ ∀ u ∈ t.operands, u.Shown := by
  cases h with
  | union htwo h | inter htwo h => exact ⟨htwo, h⟩
  | _ => cases hop

lemma notMem_operatorChars (h : t.Shown) (hop : t.operator = none) :
    ∀ c ∈ t.folded, c ∉ operatorChars := by
  cases h with
  | named hchars =>
    refine forall_mem_map.2 fun c hc hmem => hchars c hc ?_
    have hd : ∀ d ∈ operatorChars, d < 'a' ∨ 'z' < d := by simp [operatorChars]
    rwa [eq_of_toLower_eq (hd _ hmem) rfl]
  | primitive kind => cases kind <;> exact forall_mem_of_all rfl
  | union | inter => cases hop

lemma nested_foldedMember (h : t.Shown) {p : Char → Bool}
    (hp : ∀ c, isInOperand c = true → p c = true) : Nested p 0 t.foldedMember = true := by
  induction t using byMembers generalizing p with
  | nullable => cases h
  | named | primitive =>
    exact nested_imp hp (nested_of_forall_notMem (h.notMem_operatorChars rfl))
  | union members ih | inter members ih =>
    have hmembers := (h.operands_of_operator rfl).2
    rw [foldedMember, folded_of_operator rfl]
    refine nested_inBrackets (p := fun _ => true) (nested_joinWith rfl rfl rfl ?_)
    exact forall_mem_map.2 fun t ht => ih t ht (hmembers t ht) fun _ _ => rfl

/-- The operator of a type is the only one outside of brackets, and its members are what stands
between. -/
lemma splitTop_folded (h : t.Shown) {s : Ty} (hs : s.operator = some sep) :
    splitTop sep t.folded = if t.operator = some sep then t.operands.map foldedMember else [t.folded] := by
  obtain ⟨hopen, hclose, hp⟩ := bracket_operator hs
  have hnested (hop : t.operator.isSome) : ∀ piece ∈ t.operands.map foldedMember,
      Nested (· != sep) 0 piece = true := by
    obtain ⟨_, hop⟩ := Option.isSome_iff_exists.1 hop
    exact forall_mem_map.2 fun u hu => ((h.operands_of_operator hop).2 u hu).nested_foldedMember hp
  split
  · next hop =>
    have htwo := (h.operands_of_operator hop).1
    rw [folded_of_operator hop]
    refine splitTop_joinWith hopen hclose ?_ (hnested (by simp [hop]))
    exact ne_nil_of_length_pos (by rw [length_map]; omega)
  · next hop =>
    refine splitTop_of_nested ?_
    cases hother : t.operator with
    | none => exact nested_imp hp (nested_of_forall_notMem (h.notMem_operatorChars hother))
    | some other =>
      obtain ⟨hopen, hclose, -⟩ := bracket_operator hother
      rw [folded_of_operator hother]
      exact nested_joinWith hopen hclose (by simpa [hother] using hop) (hnested (by simp [hother]))

lemma operator_eq (ha : a.Shown) (hb : b.Shown) (h : a.folded = b.folded)
    (hop : a.operator = some sep) :
    b.operator = some sep ∧ Forall₂ (fun x y => x.foldedMember = y.foldedMember) a.operands
      b.operands := by
  have hsplit := ha.splitTop_folded hop
  rw [h, hb.splitTop_folded hop, if_pos hop] at hsplit
  split at hsplit
  · next hop' => exact ⟨hop', map_eq_map_iff_forall₂.1 hsplit.symm⟩
  · have hlength := congrArg length hsplit
    have htwo := (ha.operands_of_operator hop).1
    simp at hlength
    omega

lemma folded_eq (ha : a.Shown) (hb : b.Shown) (h : a.foldedMember = b.foldedMember) :
    a.folded = b.folded := by
  have hmixed {s t : Ty} (ht : t.Shown) (hop : t.operator = none) : inBrackets s.folded ≠ t.folded :=
    fun heq => ht.notMem_operatorChars hop '(' (heq ▸ mem_cons_self) (by decide)
  rw [foldedMember, foldedMember] at h
  cases hopa : a.operator <;> cases hopb : b.operator <;> rw [hopa, hopb] at h
  · exact h
  · exact absurd h.symm (hmixed ha hopa)
  · exact absurd h (hmixed hb hopb)
  · simpa [inBrackets] using h

lemma operands_respelled (ha : a.Shown) (hb : b.Shown) (h : a.folded = b.folded)
    (hop : a.operator = some sep)
    (ih : ∀ x ∈ a.operands, ∀ {y : Ty}, x.Shown → y.Shown → x.folded = y.folded → Respelled x y) :
    b.operator = some sep ∧ Forall₂ Respelled a.operands b.operands := by
  obtain ⟨hop', hall⟩ := ha.operator_eq hb h hop
  obtain ⟨hlength, hzip⟩ := forall₂_iff_zip.1 hall
  refine ⟨hop', forall₂_iff_zip.2 ⟨hlength, fun hxy => ?_⟩⟩
  obtain ⟨hx, hy⟩ := of_mem_zip hxy
  have hx' := (ha.operands_of_operator hop).2 _ hx
  have hy' := (hb.operands_of_operator hop').2 _ hy
  exact ih _ hx hx' hy' (hx'.folded_eq hy' (hzip hxy))

lemma respelled (ha : a.Shown) (hb : b.Shown) (h : a.folded = b.folded) : Respelled a b := by
  have hkey {x y : String} (hxy : x.toList.map Char.toLower = y.toList.map Char.toLower) :
      key x = key y :=
    key_eq_of_foldCase_eq (congrArg String.ofList hxy)
  induction a using byMembers generalizing b with
  | nullable => cases ha
  | named x =>
    cases b with
    | nullable => cases hb
    | named y => exact .named (key_eq_iff_alike.1 (hkey h))
    | primitive kind =>
      cases ha with | named _ hkind => exact absurd (hkey h) (hkind kind)
    | union _ | inter _ => cases (hb.operator_eq ha h.symm rfl).1
  | primitive kind =>
    cases b with
    | nullable => cases hb
    | named y =>
      cases hb with | named _ hkind => exact absurd (hkey h).symm (hkind kind)
    | primitive kind' => rw [Primitive.eq_of_key_keyword (hkey h)]; exact .primitive kind'
    | union _ | inter _ => cases (hb.operator_eq ha h.symm rfl).1
  | union xs ih =>
    obtain ⟨hop, hall⟩ := ha.operands_respelled hb h rfl ih
    cases b with
    | union ys => exact .union hall
    | _ => cases hop
  | inter xs ih =>
    obtain ⟨hop, hall⟩ := ha.operands_respelled hb h rfl ih
    cases b with
    | inter ys => exact .inter hall
    | _ => cases hop

end Shown
end Ty

/-! ## Checks -/

/-- Where a check returns, the texts of two options of a union in the table of nodes differ by more than
the case of letters, if they show what the options are. -/
theorem checkUnits_shown_distinct {units : List SourceUnit} {options : Options}
    {reports : List FileReport} (h : checkUnits units options = some reports) :
    ∃ index, builtin.addUnits units = some index ∧ ∀ unit ∈ units,
      ∃ st, unit.analyze index options = some st ∧ ∀ id members,
        st.table.types.get? id = some (.union members) →
        members.Pairwise fun a b =>
          a.Shown → b.Shown → Name.foldCase a.render ≠ Name.foldCase b.render := by
  obtain ⟨index, hadd, hreports⟩ := Option.bind_eq_some_iff.1 h
  have hindex := (typesIn_builtin closed_normal).addUnits closed_normal hadd
  refine ⟨index, hadd, fun unit hunit => ?_⟩
  obtain ⟨report, -, hreport⟩ := exists_of_mapM_of_mem hreports hunit
  obtain ⟨st, hst, -⟩ := Option.bind_eq_some_iff.1 hreport
  refine ⟨st, hst, fun id members hget => ?_⟩
  have hwf := SourceUnit.wf_of_analyzeUpTo closed_normal hindex hst
  have hnormal : (union members).Normal := hwf.table.types _ (IdMap.mem_of_get? hget)
  refine hnormal.2.2.2.imp fun {a b} hne ha hb htext => ?_
  have hfolded : a.folded = b.folded := by
    simpa [Name.foldCase, render, folded] using congrArg String.toList htext
  cases hne.symm.trans (ha.respelled hb hfolded).eqv

/-- `if ($c) { $x = function () {}; } else { $x = new …; } $x;`, where node 10 is the last read of
`$x`. -/
def closureOr (cls : String) : SourceUnit :=
  Build.result do
    let condition ← Build.expr (.var "c")
    let written ← Build.expr (.closure { params := [], uses := [], body := [] })
    let taken ← Build.assignStmt "x" written
    let made ← Build.expr (.newNamed cls [])
    let skipped ← Build.assignStmt "x" made
    let branch ← Build.stmt (.simpleIf condition [taken] (some [skipped]))
    let read ← Build.expr (.var "x")
    let last ← Build.stmt (.exprStmt read none)
    Build.finish "unit" [branch, last]

theorem checkUnits_shown_distinct_closureOr :
    (checkUnits [closureOr "A"] {}).isSome ∧
      ∃ index, builtin.addUnits [closureOr "A"] = some index ∧
        ∃ st, (closureOr "A").analyze index {} = some st ∧ ∀ id members,
          st.table.types.get? id = some (.union members) → members.Pairwise fun a b =>
            a.Shown → b.Shown → Name.foldCase a.render ≠ Name.foldCase b.render := by
  have hsome : (checkUnits [closureOr "A"] {}).isSome := by decide +kernel
  obtain ⟨reports, hreports⟩ := Option.isSome_iff_exists.1 hsome
  obtain ⟨index, hadd, hunits⟩ := checkUnits_shown_distinct hreports
  exact ⟨hsome, index, hadd, hunits (closureOr "A") (.head _)⟩

/-- A function that is written out and an object of the class `Closure` are two options with the same
text. -/
theorem closures_look_alike :
    ∃ index, builtin.addUnits [closureOr "Closure"] = some index ∧
      ∃ st, (closureOr "Closure").analyze index {} = some st ∧
        (st.table.types.get? 10).map render = some "Closure|Closure" := by
  have hrun : (builtin.addUnits [closureOr "Closure"]).any (fun index =>
      ((closureOr "Closure").analyze index {}).any fun st =>
        decide ((st.table.types.get? 10).map render = some "Closure|Closure")) = true := by
    decide +kernel
  obtain ⟨index, hadd, hrun⟩ := (Option.any_eq_true ..).1 hrun
  obtain ⟨st, hst, htext⟩ := (Option.any_eq_true ..).1 hrun
  exact ⟨index, hadd, st, hst, of_decide_eq_true htext⟩

end FlowTyping

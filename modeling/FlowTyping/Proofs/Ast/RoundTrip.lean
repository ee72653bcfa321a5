import FlowTyping.Ast.Builder
import FlowTyping.Ast.Codec
import Mathlib.Data.List.Forall2

/-!
# Dumps are read as they were written

A dump that is written with every field can be written in other ways that say the same.  Reading it
gives back the tree that was written, in every way in which it may be written.  The proofs follow the
types of the tree: one lemma `reads` for each record and each choice, with one line for each
alternative, in which the parts appear in the order in which they are read.
-/

namespace FlowTyping

variable {fields : List (String × Json)} {name : String} {v : Json} {α : Type}
  {read : Json → Option α} {a : α} {write : α → Json}

namespace Json

open List

/-- Whether a name begins with a small letter, as the names of parts do. -/
def isPartName (name : String) : Bool :=
  name.toList.head?.any Char.isLower

/-- The names are those of different parts. -/
def arePartNames (names : List String) : Bool :=
  names.all isPartName && decide names.Nodup

/-- The second value is another way to write the first one. -/
inductive Respelled : Json → Json → Prop
  | same (value : Json) : Respelled value value
  | items {vs ws : List Json} (h : List.Forall₂ Respelled vs ws) : Respelled (.arr vs) (.arr ws)
  | choice (tag : String) {v w : Json} (h : Respelled v w) :
    Respelled (.obj [(tag, v)]) (.obj [(tag, w)])
  /-- Every field is still there once, or it is left out and was `null`; there may be others. -/
  | record {fields fields' : List (String × Json)} (value : String → Json)
    (names : ∀ f ∈ fields, isPartName f.1 = true)
    (values : ∀ f ∈ fields, Respelled f.2 (value f.1))
    (kept : ∀ f ∈ fields,
      valuesOf f.1 fields' = [value f.1] ∨ (f.2 = .null ∧ valuesOf f.1 fields' = [])) :
    Respelled (.obj fields) (.obj fields')
  | jump (tag : String) :
    Respelled (.obj [("Stmt", .str tag)]) (.obj [("Stmt", .obj [(tag, .null)])])

/-- How a record may hold a part with the given name that is written as `v`. -/
def PartOf (fields : List (String × Json)) (name : String) (v : Json) : Prop :=
  (∃ w, valuesOf name fields = [w] ∧ Respelled v w) ∨ (v = .null ∧ valuesOf name fields = [])

/-- A record may hold all of these parts. -/
def PartsOf (fields : List (String × Json)) : List (String × Json) → Prop
  | [] => True
  | (name, v) :: parts => PartOf fields name v ∧ PartsOf fields parts

lemma partsOf_iff {parts : List (String × Json)} :
    PartsOf fields parts ↔ ∀ f ∈ parts, PartOf fields f.1 f.2 := by
  induction parts with
  | nil => simp [PartsOf]
  | cons f parts ih => rw [PartsOf, ih, forall_mem_cons]

lemma valuesOf_cons (name key : String) (v : Json) (fields : List (String × Json)) :
    valuesOf name ((key, v) :: fields) =
      if key == name then v :: valuesOf name fields else valuesOf name fields := by
  simp only [valuesOf, filterMap_cons]
  cases key == name <;> rfl

lemma valuesOf_eq_nil (h : name ∉ fields.map Prod.fst) : valuesOf name fields = [] := by
  induction fields with
  | nil => rfl
  | cons f fields ih =>
    obtain ⟨key, v⟩ := f
    rw [map_cons, mem_cons, not_or] at h
    rw [valuesOf_cons, if_neg (by simpa using Ne.symm h.1), ih h.2]

lemma valuesOf_eq_singleton (h : (fields.map Prod.fst).Nodup) {f : String × Json}
    (hf : f ∈ fields) : valuesOf f.1 fields = [f.2] := by
  induction fields with
  | nil => cases hf
  | cons e fields ih =>
    obtain ⟨key, v⟩ := e
    rw [map_cons, nodup_cons] at h
    rw [valuesOf_cons]
    rcases mem_cons.1 hf with rfl | hf
    · rw [if_pos (beq_self_eq_true _), valuesOf_eq_nil h.1]
    · have hne : key ≠ f.1 := fun heq => h.1 (mem_map.2 ⟨f, hf, heq.symm⟩)
      rw [if_neg (by simpa using hne), ih h.2 hf]

namespace Respelled

variable {w : Json}

lemma parts {parts : List (String × Json)} (h : Respelled (.obj parts) w) {names : List String}
    (hnames : parts.map Prod.fst = names) (hok : arePartNames names = true) :
    ∃ fields, w = .obj fields ∧ PartsOf fields parts := by
  rw [arePartNames, Bool.and_eq_true, decide_eq_true_eq, all_eq_true, ← hnames] at hok
  obtain ⟨hall, hnodup⟩ := hok
  generalize hv : obj parts = v at h
  cases h with
  | same =>
    subst hv
    exact ⟨parts, rfl, partsOf_iff.2 fun f hf =>
      .inl ⟨f.2, valuesOf_eq_singleton hnodup hf, .same _⟩⟩
  | items => cases hv
  | @choice tag v w h =>
    obtain rfl := obj.inj hv
    refine ⟨[(tag, w)], rfl, .inl ⟨w, ?_, h⟩, trivial⟩
    rw [valuesOf_cons, if_pos (beq_self_eq_true _)]
    rfl
  | @record fields fields' value _ hvalues hkept =>
    obtain rfl := obj.inj hv
    refine ⟨fields', rfl, partsOf_iff.2 fun f hf => ?_⟩
    exact (hkept f hf).imp (fun hkept => ⟨_, hkept, hvalues f hf⟩) id
  | jump tag =>
    obtain rfl := obj.inj hv
    exact absurd (hall "Stmt" (by simp)) (by decide)

lemma of_parts {parts : List (String × Json)} (hnames : (parts.map Prod.fst).all isPartName = true)
    (h : PartsOf fields parts) : Respelled (.obj parts) (.obj fields) := by
  rw [partsOf_iff] at h
  refine .record (fun name => (valuesOf name fields).headD .null) (fun f hf => ?_)
    (fun f hf => ?_) fun f hf => ?_
  · exact all_eq_true.1 hnames f.1 (mem_map_of_mem hf)
  · rcases h f hf with ⟨w, hw, hfw⟩ | ⟨hnull, hnone⟩
    · rwa [hw]
    · rw [hnull, hnone]
      exact .same _
  · rcases h f hf with ⟨w, hw, -⟩ | hnone
    · exact .inl (by rw [hw]; rfl)
    · exact .inr hnone

lemma alternative {tag : String} (h : Respelled (.obj [(tag, v)]) w)
    (htag : isPartName tag = false) :
    (∃ v', w = .obj [(tag, v')] ∧ Respelled v v') ∨
      (tag = "Stmt" ∧ ∃ word, v = .str word ∧ w = .obj [(tag, .obj [(word, .null)])]) := by
  cases h with
  | same => exact .inl ⟨v, rfl, .same v⟩
  | choice _ h => exact .inl ⟨_, rfl, h⟩
  | record value hnames _ _ =>
    have hpart := hnames (tag, v) (.head _)
    rw [htag] at hpart
    cases hpart
  | jump word => exact .inr ⟨rfl, word, rfl, rfl⟩

lemma alternative_of_ne {tag : String} (h : Respelled (.obj [(tag, v)]) w)
    (htag : isPartName tag = false) (hne : tag ≠ "Stmt" := by decide) :
    ∃ v', w = .obj [(tag, v')] ∧ Respelled v v' := by
  rcases h.alternative htag with h | ⟨heq, -⟩
  · exact h
  · exact absurd heq hne

lemma arr {vs : List Json} (h : Respelled (.arr vs) w) :
    ∃ ws, w = .arr ws ∧ List.Forall₂ Respelled vs ws := by
  cases h with
  | same => exact ⟨vs, rfl, forall₂_same.2 fun v _ => .same v⟩
  | items h => exact ⟨_, rfl, h⟩

end Respelled

/-! ## Readers -/

/-- However the value is written, the reader gives `a`. -/
def Reads (read : Json → Option α) (v : Json) (a : α) : Prop :=
  ∀ w, Respelled v w → read w = some a

lemma read_bind {β : Type} {x : Option α} {f : α → Option β} {y : Option β} (hx : x = some a)
    (hf : f a = y) : x.bind f = y := by
  rw [hx, Option.bind_some, hf]

lemma reads_str (s : String) : Reads str? (.str s) s := by
  intro w h
  cases h
  rfl

lemma reads_bool (b : Bool) : Reads bool? (.bool b) b := by
  intro w h
  cases h
  rfl

lemma reads_uint32 (n : UInt32) : Reads uint32? (ofUInt32 n) n := by
  intro w h
  cases h
  have hlt : n.toNat < 4294967296 := n.toNat_lt
  have hbounds : (decide (0 ≤ (n.toNat : Int)) && decide ((n.toNat : Int) < 4294967296)) = true := by
    simp only [Bool.and_eq_true, decide_eq_true_eq]
    omega
  rw [ofUInt32, uint32?, if_pos hbounds, Int.toNat_natCast, UInt32.ofNat_toNat]

lemma reads_int64 (n : Int64) : Reads int64? (.int n.toInt) n := by
  intro w h
  cases h
  have hle := n.le_toInt
  have hlt := n.toInt_lt
  have hbounds : (decide (-9223372036854775808 ≤ n.toInt) &&
      decide (n.toInt < 9223372036854775808)) = true := by
    simp only [Bool.and_eq_true, decide_eq_true_eq]
    omega
  rw [int64?, if_pos hbounds, Int64.ofInt_toInt]

lemma reads_decimal (d : Decimal) : Reads decimal? (.decimal d) d := by
  intro w h
  cases h
  rfl

lemma reads_word {ofTag? : String → Option α} {tag : String} (h : ofTag? tag = some a) :
    Reads (word? ofTag?) (.str tag) a := by
  intro w hw
  cases hw
  exact h

lemma reads_list (h : ∀ a, Reads read (write a) a) (as : List α) :
    Reads (listOf? read) (ofList write as) as := by
  intro w hw
  obtain ⟨ws, rfl, hws⟩ := hw.arr
  show ws.mapM read = some as
  clear hw
  rw [forall₂_map_left_iff] at hws
  induction hws with
  | nil => rfl
  | cons hw _ ih =>
    rw [mapM_cons]
    exact read_bind (h _ _ hw) (read_bind ih rfl)

lemma Reads.ne_null (h : Reads read v a) (hnull : read .null = none) : v ≠ .null := by
  rintro rfl
  have hread := h .null (.same .null)
  rw [hnull] at hread
  cases hread

lemma reads_nullOr (h : ∀ a, Reads read (write a) a) (hnull : read .null = none) (o : Option α) :
    Reads (nullOr? read) (ofOption write o) o := by
  intro w hw
  cases o with
  | none =>
    cases hw
    rfl
  | some a =>
    have hread := h a w hw
    cases w with
    | null =>
      rw [hnull] at hread
      cases hread
    | _ => exact congrArg (Option.map some) hread

/-! ## Parts of records -/

namespace PartOf

lemma exists_of_ne (h : PartOf fields name v) (hv : v ≠ .null) :
    ∃ w, valuesOf name fields = [w] ∧ Respelled v w := by
  rcases h with h | ⟨hnull, -⟩
  · exact h
  · exact absurd hnull hv

lemma required (h : PartOf fields name v) (hr : Reads read v a) (hnull : read .null = none) :
    required fields name read = some a := by
  obtain ⟨w, hw, hvw⟩ := h.exists_of_ne (hr.ne_null hnull)
  simp only [Json.required, field?, hw]
  exact hr w hvw

lemma optional {write : α → Json} {o : Option α} (h : PartOf fields name (ofOption write o))
    (hr : ∀ a, Reads read (write a) a) (hnull : read .null = none) :
    optional fields name read = some o := by
  cases o with
  | none =>
    rcases h with ⟨w, hw, hvw⟩ | ⟨-, hw⟩
    · cases hvw
      simp only [Json.optional, field?, hw]
      rfl
    · simp only [Json.optional, field?, hw]
      rfl
  | some a =>
    obtain ⟨w, hw, hvw⟩ := h.exists_of_ne ((hr a).ne_null hnull)
    have hread := hr a w hvw
    simp only [Json.optional, field?, hw]
    cases w with
    | null =>
      rw [hnull] at hread
      cases hread
    | _ => exact read_bind rfl (read_bind hread rfl)

lemma text {s : String} (h : PartOf fields name (.str s)) :
    Json.required fields name str? = some s :=
  h.required (reads_str s) rfl

lemma text? {s : Option String} (h : PartOf fields name (ofOption .str s)) :
    Json.optional fields name str? = some s :=
  h.optional reads_str rfl

lemma flag {b : Bool} (h : PartOf fields name (.bool b)) :
    Json.required fields name bool? = some b :=
  h.required (reads_bool b) rfl

lemma flag? {b : Option Bool} (h : PartOf fields name (ofOption .bool b)) :
    Json.optional fields name bool? = some b :=
  h.optional reads_bool rfl

lemma id {n : NodeId} (h : PartOf fields name (ofUInt32 n)) :
    Json.required fields name uint32? = some n :=
  h.required (reads_uint32 n) rfl

lemma id? {n : Option NodeId} (h : PartOf fields name (ofOption ofUInt32 n)) :
    Json.optional fields name uint32? = some n :=
  h.optional reads_uint32 rfl

lemma ids {ns : List NodeId} (h : PartOf fields name (ofIds ns)) :
    Json.required fields name ids? = some ns :=
  h.required (reads_list reads_uint32 ns) rfl

lemma ids? {ns : Option (List NodeId)} (h : PartOf fields name (ofOption ofIds ns)) :
    Json.optional fields name Json.ids? = some ns :=
  h.optional (reads_list reads_uint32) rfl

lemma texts {ss : List String} (h : PartOf fields name (ofList .str ss)) :
    Json.required fields name strings? = some ss :=
  h.required (reads_list reads_str ss) rfl

lemma list {as : List α} (h : PartOf fields name (ofList write as))
    (hr : ∀ a, Reads read (write a) a) : Json.required fields name (listOf? read) = some as :=
  h.required (reads_list hr as) rfl

lemma word {ofTag? : String → Option α} {tag : String} (h : PartOf fields name (.str tag))
    (ha : ofTag? tag = some a) : Json.required fields name (word? ofTag?) = some a :=
  h.required (reads_word ha) rfl

lemma word? {ofTag? : String → Option α} {tag : α → String} {o : Option α}
    (h : PartOf fields name (ofOption (fun a => .str (tag a)) o))
    (ha : ∀ a, ofTag? (tag a) = some a) : Json.optional fields name (Json.word? ofTag?) = some o :=
  h.optional (fun a => reads_word (ha a)) rfl

end PartOf

end Json

open Json

/-! ## Records and choices inside expressions and statements -/

namespace Hint

mutual

theorem reads : (h : Hint) → Reads ofJson? h.toJson h
  | .named name => fun w hw => by
    obtain ⟨v, rfl, hv⟩ := hw.alternative_of_ne rfl
    cases hv
    rw [ofJson?]
  | .nullable inner => fun w hw => by
    obtain ⟨v, rfl, hv⟩ := hw.alternative_of_ne rfl
    rw [ofJson?, reads inner v hv, Option.map_some]
  | .union members => fun w hw => by
    obtain ⟨v, rfl, hv⟩ := hw.alternative_of_ne rfl
    obtain ⟨ws, rfl, hws⟩ := hv.arr
    rw [ofJson?, readsItems members ws hws, Option.map_some]
  | .inter members => fun w hw => by
    obtain ⟨v, rfl, hv⟩ := hw.alternative_of_ne rfl
    obtain ⟨ws, rfl, hws⟩ := hv.arr
    rw [ofJson?, readsItems members ws hws, Option.map_some]

theorem readsItems : (hs : List Hint) → ∀ ws, List.Forall₂ Respelled (toJsonItems hs) ws →
    ofJsonItems? ws = some hs
  | [], ws, hws => by
    cases hws
    rw [ofJsonItems?]
  | h :: hs, ws, hws => by
    cases hws with
    | cons hw hws => rw [ofJsonItems?, reads h _ hw, readsItems hs _ hws]

end

end Hint

lemma Param.reads (p : Param) : Reads Param.ofJson? p.toJson p := by
  intro w hw
  obtain ⟨fields, rfl, hname, hhint, hdefault, href, hvariadic, hpromoted, -⟩ :=
    hw.parts rfl (by simp only [List.map]; decide)
  exact read_bind hname.text <| read_bind (hhint.optional Hint.reads rfl) <|
    read_bind hdefault.id? <| read_bind href.flag <| read_bind hvariadic.flag <|
    read_bind (hpromoted.word? Visibility.ofTag?_tag) rfl

lemma ClosureUse.reads (u : ClosureUse) : Reads ClosureUse.ofJson? u.toJson u := by
  intro w hw
  obtain ⟨fields, rfl, hname, href, -⟩ := hw.parts rfl (by simp only [List.map]; decide)
  exact read_bind hname.text <| read_bind href.flag rfl

lemma Arg.reads (a : Arg) : Reads Arg.ofJson? a.toJson a := by
  intro w hw
  obtain ⟨fields, rfl, hvalue, hunpack, hname, -⟩ := hw.parts rfl (by simp only [List.map]; decide)
  exact read_bind hvalue.id <| read_bind hunpack.flag <| read_bind hname.text? rfl

lemma ArrayItem.reads (i : ArrayItem) : Reads ArrayItem.ofJson? i.toJson i := by
  intro w hw
  obtain ⟨fields, rfl, hkey, hvalue, href, hunpack, -⟩ :=
    hw.parts rfl (by simp only [List.map]; decide)
  exact read_bind hkey.id? <| read_bind hvalue.id <| read_bind href.flag <|
    read_bind hunpack.flag rfl

lemma MatchArm.reads (a : MatchArm) : Reads MatchArm.ofJson? a.toJson a := by
  intro w hw
  obtain ⟨fields, rfl, hconditions, hbody, -⟩ := hw.parts rfl (by simp only [List.map]; decide)
  exact read_bind hconditions.ids? <| read_bind hbody.id rfl

lemma ElseIf.reads (b : ElseIf) : Reads ElseIf.ofJson? b.toJson b := by
  intro w hw
  obtain ⟨fields, rfl, hcondition, hbody, -⟩ := hw.parts rfl (by simp only [List.map]; decide)
  exact read_bind hcondition.id <| read_bind hbody.ids rfl

lemma SwitchCase.reads (c : SwitchCase) : Reads SwitchCase.ofJson? c.toJson c := by
  intro w hw
  obtain ⟨fields, rfl, htest, hbody, -⟩ := hw.parts rfl (by simp only [List.map]; decide)
  exact read_bind htest.id? <| read_bind hbody.ids rfl

lemma CatchClause.reads (c : CatchClause) : Reads CatchClause.ofJson? c.toJson c := by
  intro w hw
  obtain ⟨fields, rfl, htypes, hvar, hbody, -⟩ := hw.parts rfl (by simp only [List.map]; decide)
  exact read_bind htypes.texts <| read_bind hvar.text? <| read_bind hbody.ids rfl

lemma StaticVar.reads (v : StaticVar) : Reads StaticVar.ofJson? v.toJson v := by
  intro w hw
  obtain ⟨fields, rfl, hname, hdefault, -⟩ := hw.parts rfl (by simp only [List.map]; decide)
  exact read_bind hname.text <| read_bind hdefault.id? rfl

lemma ClassRef.reads (cls : ClassRef) : Reads ClassRef.ofJson? cls.toJson cls := by
  intro w hw
  cases cls with
  | named name =>
    obtain ⟨v, rfl, hv⟩ := hw.alternative_of_ne rfl
    cases hv
    rfl
  | dynamic expr =>
    obtain ⟨v, rfl, hv⟩ := hw.alternative_of_ne rfl
    exact congrArg (Option.map ClassRef.dynamic) (reads_uint32 expr v hv)

lemma Callee.reads (callee : Callee) : Reads Callee.ofJson? callee.toJson callee := by
  intro w hw
  cases callee with
  | named name =>
    obtain ⟨v, rfl, hv⟩ := hw.alternative_of_ne rfl
    cases hv
    rfl
  | dynamic expr =>
    obtain ⟨v, rfl, hv⟩ := hw.alternative_of_ne rfl
    exact congrArg (Option.map Callee.dynamic) (reads_uint32 expr v hv)

lemma MemberName.reads (name : MemberName) : Reads MemberName.ofJson? name.toJson name := by
  intro w hw
  cases name with
  | identifier name =>
    obtain ⟨v, rfl, hv⟩ := hw.alternative_of_ne rfl
    cases hv
    rfl
  | dynamic expr =>
    obtain ⟨v, rfl, hv⟩ := hw.alternative_of_ne rfl
    exact congrArg (Option.map MemberName.dynamic) (reads_uint32 expr v hv)

/-! ## Expressions -/

namespace Expr

lemma arePartNames_parts (e : Expr) : arePartNames (partNames e.parts.1) = true := by
  cases e <;> simp only [parts] <;> decide

lemma isPartName_tag (e : Expr) : isPartName e.parts.1 = false := by
  cases e <;> simp only [parts] <;> decide

lemma ofParts?_parts (e : Expr) (h : PartsOf fields e.parts.2) :
    ofParts? e.parts.1 fields = some e := by
  cases e with
  | var text | string text | const text =>
    obtain ⟨htext, -⟩ := h
    exact read_bind htext.text rfl
  | int value =>
    obtain ⟨hvalue, -⟩ := h
    exact read_bind (hvalue.required (reads_int64 value) rfl) rfl
  | float value =>
    obtain ⟨hvalue, -⟩ := h
    exact read_bind (hvalue.required (reads_decimal value) rfl) rfl
  | interpolated exprs | isSet exprs =>
    obtain ⟨hexprs, -⟩ := h
    exact read_bind hexprs.ids rfl
  | classConst cls name | staticProp cls name =>
    obtain ⟨hcls, hname, -⟩ := h
    exact read_bind (hcls.required cls.reads rfl) <| read_bind hname.text rfl
  | array items =>
    obtain ⟨hitems, -⟩ := h
    exact read_bind (hitems.list ArrayItem.reads) rfl
  | binary op left right | compoundAssign op left right =>
    obtain ⟨hop, hleft, hright, -⟩ := h
    exact read_bind (hop.word op.ofTag?_tag) <| read_bind hleft.id <| read_bind hright.id rfl
  | unary op operand | incDec op operand | cast op operand =>
    obtain ⟨hop, hoperand, -⟩ := h
    exact read_bind (hop.word op.ofTag?_tag) <| read_bind hoperand.id rfl
  | assign target value | assignRef target value =>
    obtain ⟨htarget, hvalue, -⟩ := h
    exact read_bind htarget.id <| read_bind hvalue.id rfl
  | list items =>
    obtain ⟨hitems, -⟩ := h
    exact read_bind (hitems.list (reads_nullOr ArrayItem.reads rfl)) rfl
  | prop object name nullsafe =>
    obtain ⟨hobject, hname, hnullsafe, -⟩ := h
    exact read_bind hobject.id <| read_bind (hname.required name.reads rfl) <|
      read_bind hnullsafe.flag rfl
  | dim base index =>
    obtain ⟨hbase, hindex, -⟩ := h
    exact read_bind hbase.id <| read_bind hindex.id? rfl
  | call callee args | new callee args =>
    obtain ⟨hcallee, hargs, -⟩ := h
    exact read_bind (hcallee.required callee.reads rfl) <| read_bind (hargs.list Arg.reads) rfl
  | methodCall object name args nullsafe =>
    obtain ⟨hobject, hname, hargs, hnullsafe, -⟩ := h
    exact read_bind hobject.id <| read_bind (hname.required name.reads rfl) <|
      read_bind (hargs.list Arg.reads) <| read_bind hnullsafe.flag rfl
  | staticCall cls name args =>
    obtain ⟨hcls, hname, hargs, -⟩ := h
    exact read_bind (hcls.required cls.reads rfl) <| read_bind (hname.required name.reads rfl) <|
      read_bind (hargs.list Arg.reads) rfl
  | closure fn =>
    obtain ⟨hparams, huses, hbody, hreturn, href, hstatic, -⟩ := h
    exact read_bind (hparams.list Param.reads) <| read_bind (huses.list ClosureUse.reads) <|
      read_bind hbody.ids <| read_bind (hreturn.optional Hint.reads rfl) <|
      read_bind href.flag <| read_bind hstatic.flag rfl
  | arrow fn =>
    obtain ⟨hparams, hbody, hreturn, hstatic, -⟩ := h
    exact read_bind (hparams.list Param.reads) <| read_bind hbody.id <|
      read_bind (hreturn.optional Hint.reads rfl) <| read_bind hstatic.flag rfl
  | ternary condition ifTrue ifFalse =>
    obtain ⟨hcondition, htrue, hfalse, -⟩ := h
    exact read_bind hcondition.id <| read_bind htrue.id? <| read_bind hfalse.id rfl
  | matchExpr subject arms =>
    obtain ⟨hsubject, harms, -⟩ := h
    exact read_bind hsubject.id <| read_bind (harms.list MatchArm.reads) rfl
  | instanceOf expr cls =>
    obtain ⟨hexpr, hcls, -⟩ := h
    exact read_bind hexpr.id <| read_bind (hcls.required cls.reads rfl) rfl
  | exit expr =>
    obtain ⟨hexpr, -⟩ := h
    exact read_bind hexpr.id? rfl
  | dynamicVar expr | empty expr | clone expr | print expr | suppress expr | includeFile expr
  | throwExpr expr =>
    obtain ⟨hexpr, -⟩ := h
    exact read_bind hexpr.id rfl

lemma reads (layout : PartLayout) (e : Expr) : Reads (ofJson? layout) e.toJson e := by
  intro w hw
  have hne : e.parts.1 ≠ "Stmt" := by cases e <;> simp [parts]
  obtain ⟨v, rfl, hv⟩ := Respelled.alternative_of_ne hw e.isPartName_tag hne
  obtain ⟨fields, rfl, hfields⟩ := hv.parts e.map_fst_parts e.arePartNames_parts
  have hparts : parts? layout (partNames e.parts.1) (.obj fields) = some fields := by
    cases layout <;> rfl
  exact read_bind hparts (e.ofParts?_parts hfields)

end Expr

/-! ## Statements -/

namespace Stmt

lemma arePartNames_parts (s : Stmt) : arePartNames (partNames s.parts.1) = true := by
  cases s <;> simp only [parts] <;> decide

lemma isPartName_tag (s : Stmt) : isPartName s.parts.1 = false := by
  cases s <;> simp only [parts] <;> decide

lemma ofParts?_parts (s : Stmt) (hs : s.parts.2.isSome = true)
    (h : PartsOf fields (s.parts.2.getD [])) : ofParts? s.parts.1 fields = some s := by
  cases s with
  | sourceFile name stmts =>
    obtain ⟨hname, hstmts, -⟩ := h
    exact read_bind hname.text <| read_bind hstmts.ids rfl
  | exprStmt expr doc =>
    obtain ⟨hexpr, hdoc, -⟩ := h
    exact read_bind hexpr.id <| read_bind hdoc.text? rfl
  | echoStmt ids | unsetStmt ids | block ids =>
    obtain ⟨hids, -⟩ := h
    exact read_bind hids.ids rfl
  | returnStmt expr =>
    obtain ⟨hexpr, -⟩ := h
    exact read_bind hexpr.id? rfl
  | ifStmt condition thenBranch elseIfs elseBranch =>
    obtain ⟨hcondition, hthen, helseIfs, helse, -⟩ := h
    exact read_bind hcondition.id <| read_bind hthen.ids <|
      read_bind (helseIfs.list ElseIf.reads) <| read_bind helse.ids? rfl
  | whileStmt condition body =>
    obtain ⟨hcondition, hbody, -⟩ := h
    exact read_bind hcondition.id <| read_bind hbody.ids rfl
  | doWhileStmt body condition =>
    obtain ⟨hbody, hcondition, -⟩ := h
    exact read_bind hbody.ids <| read_bind hcondition.id rfl
  | forStmt init condition step body =>
    obtain ⟨hinit, hcondition, hstep, hbody, -⟩ := h
    exact read_bind hinit.ids <| read_bind hcondition.ids <| read_bind hstep.ids <|
      read_bind hbody.ids rfl
  | foreachStmt subject key value byRef body =>
    obtain ⟨hsubject, hkey, hvalue, href, hbody, -⟩ := h
    exact read_bind hsubject.id <| read_bind hkey.id? <| read_bind hvalue.id <|
      read_bind href.flag <| read_bind hbody.ids rfl
  | switchStmt subject cases =>
    obtain ⟨hsubject, hcases, -⟩ := h
    exact read_bind hsubject.id <| read_bind (hcases.list SwitchCase.reads) rfl
  | tryStmt body catches finallyBody =>
    obtain ⟨hbody, hcatches, hfinally, -⟩ := h
    exact read_bind hbody.ids <| read_bind (hcatches.list CatchClause.reads) <|
      read_bind hfinally.ids? rfl
  | breakStmt | continueStmt => cases hs
  | globalStmt names | traitUse names =>
    obtain ⟨hnames, -⟩ := h
    exact read_bind hnames.texts rfl
  | staticStmt vars =>
    obtain ⟨hvars, -⟩ := h
    exact read_bind (hvars.list StaticVar.reads) rfl
  | declareStmt strictTypes =>
    obtain ⟨hstrict, -⟩ := h
    exact read_bind hstrict.flag? rfl
  | function fn =>
    obtain ⟨hname, hparams, hreturn, hbody, href, hdoc, -⟩ := h
    exact read_bind hname.text <| read_bind (hparams.list Param.reads) <|
      read_bind (hreturn.optional Hint.reads rfl) <| read_bind hbody.ids <|
      read_bind href.flag <| read_bind hdoc.text? rfl
  | classDecl cls =>
    obtain ⟨hname, hkind, hextends, himplements, hmembers, habstract, hfinal, hreadonly, -⟩ := h
    exact read_bind hname.text <| read_bind (hkind.word cls.kind.ofTag?_tag) <|
      read_bind hextends.text? <| read_bind himplements.texts <| read_bind hmembers.ids <|
      read_bind habstract.flag <| read_bind hfinal.flag <| read_bind hreadonly.flag rfl
  | method fn =>
    obtain ⟨hname, hparams, hreturn, hbody, hvisibility, hstatic, habstract, hdoc, -⟩ := h
    exact read_bind hname.text <| read_bind (hparams.list Param.reads) <|
      read_bind (hreturn.optional Hint.reads rfl) <| read_bind hbody.ids? <|
      read_bind (hvisibility.word fn.visibility.ofTag?_tag) <| read_bind hstatic.flag <|
      read_bind habstract.flag <| read_bind hdoc.text? rfl
  | property prop =>
    obtain ⟨hname, hhint, hdefault, hvisibility, hstatic, hreadonly, hdoc, -⟩ := h
    exact read_bind hname.text <| read_bind (hhint.optional Hint.reads rfl) <|
      read_bind hdefault.id? <| read_bind (hvisibility.word prop.visibility.ofTag?_tag) <|
      read_bind hstatic.flag <| read_bind hreadonly.flag <| read_bind hdoc.text? rfl
  | classConst name value =>
    obtain ⟨hname, hvalue, -⟩ := h
    exact read_bind hname.text <| read_bind hvalue.id rfl
  | enumCase name value =>
    obtain ⟨hname, hvalue, -⟩ := h
    exact read_bind hname.text <| read_bind hvalue.id? rfl

lemma ofTag?_tag {s : Stmt} (hs : s.parts.2 = none) : ofTag? s.parts.1 = some s := by
  cases s <;> first | rfl | cases hs

lemma reads (layout : PartLayout) (s : Stmt) : Reads (ofJson? layout) s.toJson s := by
  intro w hw
  have hne : s.parts.1 ≠ "Stmt" := by cases s <;> simp [parts]
  rw [toJson] at hw
  split at hw
  · next tag parts heq =>
    have htag : s.parts.1 = tag := by rw [heq]
    have hparts : s.parts.2 = some parts := by rw [heq]
    subst htag
    obtain ⟨v, rfl, hv⟩ := hw.alternative_of_ne s.isPartName_tag hne
    have hnames : parts.map Prod.fst = partNames s.parts.1 := by
      have hfst := s.map_fst_parts
      rwa [hparts] at hfst
    obtain ⟨fields, rfl, hfields⟩ := hv.parts hnames s.arePartNames_parts
    have hread : parts? layout (partNames s.parts.1) (.obj fields) = some fields := by
      cases layout <;> rfl
    exact read_bind hread (s.ofParts?_parts (by rw [hparts]; rfl) (by rw [hparts]; exact hfields))
  · next tag heq =>
    have htag : s.parts.1 = tag := by rw [heq]
    have hparts : s.parts.2 = none := by rw [heq]
    subst htag
    cases hw
    exact ofTag?_tag hparts

end Stmt

/-! ## Files -/

lemma NodeData.reads (layout : PartLayout) (node : Node) :
    Reads (NodeData.ofJson? layout) (match node.data with
      | .stmt s => .obj [("Stmt", s.toJson)]
      | .expr e => .obj [("Expr", e.toJson)]) node.data := by
  intro w hw
  cases hdata : node.data with
  | stmt s =>
    rw [hdata] at hw
    rcases Respelled.alternative hw rfl with ⟨v, rfl, hv⟩ | ⟨-, word, hword, rfl⟩
    · exact congrArg (Option.map NodeData.stmt) (s.reads layout v hv)
    · -- The statement is a word, and here it stands in an object.
      have hread := s.reads layout s.toJson (.same _)
      rw [hword] at hread
      exact congrArg (Option.map NodeData.stmt) hread
  | expr e =>
    rw [hdata] at hw
    obtain ⟨v, rfl, hv⟩ := Respelled.alternative_of_ne hw rfl
    exact congrArg (Option.map NodeData.expr) (e.reads layout v hv)

lemma Node.reads (layout : PartLayout) (node : Node) :
    Reads (Node.ofJson? layout) node.toJson node := by
  intro w hw
  obtain ⟨fields, rfl, hline, hdata, -⟩ := hw.parts rfl (by simp only [List.map]; decide)
  exact read_bind hline.id <| read_bind (hdata.required (NodeData.reads layout node) rfl) rfl

lemma Arena.reads (layout : PartLayout) (arena : Arena) :
    Reads (Arena.ofJson? layout) arena.toJson arena := by
  intro w hw
  obtain ⟨fields, rfl, hnodes, -⟩ := hw.parts rfl (by simp only [List.map]; decide)
  exact read_bind (hnodes.list (Node.reads layout)) rfl

lemma SourceUnit.reads (layout : PartLayout) (unit : SourceUnit) :
    Reads (SourceUnit.ofJson? layout) unit.toJson unit := by
  intro w hw
  obtain ⟨fields, rfl, hfile, harena, hroot, -⟩ := hw.parts rfl (by simp only [List.map]; decide)
  exact read_bind hfile.text <| read_bind (harena.required (unit.arena.reads layout) rfl) <|
    read_bind hroot.id rfl

/-- Reading gives back the file that was written: from its dump with every field, and from every
other way to write that dump. -/
theorem SourceUnit.ofJson?_respelled (layout : PartLayout) (unit : SourceUnit) :
    SourceUnit.ofJson? layout unit.toJson = some unit ∧
      ∀ value, unit.toJson.Respelled value → SourceUnit.ofJson? layout value = some unit :=
  ⟨unit.reads layout _ (.same _), unit.reads layout⟩

/-- `break; return;` -/
def jumps : SourceUnit :=
  Build.result do
    let first ← Build.stmt .breakStmt
    let second ← Build.stmt (.returnStmt none)
    Build.finish "jumps" [first, second]

/-- The dump of `jumps` with a field that has no meaning in each record, the fields of the file in
another order, an object for `break`, and without the field for the value that `return` does not
have. -/
def jumpsRespelled : Json :=
  let node (stmt : Json) : Json :=
    .obj [("column", .int 0), ("line", .int 1), ("data", .obj [("Stmt", stmt)])]
  .obj [("version", .unreadable), ("root", .int 2), ("file", .str "jumps"),
    ("arena", .obj [("size", .int 3), ("nodes", .arr
      [node (.obj [("Break", .null)]), node (.obj [("Return", .obj [("level", .null)])]),
       node (.obj [("SourceFile", .obj [("name", .str "jumps"), ("stmts", .arr [.int 0, .int 1]),
         ("encoding", .str "")])])])])]

theorem SourceUnit.ofJson?_jumpsRespelled :
    jumps.toJson.Respelled jumpsRespelled ∧
      SourceUnit.ofJson? .named jumpsRespelled = some jumps := by
  have hline : ∀ data, PartOf [("column", .int 0), ("line", .int 1), ("data", data)] "line"
      (ofUInt32 1) := fun data => .inl ⟨.int 1, rfl, .same _⟩
  have hrespelled : jumps.toJson.Respelled jumpsRespelled := by
    refine .of_parts (by decide +kernel) ⟨.inl ⟨_, rfl, .same _⟩, .inl ⟨_, rfl, ?_⟩,
      .inl ⟨_, rfl, .same _⟩, trivial⟩
    refine .of_parts (by decide +kernel) ⟨.inl ⟨_, rfl, .items (.cons ?_ (.cons ?_ (.cons ?_ .nil)))⟩,
      trivial⟩
    · exact .of_parts (by decide +kernel) ⟨hline _, .inl ⟨_, rfl, .jump "Break"⟩, trivial⟩
    · refine .of_parts (by decide +kernel) ⟨hline _, .inl ⟨_, rfl, .choice _ (.choice _ ?_)⟩, trivial⟩
      exact .of_parts (by decide +kernel) ⟨.inr ⟨rfl, rfl⟩, trivial⟩
    · refine .of_parts (by decide +kernel) ⟨hline _, .inl ⟨_, rfl, .choice _ (.choice _ ?_)⟩, trivial⟩
      exact .of_parts (by decide +kernel)
        ⟨.inl ⟨_, rfl, .same _⟩, .inl ⟨_, rfl, .same _⟩, trivial⟩
  exact ⟨hrespelled, (SourceUnit.ofJson?_respelled .named jumps).2 _ hrespelled⟩

end FlowTyping

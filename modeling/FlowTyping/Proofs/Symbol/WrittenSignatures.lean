import FlowTyping.Proofs.Symbol.DocParams
import FlowTyping.Symbol.Signature

/-!
# Signatures as they are written

A signature is read without a grammar: its parameters stand between the first opening and the last
closing bracket, they are cut at commas by one count of brackets of all kinds, and each is taken
apart at its first equals sign and its first dollar sign.

**Texts.**  `ParamText` and `SignatureText` are parameters and signatures as they are written, with
what makes them such.

**Reading.**  The count passes over a text that closes its quotes and brackets
(`splitParamsFrom_append`), so it sees the commas between parameters and no others.  The arrow of a
key in a default closes a bracket for the count and hides the comma behind it
(`parse?_keyedDefault`).
-/

namespace FlowTyping

open List

namespace Text

variable {sep : Char} {cs lead xs ys : List Char}

lemma splitFirst?_append (h : sep ∉ xs) (ys : List Char) :
    splitFirst? sep (xs ++ sep :: ys) = some (xs, ys) := by
  induction xs with
  | nil => simp [splitFirst?]
  | cons x xs ih =>
    rw [mem_cons, not_or] at h
    simp [splitFirst?, Ne.symm h.1, ih h.2]

lemma splitFirst?_eq_none (h : sep ∉ cs) : splitFirst? sep cs = none := by
  induction cs with
  | nil => rfl
  | cons c cs ih =>
    rw [mem_cons, not_or] at h
    simp [splitFirst?, Ne.symm h.1, ih h.2]

lemma splitLast?_append (xs : List Char) (h : sep ∉ ys) :
    splitLast? sep (xs ++ sep :: ys) = some (xs, ys) := by
  have hsplit := splitFirst?_append (mt mem_reverse.1 h) xs.reverse
  simpa [splitLast?] using congrArg (Option.map fun p => (p.2.reverse, p.1.reverse)) hsplit

lemma trim_append (hlead : ∀ c ∈ lead, isBlank c = true) (hne : xs ≠ [])
    (hhead : ∀ c ∈ xs.head?, isBlank c = false) (hlast : ∀ c ∈ xs.getLast?, isBlank c = false)
    (ys : List Char) : trim (lead ++ (xs ++ ys)) = xs ++ trimEnd ys := by
  rw [trim, trimStart, dropWhile_append_of_pos hlead,
    dropWhile_eq_self (by rwa [head?_append_of_ne_nil _ hne]), trimEnd_append hlast]

lemma trim_of_solid (h : ∀ c ∈ cs, isBlank c = false) : trim cs = cs :=
  trim_eq_self (fun c hc => h c (mem_of_head? hc)) fun c hc => h c (mem_of_getLast? hc)

end Text

namespace Signature

open ParamInfo Text

/-- Whether quotes and brackets are closed behind the text, with `depth` brackets and the quote
`quote` open in front of it, none is closed before it is opened, and commas stand inside only. -/
def Closed (quote : Option Char) (depth : Nat) : List Char → Bool
  | [] => quote.isNone && depth == 0
  | c :: cs =>
    match quote with
    | some q => Closed (if c == q then none else some q) depth cs
    | none =>
      if c == '"' || c == '\'' then Closed (some c) depth cs
      else if c == '(' || c == '[' || c == '<' then Closed none (depth + 1) cs
      else if c == ')' || c == ']' || c == '>' then depth != 0 && Closed none (depth - 1) cs
      else (depth != 0 || c != ',') && Closed none depth cs

lemma closed_append {quote : Option Char} {depth : Nat} {cs : List Char}
    (h : Closed quote depth cs = true) (ds : List Char) :
    Closed quote depth (cs ++ ds) = Closed none 0 ds := by
  fun_induction Closed quote depth cs <;> simp_all [Closed]

/-- The count is back at its start behind a closed text, and no comma in it has separated
parameters. -/
lemma splitParamsFrom_append {quote : Option Char} {depth : Nat} {cs : List Char}
    (h : Closed quote depth cs = true) (piece rest : List Char) :
    splitParamsFrom depth quote piece (cs ++ rest) =
      splitParamsFrom 0 none (cs.reverse ++ piece) rest := by
  fun_induction Closed quote depth cs generalizing piece with
  | case5 depth c cs _ _ hclose ih =>
    rw [Bool.and_eq_true, bne_iff_ne] at h
    have hdepth : (depth : Int) - 1 = ((depth - 1 : Nat) : Int) := by omega
    simp_all [splitParamsFrom]
  | case6 depth c cs _ _ _ ih =>
    have hcomma : (c == ',' && (depth : Int) == 0) = false := by
      cases hc : c == ',' <;> simp_all
    simp_all [splitParamsFrom]
  | _ => simp_all [splitParamsFrom]

/-! ## Parameters -/

/-- A parameter as it is written; the type is empty where there is none. -/
structure ParamText where
  type : List Char
  byRef : Bool
  variadic : Bool
  name : List Char
  default? : Option (List Char)
  type_closed : Closed none 0 type = true
  type_solid : ∀ c ∈ type, c ≠ '$' ∧ c ≠ '=' ∧ isBlank c = false
  type_unmarked : ¬ ['&'] <:+ type ∧ ¬ ['.', '.', '.'] <:+ type
  name_closed : Closed none 0 name = true
  name_solid : ∀ c ∈ name, c ≠ '=' ∧ isBlank c = false
  default_closed : ∀ text ∈ default?, Closed none 0 text = true

namespace ParamText

variable (p : ParamText)

/-- What stands in front of the dollar sign. -/
def lead : List Char :=
  (if p.type = [] then [] else p.type ++ [' ']) ++ (if p.byRef then ['&'] else []) ++
    if p.variadic then ['.', '.', '.'] else []

/-- The parameter without its default. -/
def core : List Char :=
  p.lead ++ '$' :: p.name

def chars : List Char :=
  p.core ++ p.default?.elim [] fun text => ' ' :: '=' :: ' ' :: text

/-- Whether the default is the word `null`. -/
def nullDefault : Bool :=
  p.default?.any fun text => Name.sameWord (String.ofList (trim text)) "null"

/-- What the parameter declares. -/
def info : ParamInfo where
  name := String.ofList p.name
  type := (Ty.parseChars? p.type).map fun t => if p.nullDefault then t.join .null else t
  optional := p.variadic || p.default?.isSome
  byRef := p.byRef
  nullable := p.nullDefault || (Ty.parseChars? p.type).any Ty.containsNull
  variadic := p.variadic

lemma closed_chars : Closed none 0 p.chars = true := by
  have hname : Closed none 0 ('$' :: p.name) = true := p.name_closed
  have hlead : Closed none 0 p.lead = true := by
    unfold lead
    split_ifs <;> simp [closed_append p.type_closed] <;> rfl
  rw [chars, core, append_assoc, closed_append hlead, closed_append hname]
  cases h : p.default? with
  | none => rfl
  | some text => exact p.default_closed text h

lemma read_lead : ParamMarks.read {} p.lead.reverse = (⟨p.byRef, p.variadic⟩, p.type.reverse) := by
  have hstop : ∀ marks, ParamMarks.read marks p.type.reverse = (marks, p.type.reverse) := by
    intro marks
    have hend := p.type_unmarked
    have hsolid := p.type_solid
    rw [← reverse_prefix, ← reverse_prefix] at hend
    rw [← p.type.reverse_reverse] at hsolid
    generalize p.type.reverse = cs at *
    fun_cases ParamMarks.read marks cs <;> simp_all
  unfold lead
  cases p.byRef <;> cases p.variadic <;> by_cases htype : p.type = []
  all_goals simp_all [ParamMarks.read, show isBlank ' ' = true from rfl]

lemma splitFirst?_core : splitFirst? '$' p.core = some (p.lead, p.name) := by
  have htype : '$' ∉ p.type := fun h => (p.type_solid _ h).1 rfl
  refine splitFirst?_append ?_ p.name
  unfold lead
  split_ifs <;> simp [htype]

lemma equals_not_mem_core : '=' ∉ p.core := by
  have htype : '=' ∉ p.type := fun h => (p.type_solid _ h).2.1 rfl
  have hname : '=' ∉ p.name := fun h => (p.name_solid _ h).1 rfl
  unfold core lead
  split_ifs <;> simp [htype, hname]

variable {blanks : List Char} (h : ∀ c ∈ blanks, isBlank c = true)

include h

lemma trim_core (ys : List Char) : trim (blanks ++ (p.core ++ ys)) = p.core ++ trimEnd ys := by
  refine trim_append h (by simp [core]) (fun c hc => ?_) (fun c hc => ?_) ys
  · unfold core lead at hc
    by_cases htype : p.type = []
    · split_ifs at hc <;> simp at hc <;> subst hc <;> decide
    · rw [if_neg htype] at hc
      simp only [append_assoc, head?_append_of_ne_nil _ htype] at hc
      exact (p.type_solid c (mem_of_head? hc)).2.2
  · rw [core, getLast?_append_of_ne_nil _ (cons_ne_nil _ _)] at hc
    rcases mem_cons.1 (mem_of_getLast? hc) with rfl | hc
    · decide
    · exact (p.name_solid c hc).2

lemma trim_chars_ne_nil : trim (blanks ++ p.chars) ≠ [] := by
  rw [chars, p.trim_core h]
  simp [core]

lemma parse?_chars : ParamInfo.parse? (blanks ++ p.chars) = some p.info := by
  have hequals : '=' ∉ blanks ++ p.core := fun hmem =>
    (mem_append.1 hmem).elim (fun hmem => absurd (h _ hmem) (by decide)) p.equals_not_mem_core
  have hname : trim p.name = p.name := trim_of_solid fun c hc => (p.name_solid c hc).2
  unfold ParamInfo.parse? chars
  cases hdefault : p.default? with
  | none =>
    have htrim := p.trim_core h []
    simp only [Option.elim_none, append_nil, show trimEnd [] = [] from rfl] at htrim ⊢
    simp only [splitFirst?_eq_none hequals, htrim]
    cases htype : Ty.parseChars? p.type <;>
      simp [p.splitFirst?_core, p.read_lead, hname, htype, info, nullDefault, hdefault, withType?,
        withByRef, withVariadic]
  | some text =>
    have htext : blanks ++ (p.core ++ ' ' :: '=' :: ' ' :: text) =
        (blanks ++ (p.core ++ [' '])) ++ '=' :: ' ' :: text := by simp
    have hspace : trim (' ' :: text) = trim text := rfl
    have htrim := p.trim_core h [' ']
    simp only [show trimEnd [' '] = [] from rfl, append_nil] at htrim
    simp only [Option.elim_some, htext]
    rw [splitFirst?_append (by simpa using hequals)]
    simp only [htrim, hspace]
    cases htype : Ty.parseChars? p.type <;>
      cases hnull : Name.sameWord (String.ofList (trim text)) "null" <;>
      simp [p.splitFirst?_core, p.read_lead, hname, htype, info, nullDefault, hdefault, hnull,
        withType?, withByRef, withVariadic, withDefault, withNullDefault]

end ParamText

lemma mapM_splitParamsFrom (p : ParamText) (ps : List ParamText) (blanks : List Char)
    (h : ∀ c ∈ blanks, isBlank c = true) :
    ((splitParamsFrom 0 none blanks.reverse
      (joinWith [',', ' '] ((p :: ps).map ParamText.chars))).filter
        fun piece => !(trim piece).isEmpty).mapM ParamInfo.parse? =
      some ((p :: ps).map ParamText.info) := by
  induction ps generalizing p blanks with
  | nil =>
    have hpass := splitParamsFrom_append p.closed_chars blanks.reverse []
    rw [append_nil] at hpass
    simp_all [joinWith, splitParamsFrom, p.trim_chars_ne_nil h, p.parse?_chars h]
  | cons q qs ih =>
    have hpass := splitParamsFrom_append p.closed_chars blanks.reverse
    have hrest := ih q [' '] (forall_mem_singleton.2 rfl)
    rw [map_cons, joinWith_cons _ _ (by simp), append_assoc]
    simp_all [splitParamsFrom, p.trim_chars_ne_nil h, p.parse?_chars h]

/-! ## Signatures -/

/-- A signature as it is written; the return type is empty where there is none. -/
structure SignatureText where
  isStatic : Bool
  returnType : List Char
  name : List Char
  params : List ParamText
  static_returns : isStatic = true → returnType ≠ []
  returnType_solid : ∀ c ∈ returnType, c ≠ '(' ∧ isBlank c = false
  name_ne_nil : name ≠ []
  name_solid : ∀ c ∈ name, c ≠ '(' ∧ isBlank c = false

namespace SignatureText

variable (s : SignatureText)

/-- The return type and the name. -/
def result : List Char :=
  (if s.returnType = [] then [] else s.returnType ++ [' ']) ++ s.name

/-- What stands in front of the parameters. -/
def head : List Char :=
  (if s.isStatic then ['s', 't', 'a', 't', 'i', 'c', ' '] else []) ++ s.result

def text : String :=
  String.ofList (s.head ++ '(' :: (joinWith [',', ' '] (s.params.map ParamText.chars) ++ [')']))

/-- What the signature declares. -/
def signature : Signature where
  name := String.ofList s.name
  params := s.params.map ParamText.info
  returnType := Ty.parseChars? s.returnType
  variadic := s.params.any ParamText.variadic
  isStatic := s.isStatic

lemma space_not_mem_name : ' ' ∉ s.name := fun h => absurd (s.name_solid _ h).2 (by decide)

lemma trim_name : trim s.name = s.name := trim_of_solid fun c hc => (s.name_solid c hc).2

lemma open_not_mem_head : '(' ∉ s.head := by
  have htype : '(' ∉ s.returnType := fun h => (s.returnType_solid _ h).1 rfl
  have hname : '(' ∉ s.name := fun h => (s.name_solid _ h).1 rfl
  unfold head result
  split_ifs <;> simp [htype, hname]

lemma trim_append_result (before : List Char) (h : ∀ c ∈ before.head?, isBlank c = false) :
    trim (before ++ s.result) = before ++ s.result := by
  unfold result
  refine trim_eq_self (fun c hc => ?_) fun c hc => ?_
  · cases before with
    | nil =>
      split_ifs at hc with htype
      · exact (s.name_solid c (mem_of_head? hc)).2
      · rw [nil_append, append_assoc, head?_append_of_ne_nil _ htype] at hc
        exact (s.returnType_solid c (mem_of_head? hc)).2
    | cons d before => exact h c hc
  · rw [← append_assoc, getLast?_append_of_ne_nil _ s.name_ne_nil] at hc
    exact (s.name_solid c (mem_of_getLast? hc)).2

/-- The word `static` in front of the name alone is the return type. -/
lemma eq_name_of_static {rest : List Char}
    (h : s.result = ['s', 't', 'a', 't', 'i', 'c', ' '] ++ rest) : rest = s.name := by
  have hsplit : splitFirst? ' ' (['s', 't', 'a', 't', 'i', 'c'] ++ ' ' :: rest) = _ :=
    splitFirst?_append (by decide) rest
  rw [show _ ++ ' ' :: rest = s.result from h.symm, result] at hsplit
  split_ifs at hsplit with htype
  · rw [nil_append, splitFirst?_eq_none s.space_not_mem_name] at hsplit
    cases hsplit
  · have hspace : ' ' ∉ s.returnType := fun hmem => absurd (s.returnType_solid _ hmem).2 (by decide)
    rw [append_assoc, singleton_append, splitFirst?_append hspace] at hsplit
    exact (Prod.mk.inj (Option.some.inj hsplit)).2.symm

lemma splitStatic_head : splitStatic (trim s.head) = (s.isStatic, s.result) := by
  have hresult : trim s.result = s.result := s.trim_append_result [] nofun
  unfold splitStatic head
  cases hstatic : s.isStatic with
  | true =>
    have hspace : ' ' ∈ s.result := by simp [result, s.static_returns hstatic]
    rw [if_pos rfl, s.trim_append_result _ (by rintro c ⟨⟩; rfl), stripPrefix?_eq_some.2 rfl]
    simp [hresult, hspace]
  | false =>
    simp only [Bool.false_eq_true, if_false, nil_append, hresult]
    split
    · next rest hrest =>
      obtain rfl := s.eq_name_of_static (stripPrefix?_eq_some.1 hrest)
      simp [s.trim_name, s.space_not_mem_name]
    · rfl

end SignatureText

/-- **Signatures are read as they are written.**  The modifier, the return type, the name and the
parameters, one by one and in order, are those of the text, if quotes and brackets are closed. -/
theorem parse?_signatureText (s : SignatureText) : parse? s.text = some s.signature := by
  have hparams : (splitParams (joinWith [',', ' '] (s.params.map ParamText.chars))).mapM
      ParamInfo.parse? = some (s.params.map ParamText.info) := by
    cases s.params with
    | nil => rfl
    | cons p ps => exact mapM_splitParamsFrom p ps [] nofun
  have hvariadic : (s.params.map ParamText.info).any ParamInfo.variadic =
      s.params.any ParamText.variadic := any_map
  rw [parse?, SignatureText.text, String.toList_ofList, parseChars?,
    splitFirst?_append s.open_not_mem_head]
  simp only [Option.bind_eq_bind, Option.bind_some, splitLast?_append _ (not_mem_nil (a := ')')),
    s.splitStatic_head, SignatureText.result]
  by_cases htype : s.returnType = []
  · have hnone : splitLast? ' ' s.name = none := by
      simp [splitLast?, splitFirst?_eq_none, s.space_not_mem_name]
    have hempty : Ty.parseChars? [] = none := rfl
    simp [htype, hnone, hempty, s.name_ne_nil, hparams, withParams, SignatureText.signature,
      hvariadic]
  · simp [htype, splitLast?_append _ s.space_not_mem_name, s.trim_name, s.name_ne_nil, hparams,
      withParams, SignatureText.signature, hvariadic]

example : ∃ s : SignatureText, s.text = "static ?A f(array<int,B> &...$x = ['),', 2])" :=
  ⟨{ isStatic := true, returnType := ['?', 'A'], name := ['f']
     params := [{
      type := "array<int,B>".toList, byRef := true, variadic := true, name := ['x']
      default? := some "['),', 2]".toList, type_closed := rfl, type_solid := by simp; decide
      type_unmarked := by decide, name_closed := rfl, name_solid := by simp; decide
      default_closed := by simp; decide }]
     static_returns := nofun, returnType_solid := by simp; decide, name_ne_nil := nofun
     name_solid := by simp; decide }, rfl⟩

/-- The arrow of a key closes a bracket for the count: the second parameter is taken for a part of
the default of the first. -/
theorem parse?_keyedDefault :
    (parse? "f(array $x = ['a' => 1], int $y)").map (fun f => f.params.map ParamInfo.name) =
      some ["x"] :=
  rfl

end Signature

end FlowTyping

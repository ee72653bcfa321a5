import FlowTyping.Proofs.Ty.Brackets
import FlowTyping.Proofs.Ty.Canonical
import FlowTyping.Ty.Printer

/-!
# Reading what was printed

Types are printed in the notation in which they are declared.  A type in disjunctive normal form, a
union of intersections of names, is read back as the very tree that was printed.  Hints are trees of
this notation too: a hint and its text declare the same type.

**Names.**  `Ty.PlainName`: a class name that stands for itself.  `Ty.Atom`: a built-in type or a class
with such a name.  Its text is one operand for the reader, and declares it (`Atom.parse`).

**Types.**  `Ty.Clause`: an atom or an intersection of atoms.  `Ty.Disjunctive`: a clause or a union of
clauses.  Each level is read by the lemma for its operator: `Clause.parse`, `parse?_render`.
-/

namespace FlowTyping

open List Text Ty

variable {cs : List Char} {α : Type} {f : α → List Char} {g : α → Ty} {as : List α}

namespace Ty

open List

variable {t : Ty} {name : String}

/-- The characters that take a declared type apart. -/
def operatorChars : List Char :=
  ['|', '&', '<', '>', '(', ')', '\x7b', '\x7d']

lemma nested_of_forall_notMem (h : ∀ c ∈ cs, c ∉ operatorChars) :
    Nested isInOperand 0 cs = true :=
  nested_of_forall fun c hc => by
    simpa [operatorChars, opensBracket, closesBracket, isInOperand, and_assoc, and_left_comm,
      and_comm] using h c hc

lemma forall_mem_of_all {p : Char → Prop} [DecidablePred p] (h : cs.all (fun c => p c) = true) :
    ∀ c ∈ cs, p c := by
  simpa using h

/-! ## Words -/

/-- The text of a single word: not empty, without blanks, question marks and operators. -/
structure WordText (cs : List Char) : Prop where
  ne_nil : cs ≠ []
  chars : ∀ c ∈ cs, isBlank c = false ∧ c ≠ '?' ∧ c ∉ operatorChars

namespace WordText

variable (h : WordText cs)

include h

lemma nested : Nested isInOperand 0 cs = true :=
  nested_of_forall_notMem fun c hc => (h.chars c hc).2.2

lemma trimmed : Trimmed cs where
  head := by
    obtain ⟨c, hc⟩ := Option.isSome_iff_exists.1 (isSome_head?.2 h.ne_nil)
    have := h.chars c (mem_of_head? hc)
    exact ⟨c, hc, this.2.1, this.1⟩
  last := by
    obtain ⟨c, hc⟩ := Option.isSome_iff_exists.1 (getLast?_isSome.2 h.ne_nil)
    exact ⟨c, hc, (h.chars c (mem_of_getLast? hc)).1⟩

lemma head_ne : cs.head? ≠ some '(' := fun hhead =>
  (h.chars '(' (mem_of_head? hhead)).2.2 (by decide)

lemma nested_bar : Nested (· != '|') 0 cs = true :=
  nested_imp (by simp [isInOperand]; tauto) h.nested

lemma parse : parseChars? cs = some (ofWordChars cs) := by
  rw [h.trimmed.parse_eq, parseOperands, splitTop_of_nested h.nested_bar,
    bracketed?_eq_none (.inl h.head_ne),
    splitTop_of_nested (nested_imp (by simp [isInOperand]) h.nested)]

end WordText

lemma mapM_map_eq_some (h : ∀ a ∈ as, parseChars? (f a) = some (g a)) :
    (as.map f).mapM parseChars? = some (as.map g) :=
  mapM_eq_some_iff.2 (by simpa using h)

lemma parse_words {words : List (List Char)} (htwo : 2 ≤ words.length)
    (h : ∀ word ∈ words, WordText word) :
    parseChars? (joinWith ['&'] words) = some (.inter (words.map ofWordChars)) := by
  refine parse_interText htwo (fun word hword => (h word hword).trimmed)
    (fun word hword => (h word hword).nested) (.inl ?_) ?_
  · obtain ⟨first, rest, rfl⟩ := exists_cons_of_length_pos (by omega : 0 < words.length)
    have hfirst := h first (.head _)
    rw [head?_joinWith _ hfirst.ne_nil]
    exact hfirst.head_ne
  · simpa using mapM_map_eq_some (f := id) fun word hword => (h word hword).parse

/-- An operand of a union, with what it declares: a word, or several words in brackets. -/
inductive Operand : List Char → Ty → Prop
  | word {cs : List Char} (h : WordText cs) : Operand cs (ofWordChars cs)
  | inter {words : List (List Char)} (htwo : 2 ≤ words.length) (h : ∀ word ∈ words, WordText word) :
    Operand (inBrackets (joinWith ['&'] words)) (.inter (words.map ofWordChars))

lemma Operand.spec (h : Operand cs t) :
    Trimmed cs ∧ Nested (· != '|') 0 cs = true ∧ parseChars? cs = some t := by
  cases h with
  | word h => exact ⟨h.trimmed, h.nested_bar, h.parse⟩
  | @inter words htwo h =>
    have hnested : Nested (fun _ => true) 0 (joinWith ['&'] words) = true :=
      nested_joinWith (by decide) (by decide) rfl fun word hword =>
        nested_imp (fun _ _ => rfl) (h word hword).nested
    exact ⟨.inBrackets _, nested_inBrackets hnested, (parse_inBrackets hnested).trans (parse_words htwo h)⟩

lemma parse_operands (htwo : 2 ≤ as.length) (h : ∀ a ∈ as, Operand (f a) (g a)) :
    parseChars? (joinWith ['|'] (as.map f)) = some (unionOf (as.map g)) :=
  parse_unionText (by simpa using htwo) (forall_mem_map.2 fun a ha => (h a ha).spec.1)
    (forall_mem_map.2 fun a ha => (h a ha).spec.2.1)
    (mapM_map_eq_some fun a ha => (h a ha).spec.2.2)

/-! ## Texts of members -/

/-- The text of a type as a member of another one. -/
def memberText (t : Ty) : List Char :=
  if t.isCompound then inBrackets t.chars else t.chars

lemma memberChars_eq_map (ts : List Ty) : memberChars ts = ts.map memberText := by
  induction ts with
  | nil => rfl
  | cons t ts ih =>
    rw [memberChars, ih]
    rfl

lemma chars_union (members : List Ty) :
    (union members).chars = joinWith ['|'] (members.map memberText) := by
  rw [chars, memberChars_eq_map]

lemma chars_inter (members : List Ty) :
    (inter members).chars = joinWith ['&'] (members.map memberText) := by
  rw [chars, memberChars_eq_map]

/-! ## Atoms -/

/-- The informal keywords of doc comments. -/
def aliases : List String :=
  ["true", "false", "list", "non-empty-array", "non-empty-list", "iterable", "never", "resource",
    "scalar", "numeric", "positive-int", "negative-int", "non-negative-int", "class-string",
    "non-empty-string", "numeric-string"]

/-- A class name that declares the class of that name. -/
structure PlainName (name : String) : Prop where
  ne_empty : name ≠ ""
  chars : ∀ c ∈ name.toList, isBlank c = false ∧ c ≠ '?' ∧ c ∉ operatorChars
  head : name.toList.head? ≠ some '\\'
  last : endsWith ['[', ']'] name.toList = false
  ne_this : name ≠ "$this"
  primitive : Primitive.ofName? name = none
  notMem_aliases : Name.key name ∉ aliases

/-- A built-in type, or a class with a plain name. -/
inductive Atom : Ty → Prop
  | primitive (kind : Primitive) : Atom (.primitive kind)
  | named {name : String} (h : PlainName name) : Atom (.named name)

lemma PlainName.ofKeyword_eq (h : PlainName name) : ofKeyword name = .named name := by
  have hclass : ofClass name = .named name := by
    rw [ofClass, Name.dropSeparator]
    split
    · next heq => exact absurd (by rw [heq]; rfl) h.head
    · rfl
  have halias : ∀ {word : String}, word ∈ aliases → Name.key name ≠ word := by
    rintro word hword rfl
    exact h.notMem_aliases hword
  unfold ofKeyword
  rw [if_neg (by simpa using h.ne_this)]
  split
  all_goals first
    | exact absurd ‹_› (halias (by decide))
    | skip
  rw [h.primitive]
  exact hclass

lemma PlainName.wordText (h : PlainName name) : WordText name.toList :=
  ⟨by simpa using h.ne_empty, h.chars⟩

lemma PlainName.ofWordChars_eq (h : PlainName name) : ofWordChars name.toList = .named name := by
  have hbase : name.toList.takeWhile (fun c => !opensArguments c) = name.toList := by
    rw [takeWhile_eq_self_iff]
    intro c hc
    have := (h.chars c hc).2.2
    simp_all [operatorChars, opensArguments]
  unfold ofWordChars
  simp only [h.wordText.trimmed.trim_eq, hbase, h.last, Bool.false_eq_true, if_false,
    String.ofList_toList]
  exact h.ofKeyword_eq

lemma Atom.word (h : t.Atom) :
    t.memberText = t.chars ∧ WordText t.chars ∧ ofWordChars t.chars = t := by
  cases h with
  | primitive kind =>
    exact ⟨rfl, ⟨by cases kind <;> decide, by cases kind <;> exact forall_mem_of_all rfl⟩,
      by cases kind <;> rfl⟩
  | named h =>
    exact ⟨rfl, h.wordText, h.ofWordChars_eq⟩

/-! ## Clauses and unions of them -/

/-- An atom, or an intersection of at least two. -/
def Clause : Ty → Prop
  | .inter members => 2 ≤ members.length ∧ ∀ t ∈ members, t.Atom
  | t => t.Atom

/-- A clause, or a union in normal form of clauses. -/
def Disjunctive : Ty → Prop
  | .union members => (union members).Normal ∧ ∀ t ∈ members, t.Clause
  | t => t.Clause

lemma Clause.operand (h : t.Clause) : Operand t.memberText t ∧ parseChars? t.chars = some t := by
  have hatom : ∀ {u : Ty}, u.Atom → Operand u.memberText u ∧ parseChars? u.chars = some u := by
    intro u hu
    obtain ⟨hmember, hword, hself⟩ := hu.word
    have hoperand := Operand.word hword
    rw [hself] at hoperand
    exact ⟨hmember ▸ hoperand, hoperand.spec.2.2⟩
  cases t with
  | inter members =>
    obtain ⟨htwo, hmembers⟩ := h
    have hwords : ∀ word ∈ members.map chars, WordText word :=
      forall_mem_map.2 fun t ht => (hmembers t ht).word.2.1
    have hself : (members.map chars).map ofWordChars = members := by
      rw [map_map]
      exact (map_congr_left fun t ht => (hmembers t ht).word.2.2).trans (map_id _)
    have htexts : (inter members).chars = joinWith ['&'] (members.map chars) := by
      rw [chars_inter, map_congr_left fun t ht => (hmembers t ht).word.1]
    have hoperand := Operand.inter (by simpa using htwo) hwords
    have hparse := parse_words (by simpa using htwo) hwords
    rw [hself, ← htexts] at hoperand hparse
    exact ⟨hoperand, hparse⟩
  | _ => exact hatom h

/-- A type in disjunctive normal form is what its text declares. -/
theorem parse?_render {t : Ty} (h : t.Disjunctive) : parse? t.render = some t := by
  rw [parse?, render, String.toList_ofList]
  cases t with
  | union members =>
    obtain ⟨hnormal, hmembers⟩ := h
    rw [chars_union, ← hnormal.unionOf_members]
    simpa using parse_operands (g := id) hnormal.1 fun t ht => (hmembers t ht).operand.1
  | _ => exact And.right (Clause.operand h)

theorem parse?_render_clauses :
    (union [inter [named "App\\Model", named "Countable"], closure, null]).render =
      "(App\\Model&Countable)|Closure|null" ∧
    parse? "(App\\Model&Countable)|Closure|null" =
      some (.union [.inter [.named "App\\Model", .named "Countable"], closure, null]) := by
  have hname : ∀ name ∈ ["App\\Model", "Countable"], PlainName name := by
    simp only [forall_mem_cons]
    refine ⟨?_, ?_, by simp⟩ <;> exact ⟨by decide, forall_mem_of_all rfl, by decide, by decide,
      by decide, by decide, by decide⟩
  have h : (union [inter [named "App\\Model", named "Countable"], closure, null]).Disjunctive := by
    refine ⟨by decide, ?_⟩
    simp only [forall_mem_cons]
    refine ⟨⟨by simp, ?_⟩, .primitive _, .primitive _, by simp⟩
    simp only [forall_mem_cons]
    exact ⟨.named (hname _ (by simp)), .named (hname _ (by simp)), by simp⟩
  have htext : (union [inter [named "App\\Model", named "Countable"], closure, null]).render =
      "(App\\Model&Countable)|Closure|null" := rfl
  exact ⟨htext, htext ▸ parse?_render h⟩

end Ty

lemma Ty.ofHints_eq_map (hints : List Hint) : ofHints hints = hints.map ofHint := by
  induction hints with
  | nil => rfl
  | cons hint hints ih => rw [ofHints, ih, map_cons]

lemma Ty.Trimmed.parse_nullable (h : Trimmed cs) :
    parseChars? ('?' :: cs) = (parseChars? cs).map fun t => join t null := by
  have htrim : trim ('?' :: cs) = '?' :: cs := by
    obtain ⟨c, hc, hblank⟩ := h.last
    refine trim_eq_self (fun d hd => ?_) fun d hd => ?_
    · cases hd
      decide
    · rw [getLast?_cons, hc] at hd
      cases hd
      exact hblank
  rw [parseChars?_eq, parseWith, htrim]
  rfl

namespace Hint

/-- A name in a hint: not empty, without blanks, question marks and operators. -/
structure Word where
  name : String
  wordText : WordText name.toList

/-- A name, or the intersection of two or more. -/
inductive Part where
  | name (word : Word)
  | inter (first second : Word) (rest : List Word)

/-- The hints of a program. -/
inductive Form where
  | part (part : Part)
  | nullable (word : Word)
  | union (first : Part) (rest : List Part)

namespace Word

/-- The characters of a name. -/
def chars (word : Word) : List Char :=
  word.name.toList

/-- The hint that is just a name. -/
def hint (word : Word) : Hint :=
  .named word.name

end Word

namespace Part

def hint : Part → Hint
  | name word => word.hint
  | inter first second rest => .inter ((first :: second :: rest).map Word.hint)

/-- The text of a part that stands alone. -/
def chars : Part → List Char
  | name word => word.chars
  | inter first second rest => joinWith ['&'] ((first :: second :: rest).map Word.chars)

/-- The text of a part as a member of a union. -/
def memberChars : Part → List Char
  | name word => word.chars
  | inter first second rest => inBrackets (chars (inter first second rest))

lemma operand (part : Part) : Operand part.memberChars (ofHint part.hint) ∧
    parseChars? part.chars = some (ofHint part.hint) := by
  cases part with
  | name word => exact ⟨.word word.wordText, word.wordText.parse⟩
  | inter first second rest =>
    have hwords : ∀ cs ∈ (first :: second :: rest).map Word.chars, WordText cs :=
      forall_mem_map.2 fun word _ => word.wordText
    have htype : ofHint (hint (inter first second rest)) =
        .inter (((first :: second :: rest).map Word.chars).map ofWordChars) := by
      rw [hint, ofHint, ofHints_eq_map, map_map, map_map]
      rfl
    rw [htype]
    exact ⟨.inter (by simp) hwords, parse_words (by simp) hwords⟩

lemma normal (part : Part) : (ofHint part.hint).Normal :=
  lowered_normal.ofHint part.hint

end Part

namespace Form

def hint : Form → Hint
  | part p => p.hint
  | nullable word => .nullable word.hint
  | union first rest => .union ((first :: rest).map Part.hint)

/-- The text of a hint. -/
def text : Form → String
  | part p => String.ofList p.chars
  | nullable word => String.ofList ('?' :: word.chars)
  | union first rest => String.ofList (joinWith ['|'] ((first :: rest).map Part.memberChars))

end Form

/-- The text of a hint declares the type that the hint declares. -/
theorem parse?_text (form : Form) : parse? form.text = some (ofHint form.hint) := by
  cases form with
  | part p =>
    rw [Form.text, parse?, String.toList_ofList]
    exact p.operand.2
  | nullable word =>
    rw [Form.text, parse?, String.toList_ofList, Word.chars,
      word.wordText.trimmed.parse_nullable, word.wordText.parse]
    rfl
  | union first rest =>
    have htype : ofHint (Form.hint (.union first rest)) =
        unionOf ((first :: rest).map fun p => ofHint p.hint) := by
      rw [Form.hint, ofHint, ofHints_eq_map, map_map]
      rfl
    rw [Form.text, parse?, String.toList_ofList, htype]
    cases rest with
    | nil =>
      rw [map_singleton, map_singleton, first.normal.unionOf_singleton]
      exact first.operand.1.spec.2.2
    | cons second more => exact parse_operands (by simp) fun p _ => p.operand.1

end Hint

end FlowTyping

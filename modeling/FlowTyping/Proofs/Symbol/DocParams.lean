import FlowTyping.Proofs.Ty.Brackets
import FlowTyping.Symbol.Docblock
import Mathlib.Data.List.DropRight

/-!
# Parameters in doc comments

A doc comment declares the types of parameters on lines of their own, between lines with other tags
and prose.  The reader knows nothing of how a line came about: it drops what looks like decoration
at both ends and then looks for the tag.

**Lines.**  `ParamLine` and `OtherLine` are the lines of a comment as they are written, with what
makes them such lines; `docComment` is the comment.

**Reading.**  Of a line with a parameter, what is left without the decoration is the line from the
tag on, up to blanks at the end (`ParamLine.undecorated_chars`).  Of any other line, what is left is the
start of its text (`undecorated_otherLine_prefix`), so that it starts with the tag only if the text
does.
-/

namespace FlowTyping

open List Ty

namespace Text

variable {xs ys : List Char}

lemma trimEnd_append (h : ∀ c ∈ xs.getLast?, isBlank c = false) (ys : List Char) :
    trimEnd (xs ++ ys) = xs ++ trimEnd ys := by
  rw [trimEnd, reverse_append, dropWhile_append]
  split
  · rename_i hempty
    rw [dropWhile_eq_self (by simpa [head?_reverse] using h), reverse_reverse, trimEnd,
      isEmpty_iff.1 hempty, reverse_nil, append_nil]
  · rw [reverse_append, reverse_reverse, trimEnd]

lemma trimEnd_isPrefix (cs : List Char) : trimEnd cs <+: cs :=
  rdropWhile_prefix isBlank cs

lemma trimEnd_trimEnd (cs : List Char) : trimEnd (trimEnd cs) = trimEnd cs :=
  rdropWhile_idempotent isBlank cs

lemma dropWhile_isPrefix {p : Char → Bool} (h : xs <+: ys) : xs.dropWhile p <+: ys.dropWhile p := by
  obtain ⟨rest, rfl⟩ := h
  rw [dropWhile_append]
  split
  · rename_i hempty
    rw [isEmpty_iff.1 hempty]
    exact nil_prefix
  · exact prefix_append ..

lemma splitOn_eq (sep : Char) (cs : List Char) : splitOn sep cs = cs.splitOn sep := by
  induction cs with
  | nil => rfl
  | cons c cs ih =>
    rw [splitOn, ih, List.splitOn, List.splitOn, splitOnP_cons_eq_if_modifyHead]
    congr 1
    cases h : splitOnP (· == sep) cs with
    | nil => exact absurd h (splitOnP_ne_nil _ _)
    | cons piece pieces => rfl

end Text

namespace Docblock

open Text

variable {cs line : List Char}

/-! ## Lines -/

/-- The tag of a parameter. -/
def paramTag : List Char :=
  ['@', 'p', 'a', 'r', 'a', 'm']

/-- Whether a text starts with a word, with a blank or nothing behind it. -/
def startsWithWord (word cs : List Char) : Bool :=
  (stripPrefix? word cs).any fun rest => rest.head?.all isBlank

/-- A line that declares a parameter: its type, its name, and what is said about it. -/
structure ParamLine where
  type : List Char
  name : List Char
  about : List Char
  type_ne_nil : type ≠ []
  type_nested : Nested (fun c => !isBlank c) 0 type = true
  type_line : '\n' ∉ type
  name_solid : ∀ c ∈ name, isBlank c = false
  name_open : ¬ ['*', '/'] <:+: name
  about_apart : ∀ c ∈ about.head?, isBlank c = true
  about_line : '\n' ∉ about
  about_open : ¬ ['*', '/'] <:+: about

/-- Any other line: it is indented and starred, or neither, and its text does not start with the
tag. -/
structure OtherLine where
  indent : List Char
  stars : Nat
  text : List Char
  indent_blank : ∀ c ∈ indent, isBlank c = true
  line : '\n' ∉ indent ++ text
  text_star : text.head? ≠ some '*'
  text_start : stars = 0 → ¬ ['/', '*', '*'] <+: text ∧ ∀ c ∈ text.head?, isBlank c = false
  text_word : startsWithWord paramTag (trimStart text) = false

def ParamLine.chars (l : ParamLine) : List Char :=
  ' ' :: '*' :: ' ' :: (paramTag ++ ' ' :: (l.type ++ ' ' :: '$' :: (l.name ++ l.about)))

def OtherLine.chars (l : OtherLine) : List Char :=
  l.indent ++ replicate l.stars '*' ++ l.text

inductive DocLine where
  | param (line : ParamLine)
  | other (line : OtherLine)

namespace DocLine

def chars : DocLine → List Char
  | param l => l.chars
  | other l => l.chars

/-- The type that a line declares for the parameter `name`. -/
def type? (name : String) : DocLine → Option Ty
  | param l => if String.ofList l.name = name then parseChars? l.type else none
  | other _ => none

end DocLine

/-- The comment with the given lines between its opening and its closing. -/
def docComment (lines : List DocLine) : String :=
  String.ofList (['\n'].intercalate (['/', '*', '*'] :: (lines.map DocLine.chars ++ [[' ', '*', '/']])))

/-! ## Decoration -/

lemma dropOpenings_eq_self (h : ¬ ['/', '*', '*'] <+: cs) : dropOpenings cs = cs := by
  fun_cases dropOpenings cs with
  | case1 rest => exact absurd (prefix_append ['/', '*', '*'] rest) h
  | case2 => rfl

lemma dropClosings_suffix (cs : List Char) : dropClosings cs <:+ cs := by
  fun_induction dropClosings cs with
  | case1 rest ih => exact ih.trans (suffix_append ['/', '*'] rest)
  | case2 => exact suffix_rfl

lemma dropClosings_reverse (h : ¬ ['*', '/'] <:+ cs) : dropClosings cs.reverse = cs.reverse := by
  have hrev : ¬ ['/', '*'] <+: cs.reverse := fun hp => h <| reverse_prefix.1 hp
  generalize cs.reverse = rs at hrev ⊢
  fun_cases dropClosings rs with
  | case1 rest => exact absurd (prefix_append ['/', '*'] rest) hrev
  | case2 => rfl

/-- A text ends as its part behind a character that the ending does not have. -/
lemma suffix_of_suffix_append_cons {suf ys : List Char} {c : Char} (xs : List Char) (hc : c ∉ suf)
    (h : suf <:+ xs ++ c :: ys) : suf <:+ ys := by
  obtain ⟨before, h⟩ := h
  rcases append_eq_append_iff.1 h with ⟨as, -, rfl⟩ | ⟨bs, -, h⟩
  · simp at hc
  · cases bs with
    | nil =>
      rw [← nil_append suf, ← h] at hc
      exact absurd (.head _) hc
    | cons b bs => exact ⟨bs, (cons.inj h).2.symm⟩

/-! ## Lines without a parameter -/

lemma undecorated_otherLine_prefix (l : OtherLine) :
    undecorated l.chars <+: trimStart l.text := by
  have hstart : trimStart l.chars = replicate l.stars '*' ++ l.text := by
    rw [OtherLine.chars, trimStart, append_assoc, dropWhile_append_of_pos l.indent_blank]
    refine dropWhile_eq_self fun c hc => ?_
    cases hs : l.stars with
    | zero => exact (l.text_start hs).2 c (by simpa [hs] using hc)
    | succ n =>
      obtain rfl : '*' = c := by simpa [hs, replicate_succ] using hc
      decide
  have htrim : trim l.chars <+: replicate l.stars '*' ++ l.text := by
    rw [trim, hstart]
    exact trimEnd_isPrefix _
  have hopen : ¬ ['/', '*', '*'] <+: trim l.chars := by
    intro h
    have h := h.trans htrim
    cases hs : l.stars with
    | zero => exact (l.text_start hs).1 (by simpa [hs] using h)
    | succ n => simp [hs, replicate_succ, cons_prefix_cons] at h
  have hstars : (replicate l.stars '*' ++ l.text).dropWhile (· == '*') = l.text := by
    rw [dropWhile_append_of_pos fun c hc => by simp [eq_of_mem_replicate hc]]
    exact dropWhile_eq_self fun c hc => by simpa using fun he : c = '*' => l.text_star (he ▸ hc)
  have hline := dropWhile_isPrefix (p := (· == '*')) htrim
  rw [hstars] at hline
  rw [undecorated, dropOpenings_eq_self hopen]
  refine (trimEnd_isPrefix _).trans (dropWhile_isPrefix (List.IsPrefix.trans ?_ hline))
  rw [← reverse_suffix, reverse_reverse]
  exact dropClosings_suffix _

lemma type?_otherLine (l : OtherLine) (name : String) :
    (body? paramTag l.chars).bind (paramOfBody? name) = none := by
  obtain ⟨rest, htext⟩ := undecorated_otherLine_prefix l
  have hword := l.text_word
  rw [← htext, startsWithWord] at hword
  rw [body?]
  cases h : stripPrefix? paramTag (undecorated l.chars) with
  | none => rfl
  | some after =>
    rw [stripPrefix?_eq_some.1 h, append_assoc, stripPrefix?_eq_some.2 rfl] at hword
    cases after with
    | nil => rfl
    | cons c after =>
      have hc : isBlank c = false := by simpa using hword
      simp [hc]

/-! ## Lines with a parameter -/

lemma splitType_append {depth : Nat} (h : Nested (fun c => !isBlank c) depth cs = true)
    (rest : List Char) :
    splitType depth (cs ++ rest) = (cs ++ (splitType 0 rest).1, (splitType 0 rest).2) := by
  fun_induction Nested (fun c => !isBlank c) depth cs with
  | case1 depth =>
    obtain rfl : depth = 0 := by simpa using h
    rfl
  | case2 depth c cs hopen ih => simp_all [splitType, opensBracket]
  | case3 depth c cs hopen hclose ih =>
    rw [Bool.and_eq_true, bne_iff_ne] at h
    have hdepth : (depth : Int) - 1 = ((depth - 1 : Nat) : Int) := by omega
    simp_all [splitType, opensBracket, closesBracket]
  | case4 depth c cs hopen hclose ih =>
    have hblank : (isBlank c && decide ((depth : Int) ≤ 0)) = false := by
      cases hc : isBlank c <;> simp_all
    simp_all [splitType, opensBracket, closesBracket]

namespace ParamLine

variable (l : ParamLine)

lemma head_type {c : Char} (hc : c ∈ l.type.head?) : isBlank c = false := by
  have h := l.type_nested
  cases htype : l.type with
  | nil => exact absurd htype l.type_ne_nil
  | cons d rest =>
    obtain rfl : d = c := by simpa [htype] using hc
    rw [htype, Nested] at h
    split at h
    · rename_i hopen
      simp only [opensBracket, Bool.or_eq_true, beq_iff_eq] at hopen
      rcases hopen with (rfl | rfl) | rfl <;> decide
    · simp_all

/-- What the line says behind its tag. -/
def content : List Char :=
  l.type ++ ' ' :: '$' :: (l.name ++ trimEnd l.about)

lemma trimEnd_about_apart {c : Char} (hc : c ∈ (trimEnd l.about).head?) : isBlank c = true := by
  obtain ⟨rest, h⟩ := trimEnd_isPrefix l.about
  refine l.about_apart c ?_
  rw [← h, head?_append, hc]
  rfl

lemma getLast_name {c : Char} (hc : c ∈ ('$' :: l.name).getLast?) : isBlank c = false := by
  rcases mem_cons.1 (mem_of_getLast? hc) with rfl | hc
  · decide
  · exact l.name_solid c hc

lemma content_open : ¬ ['*', '/'] <:+ l.content := by
  intro h
  have h : ['*', '/'] <:+ l.name ++ trimEnd l.about := by
    refine suffix_of_suffix_append_cons (c := '$') (l.type ++ [' ']) (by decide) ?_
    simpa [content] using h
  cases habout : trimEnd l.about with
  | nil => exact l.name_open (by simpa [habout] using h.isInfix)
  | cons c rest =>
    have hc : c ∉ ['*', '/'] := by
      intro hmem
      have hblank := l.trimEnd_about_apart (c := c) (by rw [habout]; rfl)
      rcases mem_pair.1 hmem with rfl | rfl <;> revert hblank <;> decide
    rw [habout] at h
    refine l.about_open ((suffix_of_suffix_append_cons _ hc h).isInfix.trans ?_)
    exact (suffix_cons c rest).isInfix.trans (habout ▸ (trimEnd_isPrefix l.about).isInfix)

lemma trimEnd_line (xs ys : List Char) :
    trimEnd (xs ++ '$' :: (l.name ++ ys)) = xs ++ '$' :: (l.name ++ trimEnd ys) := by
  have hlast : ∀ c ∈ (xs ++ '$' :: l.name).getLast?, isBlank c = false := fun c hc =>
    l.getLast_name (by simpa [getLast?_append] using hc)
  simpa using trimEnd_append hlast ys

lemma trimEnd_content (xs : List Char) : trimEnd (xs ++ l.content) = xs ++ l.content := by
  have h := l.trimEnd_line (xs ++ (l.type ++ [' '])) (trimEnd l.about)
  rw [trimEnd_trimEnd] at h
  simpa [content] using h

lemma undecorated_chars : undecorated l.chars = paramTag ++ ' ' :: l.content := by
  have htrim : trim l.chars = '*' :: ' ' :: (paramTag ++ ' ' :: l.content) := by
    have h := l.trimEnd_line ('*' :: ' ' :: (paramTag ++ ' ' :: (l.type ++ [' ']))) l.about
    rw [trim, show trimStart l.chars = l.chars.tail from rfl, chars]
    simpa [content] using h
  have hclose : ¬ ['*', '/'] <:+ ' ' :: (paramTag ++ ' ' :: l.content) := fun h =>
    l.content_open (suffix_of_suffix_append_cons (c := ' ') (' ' :: paramTag) (by decide) h)
  have hrest : (dropOpenings (trim l.chars)).dropWhile (· == '*') =
      ' ' :: (paramTag ++ ' ' :: l.content) := by
    rw [htrim]
    rfl
  rw [undecorated, hrest, dropClosings_reverse hclose, reverse_reverse]
  exact (l.trimEnd_content (paramTag ++ [' '])).trans (by simp)

lemma trim_content : trim (' ' :: l.content) = l.content := by
  have hstart : trimStart (' ' :: l.content) = l.content := by
    refine (dropWhile_eq_self fun c hc => l.head_type ?_ : trimStart l.content = l.content)
    rwa [content, head?_append_of_ne_nil _ l.type_ne_nil] at hc
  rw [trim, hstart]
  exact l.trimEnd_content []

lemma splitType_content : splitType 0 l.content = (l.type, '$' :: l.name ++ trimEnd l.about) := by
  refine (splitType_append l.type_nested _).trans ?_
  exact congrArg (·, '$' :: l.name ++ trimEnd l.about) (append_nil l.type)

lemma varName?_content : varName? ('$' :: l.name ++ trimEnd l.about) = some (String.ofList l.name) := by
  have hname : ∀ c ∈ '$' :: l.name, (!isBlank c) = true := by
    simpa using ⟨by decide, l.name_solid⟩
  have habout : (trimEnd l.about).takeWhile (fun c => !isBlank c) = [] := by
    cases h : trimEnd l.about with
    | nil => rfl
    | cons c rest => simp [l.trimEnd_about_apart (c := c) (by rw [h]; rfl)]
  have hstart : trimStart ('$' :: l.name ++ trimEnd l.about) = '$' :: l.name ++ trimEnd l.about := rfl
  rw [varName?, firstWord?, hstart, takeWhile_append_of_pos hname, habout, append_nil]
  rfl

end ParamLine

lemma type?_paramLine (l : ParamLine) (name : String) :
    (body? paramTag l.chars).bind (paramOfBody? name) = (DocLine.param l).type? name := by
  have hbody : body? paramTag l.chars = some l.content := by
    rw [body?, l.undecorated_chars, stripPrefix?_eq_some.2 rfl]
    exact congrArg some l.trim_content
  rw [hbody, Option.bind_some, paramOfBody?, l.splitType_content]
  simp only [l.varName?_content, beq_iff_eq, Option.some.injEq, DocLine.type?]

/-! ## Comments -/

lemma newline_not_mem_chars (line : DocLine) : '\n' ∉ line.chars := by
  cases line with
  | param l =>
    have hname : '\n' ∉ l.name := fun h => absurd (l.name_solid _ h) (by decide)
    simp [DocLine.chars, ParamLine.chars, paramTag, l.type_line, l.about_line, hname]
  | other l =>
    have h := l.line
    rw [mem_append, not_or] at h
    simp [DocLine.chars, OtherLine.chars, mem_replicate, h.1, h.2]

/-- **The types of parameters are read line by line.**  A parameter has the type of the first line
that declares it with a type that can be read. -/
theorem paramType?_docComment (lines : List DocLine) (name : String) :
    paramType? (docComment lines) name = lines.findSome? (DocLine.type? name) := by
  have hlines : ∀ line : DocLine,
      (body? paramTag line.chars).bind (paramOfBody? name) = line.type? name := by
    rintro (l | l)
    · exact type?_paramLine l name
    · exact type?_otherLine l name
  have hsplit : Text.splitOn '\n' (docComment lines).toList =
      ['/', '*', '*'] :: (lines.map DocLine.chars ++ [[' ', '*', '/']]) := by
    rw [docComment, String.toList_ofList, splitOn_eq]
    refine splitOn_intercalate _ ?_ nofun
    simp only [forall_mem_cons, forall_mem_append, forall_mem_map]
    exact ⟨by decide, fun line _ => newline_not_mem_chars line, by decide, nofun⟩
  have hopening : (body? paramTag ['/', '*', '*']).bind (paramOfBody? name) = none := rfl
  have hclosing : (body? paramTag [' ', '*', '/']).bind (paramOfBody? name) = none := rfl
  calc paramType? (docComment lines) name
      = (['/', '*', '*'] :: (lines.map DocLine.chars ++ [[' ', '*', '/']])).findSome?
          (fun line => (body? paramTag line).bind (paramOfBody? name)) := by
        rw [paramType?, bodies, hsplit, ← head?_filterMap, filterMap_filterMap, head?_filterMap]
        rfl
    _ = (lines.map DocLine.chars).findSome?
          (fun line => (body? paramTag line).bind (paramOfBody? name)) := by
        rw [findSome?_cons, hopening, findSome?_append, findSome?_cons, hclosing]
        exact Option.or_none
    _ = lines.findSome? (DocLine.type? name) := by
        rw [findSome?_map]
        exact congrArg (lines.findSome? ·) (funext hlines)

end Docblock

end FlowTyping

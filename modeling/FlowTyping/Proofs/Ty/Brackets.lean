import FlowTyping.Ty.Declared
import Mathlib.Algebra.Order.BigOperators.Group.List
import Mathlib.Algebra.Order.Ring.Nat

/-!
# Brackets in declared types

A declared type is taken apart at the separators that stand outside of brackets.  The reader counts
brackets of all kinds with one counter, so all that matters of a text is how many are open where.
-/

namespace FlowTyping

open List Option Text

variable {cs first : List Char} {p : Char → Bool} {depth : Nat} {pieces : List (List Char)}

/-! ## Outer characters -/

namespace Text

lemma dropWhile_eq_self (h : ∀ c ∈ cs.head?, p c = false) : cs.dropWhile p = cs := by
  cases cs with
  | nil => rfl
  | cons c cs => rw [dropWhile_cons_of_neg (by simp [h c rfl])]

lemma trim_eq_self (hhead : ∀ c ∈ cs.head?, isBlank c = false)
    (hlast : ∀ c ∈ cs.getLast?, isBlank c = false) : trim cs = cs := by
  rw [trim, trimStart, dropWhile_eq_self hhead, trimEnd,
    dropWhile_eq_self (by simpa [head?_reverse] using hlast), reverse_reverse]

lemma length_trim_le (cs : List Char) : (trim cs).length ≤ cs.length := by
  rw [trim, trimEnd, trimStart, length_reverse]
  refine (dropWhile_sublist _).length_le.trans ?_
  rw [length_reverse]
  exact (dropWhile_sublist _).length_le

lemma stripPrefix?_eq_some {pre rest : List Char} :
    stripPrefix? pre cs = some rest ↔ cs = pre ++ rest := by
  fun_induction stripPrefix? pre cs with
  | case1 => simp [eq_comm]
  | case2 => simp
  | case3 _ _ _ _ heq ih => simpa [beq_iff_eq.1 heq] using ih
  | case4 _ _ _ _ hne =>
    rw [beq_iff_eq] at hne
    simp [Ne.symm hne]

lemma stripSuffix?_singleton {c : Char} {rest : List Char} :
    stripSuffix? [c] cs = some rest ↔ cs = rest ++ [c] := by
  rw [stripSuffix?, reverse_singleton, ← reverse_inj]
  cases h : cs.reverse with
  | nil => simp [stripPrefix?]
  | cons d ds =>
    by_cases hc : c = d
    · simp [stripPrefix?, hc, reverse_eq_iff]
    · simp [stripPrefix?, hc, Ne.symm hc]

lemma joinWith_cons (sep piece : List Char) {rest : List (List Char)} (hne : rest ≠ []) :
    joinWith sep (piece :: rest) = piece ++ sep ++ joinWith sep rest := by
  obtain ⟨_, _, rfl⟩ := exists_cons_of_ne_nil hne
  rfl

lemma head?_joinWith (sep : List Char) (hne : first ≠ []) (rest : List (List Char)) :
    (joinWith sep (first :: rest)).head? = first.head? := by
  by_cases hrest : rest = []
  · rw [hrest]
    rfl
  · rw [joinWith_cons sep first hrest, append_assoc, head?_append_of_ne_nil _ hne]

lemma getLast?_joinWith (sep : List Char) {last : List Char} (hne : last ≠ [])
    (before : List (List Char)) : (joinWith sep (before ++ [last])).getLast? = last.getLast? := by
  induction before with
  | nil => rfl
  | cons piece before ih =>
    obtain ⟨c, hc⟩ := isSome_iff_exists.1 (getLast?_isSome.2 hne)
    rw [cons_append, joinWith_cons sep piece (by simp), getLast?_append, ih, hc,
      some_or]

end Text

namespace Ty

variable {sep : Char}

/-- A text in round brackets. -/
def inBrackets (cs : List Char) : List Char :=
  '(' :: cs ++ [')']

lemma bracketed?_eq_some {inner : List Char} :
    bracketed? cs = some inner ↔ cs = inBrackets inner := by
  unfold bracketed? inBrackets
  split
  · rw [stripSuffix?_singleton]
    simp
  · next hopen =>
    simp only [reduceCtorEq, false_iff]
    rintro rfl
    exact hopen _ rfl

lemma bracketed?_eq_none (h : cs.head? ≠ some '(' ∨ cs.getLast? ≠ some ')') :
    bracketed? cs = none := by
  rw [eq_none_iff_forall_ne_some]
  intro inner hinner
  rw [bracketed?_eq_some.1 hinner, inBrackets, getLast?_concat] at h
  simp at h

/-! ## Nesting -/

/-- Whether `c` opens a bracket. -/
def opensBracket (c : Char) : Bool :=
  c == '<' || c == '(' || c == '\x7b'

/-- Whether `c` closes a bracket. -/
def closesBracket (c : Char) : Bool :=
  c == '>' || c == ')' || c == '\x7d'

/-- Whether all brackets are closed behind the text, with `depth` of them open in front of it, and
none before it is opened, and only characters of `p` stand outside of brackets. -/
def Nested (p : Char → Bool) : Nat → List Char → Bool
  | depth, [] => depth == 0
  | depth, c :: cs =>
    if opensBracket c then Nested p (depth + 1) cs
    else if closesBracket c then depth != 0 && Nested p (depth - 1) cs
    else (depth != 0 || p c) && Nested p depth cs

/-- Every bracket in the text is closed, and none before it is opened. -/
def Balanced (text : String) : Prop :=
  Nested (fun _ => true) 0 text.toList = true

/-- Whether `c` is neither of the two operators. -/
def isInOperand (c : Char) : Bool :=
  c != '|' && c != '&'

section Nested

variable {q : Char → Bool} {rest : List Char}

lemma nested_append (h : Nested p depth cs = true) : Nested p depth (cs ++ rest) = Nested p 0 rest := by
  fun_induction Nested p depth cs <;> simp_all [Nested]

lemma nested_bracket (h : Nested p depth cs = true) :
    Nested q (depth + 1) (cs ++ ')' :: rest) = Nested q 0 rest := by
  fun_induction Nested p depth cs with
  | case3 depth c cs hopen hclose ih =>
    rw [Bool.and_eq_true, bne_iff_ne] at h
    rw [← ih h.2, Nat.sub_add_cancel (Nat.pos_of_ne_zero h.1)]
    simp [Nested, hopen, hclose]
  | _ => simp_all [Nested, opensBracket, closesBracket]

lemma nested_imp (hpq : ∀ c, p c = true → q c = true) (h : Nested p depth cs = true) :
    Nested q depth cs = true := by
  fun_induction Nested p depth cs with
  | case4 depth c cs hopen hclose ih =>
    rw [Bool.and_eq_true, Bool.or_eq_true] at h
    rw [Nested, if_neg hopen, if_neg hclose, ih h.2, Bool.and_true, Bool.or_eq_true]
    exact h.1.imp_right (hpq c)
  | _ => simp_all [Nested]

lemma nested_inBrackets (h : Nested p 0 cs = true) : Nested q 0 (inBrackets cs) = true :=
  nested_bracket h

lemma nested_of_forall (h : ∀ c ∈ cs, opensBracket c = false ∧ closesBracket c = false ∧ p c = true) :
    Nested p 0 cs = true := by
  induction cs with
  | nil => rfl
  | cons c cs ih =>
    rw [forall_mem_cons] at h
    simp [Nested, h.1.1, h.1.2.1, h.1.2.2, ih h.2]

lemma nested_joinWith (hopen : opensBracket sep = false) (hclose : closesBracket sep = false)
    (hsep : p sep = true) (h : ∀ piece ∈ pieces, Nested p 0 piece = true) :
    Nested p 0 (joinWith [sep] pieces) = true := by
  fun_induction joinWith [sep] pieces with
  | case1 => rfl
  | case2 piece => exact h piece (.head _)
  | case3 piece pieces _ ih =>
    rw [forall_mem_cons] at h
    rw [append_assoc, nested_append h.1, singleton_append]
    simp [Nested, hopen, hclose, hsep, ih h.2]

end Nested

/-! ## Splitting -/

lemma splitTopFrom_cons (sep : Char) (depth : Int) (piece : List Char) (c : Char) (cs : List Char) :
    splitTopFrom sep depth piece (c :: cs) =
      if opensBracket c then splitTopFrom sep (depth + 1) (c :: piece) cs
      else if closesBracket c then splitTopFrom sep (depth - 1) (c :: piece) cs
      else if c == sep && depth == 0 then piece.reverse :: splitTopFrom sep depth [] cs
      else splitTopFrom sep depth (c :: piece) cs :=
  rfl

lemma splitTopFrom_append (h : Nested (· != sep) depth cs = true) (piece rest : List Char) :
    splitTopFrom sep depth piece (cs ++ rest) = splitTopFrom sep 0 (cs.reverse ++ piece) rest := by
  induction cs generalizing depth piece with
  | nil =>
    obtain rfl : depth = 0 := by simpa [Nested] using h
    rfl
  | cons c cs ih =>
    rw [cons_append, splitTopFrom_cons, reverse_cons, append_assoc, singleton_append]
    rw [Nested] at h
    by_cases hopen : opensBracket c = true
    · rw [if_pos hopen] at h ⊢
      exact ih h (c :: piece)
    rw [if_neg hopen] at h ⊢
    by_cases hclose : closesBracket c = true
    · rw [if_pos hclose] at h ⊢
      rw [Bool.and_eq_true, bne_iff_ne] at h
      rw [show (depth : Int) - 1 = ((depth - 1 : Nat) : Int) by omega]
      exact ih h.2 (c :: piece)
    rw [if_neg hclose] at h ⊢
    rw [Bool.and_eq_true] at h
    have hsep : ¬ (c == sep && (depth : Int) == 0) = true := by
      intro hboth
      simp_all
    rw [if_neg hsep]
    exact ih h.2 (c :: piece)

lemma splitTop_of_nested (h : Nested (· != sep) 0 cs = true) : splitTop sep cs = [cs] := by
  have := splitTopFrom_append h [] []
  simpa [splitTop, splitTopFrom] using this

lemma splitTop_joinWith (hopen : opensBracket sep = false) (hclose : closesBracket sep = false)
    (hne : pieces ≠ []) (h : ∀ piece ∈ pieces, Nested (· != sep) 0 piece = true) :
    splitTop sep (joinWith [sep] pieces) = pieces := by
  fun_induction joinWith [sep] pieces with
  | case1 => exact absurd rfl hne
  | case2 piece => exact splitTop_of_nested (h piece (.head _))
  | case3 piece pieces hnil ih =>
    rw [forall_mem_cons] at h
    have hfirst := splitTopFrom_append h.1 [] (sep :: joinWith [sep] pieces)
    rw [splitTop, append_assoc, singleton_append]
    refine hfirst.trans ?_
    rw [splitTopFrom_cons, if_neg (by simp [hopen]), if_neg (by simp [hclose]), if_pos (by simp),
      append_nil, reverse_reverse]
    exact congrArg (piece :: ·) (ih (fun hnone => hnil (by simp [hnone])) h.2)

lemma sum_length_splitTopFrom (sep : Char) (depth : Int) (piece cs : List Char) :
    ((splitTopFrom sep depth piece cs).map fun p => p.length + 1).sum =
      piece.length + cs.length + 1 := by
  fun_induction splitTopFrom sep depth piece cs <;> simp_all <;> omega

lemma length_lt_of_mem_splitTop {second : List Char} {more : List (List Char)}
    (h : splitTop sep cs = first :: second :: more) :
    ∀ piece ∈ first :: second :: more, piece.length < cs.length := by
  have hsum := sum_length_splitTopFrom sep 0 [] cs
  rw [show splitTopFrom sep 0 [] cs = _ from h] at hsum
  simp only [map_cons, sum_cons, length_nil] at hsum
  intro piece hpiece
  rcases mem_cons.1 hpiece with rfl | hpiece
  · omega
  rcases mem_cons.1 hpiece with rfl | hpiece
  · omega
  · have := single_le_sum (l := more.map fun p => p.length + 1) (fun _ _ => Nat.zero_le _)
      (piece.length + 1) (mem_map_of_mem hpiece)
    omega

/-! ## Budget -/

lemma mapM_congr {α β : Type} {f g : α → Option β} {l : List α} (h : ∀ a ∈ l, f a = g a) :
    l.mapM f = l.mapM g := by
  induction l with
  | nil => rfl
  | cons a l ih =>
    rw [forall_mem_cons] at h
    rw [mapM_cons, mapM_cons, h.1, ih h.2]

/-- The reading of a text without outer blanks and question mark, with `read` for the texts inside. -/
def parseOperands (read : List Char → Option Ty) (text : List Char) : Option Ty :=
  match splitTop '|' text with
  | first :: second :: more => ((first :: second :: more).mapM read).map unionOf
  | _ =>
    match bracketed? text with
    | some inner => read inner
    | none =>
      match splitTop '&' text with
      | first :: second :: more => ((first :: second :: more).mapM read).map .inter
      | _ => some (ofWordChars text)

/-- One reading. -/
def parseWith (read : List Char → Option Ty) (cs : List Char) : Option Ty :=
  match trim cs with
  | [] => none
  | '?' :: rest => (read rest).map fun t => join t null
  | text => parseOperands read text

lemma parseWith_congr {f g : List Char → Option Ty}
    (h : ∀ ds : List Char, ds.length < cs.length → f ds = g ds) :
    parseWith f cs = parseWith g cs := by
  have htrim := length_trim_le cs
  have hpieces : ∀ {sep : Char} {text first second : List Char} {more : List (List Char)},
      trim cs = text → splitTop sep text = first :: second :: more →
      (first :: second :: more).mapM f = (first :: second :: more).mapM g := by
    intro sep text first second more htext hsplit
    refine mapM_congr fun piece hpiece => h piece ?_
    have := length_lt_of_mem_splitTop hsplit piece hpiece
    rw [← htext] at this
    omega
  unfold parseWith
  split
  · rfl
  · next rest htext =>
    rw [htext, length_cons] at htrim
    rw [h rest (by omega)]
  · unfold parseOperands
    split
    · next hsplit => rw [hpieces rfl hsplit]
    · split
      · next inner hinner =>
        rw [bracketed?_eq_some.1 hinner] at htrim
        simp only [inBrackets, cons_append, length_cons, length_append] at htrim
        rw [h inner (by omega)]
      · split
        · next hsplit => rw [hpieces rfl hsplit]
        · rfl

lemma parseUpTo_eq {n m : Nat} (hn : cs.length < n) (hm : cs.length < m) :
    parseUpTo n cs = parseUpTo m cs := by
  induction n generalizing m cs with
  | zero => cases hn
  | succ n ih =>
    obtain ⟨m, rfl⟩ := Nat.exists_eq_succ_of_ne_zero (Nat.ne_zero_of_lt hm)
    exact parseWith_congr fun ds hds => ih (by omega) (by omega)

lemma parseChars?_eq (cs : List Char) : parseChars? cs = parseWith parseChars? cs := by
  refine Eq.trans (b := parseWith (parseUpTo cs.length) cs) rfl (parseWith_congr fun ds hds => ?_)
  exact parseUpTo_eq (by omega) (by omega)

/-! ## Operands -/

/-- The text is not empty, has no blank at either end, and does not start with a question mark. -/
structure Trimmed (cs : List Char) : Prop where
  head : ∃ c ∈ cs.head?, c ≠ '?' ∧ isBlank c = false
  last : ∃ c ∈ cs.getLast?, isBlank c = false

namespace Trimmed

lemma ne_nil (h : Trimmed cs) : cs ≠ [] := by
  rintro rfl
  obtain ⟨c, hc, -⟩ := h.head
  cases hc

lemma inBrackets (cs : List Char) : Trimmed (inBrackets cs) :=
  ⟨⟨'(', rfl, by decide, by decide⟩, ⟨')', getLast?_concat, by decide⟩⟩

lemma joinWith {sep : List Char} {pieces : List (List Char)} (hne : pieces ≠ [])
    (h : ∀ piece ∈ pieces, Trimmed piece) : Trimmed (joinWith sep pieces) := by
  constructor
  · obtain ⟨first, rest, rfl⟩ := exists_cons_of_ne_nil hne
    have hfirst := h first (.head _)
    rw [head?_joinWith sep hfirst.ne_nil]
    exact hfirst.head
  · obtain ⟨before, last, rfl⟩ := eq_nil_or_concat' pieces |>.resolve_left hne
    have hlast := h last (by simp)
    rw [getLast?_joinWith sep hlast.ne_nil]
    exact hlast.last

lemma trim_eq (h : Trimmed cs) : trim cs = cs := by
  obtain ⟨c, hc, -, hblank⟩ := h.head
  obtain ⟨d, hd, hblank'⟩ := h.last
  exact trim_eq_self (fun e he => by simp_all) fun e he => by simp_all

lemma parse_eq (h : Trimmed cs) : parseChars? cs = parseOperands parseChars? cs := by
  obtain ⟨c, hc, hopt, -⟩ := h.head
  rw [parseChars?_eq, parseWith, h.trim_eq]
  obtain ⟨rest, rfl⟩ : ∃ rest, cs = c :: rest := head?_eq_some_iff.1 hc
  split
  · next hnil => cases hnil
  · next heq => exact absurd (List.cons.inj heq).1 hopt
  · rfl

end Trimmed

section Operands

variable {ts : List Ty}

lemma parse_inBrackets (h : Nested (fun _ => true) 0 cs = true) :
    parseChars? (inBrackets cs) = parseChars? cs := by
  rw [(Trimmed.inBrackets cs).parse_eq, parseOperands, splitTop_of_nested (nested_inBrackets h),
    bracketed?_eq_some.2 rfl]

lemma parse_unionText (htwo : 2 ≤ pieces.length) (htrimmed : ∀ piece ∈ pieces, Trimmed piece)
    (hpieces : ∀ piece ∈ pieces, Nested (· != '|') 0 piece = true)
    (hts : pieces.mapM parseChars? = some ts) :
    parseChars? (joinWith ['|'] pieces) = some (unionOf ts) := by
  have hne : pieces ≠ [] := by
    rintro rfl
    cases htwo
  rw [(Trimmed.joinWith hne htrimmed).parse_eq, parseOperands,
    splitTop_joinWith (by decide) (by decide) hne hpieces]
  match pieces with
  | first :: second :: more => simp [hts]

/-- Operands between ampersands declare their intersection, unless the first starts with a bracket
and the last ends with one. -/
lemma parse_interText (htwo : 2 ≤ pieces.length) (htrimmed : ∀ piece ∈ pieces, Trimmed piece)
    (hpieces : ∀ piece ∈ pieces, Nested isInOperand 0 piece = true)
    (hends : (joinWith ['&'] pieces).head? ≠ some '(' ∨
      (joinWith ['&'] pieces).getLast? ≠ some ')')
    (hts : pieces.mapM parseChars? = some ts) :
    parseChars? (joinWith ['&'] pieces) = some (.inter ts) := by
  have hne : pieces ≠ [] := by
    rintro rfl
    cases htwo
  have hbar : Nested (· != '|') 0 (joinWith ['&'] pieces) = true :=
    nested_joinWith (by decide) (by decide) (by decide) fun piece hpiece =>
      nested_imp (fun c hc => by simp_all [isInOperand]) (hpieces piece hpiece)
  have hsplit : splitTop '&' (joinWith ['&'] pieces) = pieces :=
    splitTop_joinWith (by decide) (by decide) hne fun piece hpiece =>
      nested_imp (fun c hc => by simp_all [isInOperand]) (hpieces piece hpiece)
  rw [(Trimmed.joinWith hne htrimmed).parse_eq, parseOperands, splitTop_of_nested hbar,
    bracketed?_eq_none hends, hsplit]
  match pieces with
  | first :: second :: more => simp [hts]

end Operands

/-! ## Operands in brackets -/

/-- An operand that stands without brackets. -/
structure PlainOperand (text : String) : Prop where
  trimmed : Trimmed text.toList
  nested : Nested isInOperand 0 text.toList = true
  head : text.toList.head? ≠ some '('
  last : text.toList.getLast? ≠ some ')'

/-- Two operands in brackets declare the union of what is inside.  An intersection of such operands is
read as one where a plain operand stands at either end.  Without it the first and the last bracket
are dropped, although they do not belong together. -/
theorem bracketed_operands {x y : String} {a b : Ty} (hx : Balanced x) (hy : Balanced y)
    (ha : parse? x = some a) (hb : parse? y = some b) :
    parse? ("(" ++ x ++ ")|(" ++ y ++ ")") = some (join a b) ∧
    (∀ (z : String) (c : Ty), PlainOperand z → parse? z = some c →
      parse? ("(" ++ x ++ ")&(" ++ y ++ ")&" ++ z) = some (.inter [a, b, c]) ∧
      parse? (z ++ "&(" ++ x ++ ")&(" ++ y ++ ")") = some (.inter [c, a, b])) ∧
    parse? ("(" ++ x ++ ")&(" ++ y ++ ")") = parse? (x ++ ")&(" ++ y) := by
  have hreadx : parseChars? (inBrackets x.toList) = some a := (parse_inBrackets hx).trans ha
  have hready : parseChars? (inBrackets y.toList) = some b := (parse_inBrackets hy).trans hb
  have hnested : ∀ {p : Char → Bool}, Nested p 0 (inBrackets x.toList) = true ∧
      Nested p 0 (inBrackets y.toList) = true := ⟨nested_inBrackets hx, nested_inBrackets hy⟩
  refine ⟨?_, fun z c hz hc => ⟨?_, ?_⟩, ?_⟩
  · have htext : ("(" ++ x ++ ")|(" ++ y ++ ")").toList =
        joinWith ['|'] [inBrackets x.toList, inBrackets y.toList] := by
      simp [joinWith, inBrackets]
    rw [parse?, htext]
    exact parse_unionText (by simp) (by simp [Trimmed.inBrackets]) (by simpa using hnested)
      (by simp [hreadx, hready])
  · have htext : ("(" ++ x ++ ")&(" ++ y ++ ")&" ++ z).toList =
        joinWith ['&'] [inBrackets x.toList, inBrackets y.toList, z.toList] := by
      simp [joinWith, inBrackets]
    have hlast := getLast?_joinWith ['&'] hz.trimmed.ne_nil [inBrackets x.toList, inBrackets y.toList]
    have hreadz : parseChars? z.toList = some c := hc
    rw [parse?, htext]
    exact parse_interText (by simp) (by simp [Trimmed.inBrackets, hz.trimmed])
      (by simp [hnested, hz.nested]) (.inr (hlast ▸ hz.last)) (by simp [hreadx, hready, hreadz])
  · have htext : (z ++ "&(" ++ x ++ ")&(" ++ y ++ ")").toList =
        joinWith ['&'] [z.toList, inBrackets x.toList, inBrackets y.toList] := by
      simp [joinWith, inBrackets]
    have hhead := head?_joinWith ['&'] hz.trimmed.ne_nil [inBrackets x.toList, inBrackets y.toList]
    have hreadz : parseChars? z.toList = some c := hc
    rw [parse?, htext]
    exact parse_interText (by simp) (by simp [Trimmed.inBrackets, hz.trimmed])
      (by simp [hnested, hz.nested]) (.inl (hhead ▸ hz.head)) (by simp [hreadx, hready, hreadz])
  · -- No bar stands outside of brackets, so the ends are looked at before the ampersand.
    have htext : ("(" ++ x ++ ")&(" ++ y ++ ")").toList = inBrackets (x ++ ")&(" ++ y).toList := by
      simp [inBrackets]
    have hbar : Nested (· != '|') 0 (inBrackets (x ++ ")&(" ++ y).toList) = true := by
      rw [← htext, show ("(" ++ x ++ ")&(" ++ y ++ ")").toList =
        joinWith ['&'] [inBrackets x.toList, inBrackets y.toList] by
          simp [joinWith, inBrackets]]
      exact nested_joinWith (by decide) (by decide) (by decide) (by simpa using hnested)
    rw [parse?, htext, (Trimmed.inBrackets _).parse_eq, parseOperands, splitTop_of_nested hbar,
      bracketed?_eq_some.2 rfl, parse?]

/-- `A|B` and `?C` as operands, with and without a plain operand behind them. -/
theorem bracketed_operands_nullable :
    parse? "(A|B)|(?C)" = some (.union [.named "A", .named "B", .named "C", null]) ∧
    parse? "(A|B)&(?C)&list<D>" =
      some (.inter [.union [.named "A", .named "B"], .union [.named "C", null], array]) ∧
    parse? "(A|B)&(?C)" = parse? "A|B)&(?C" := by
  have hplain : PlainOperand "list<D>" := by
    refine ⟨⟨⟨'l', ?_, ?_, ?_⟩, ⟨'>', ?_, ?_⟩⟩, ?_, ?_, ?_⟩ <;> decide
  have h := bracketed_operands (x := "A|B") (y := "?C") (a := .union [.named "A", .named "B"])
    (b := .union [.named "C", null]) rfl rfl rfl rfl
  exact ⟨h.1, (h.2.1 "list<D>" array hplain rfl).1, h.2.2⟩

/-- Two classes in brackets are no intersection: the outer brackets are dropped, and the rest is taken
for the name of one class. -/
theorem bracketed_parts_merge :
    Balanced "A" ∧ parse? "A" = some (.named "A") ∧ Balanced "B" ∧ parse? "B" = some (.named "B") ∧
      parse? "(A)&(B)" = some (.named "A)&(B") :=
  ⟨rfl, rfl, rfl, rfl, rfl⟩

end Ty

end FlowTyping

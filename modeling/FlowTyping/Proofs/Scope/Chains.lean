import FlowTyping.Proofs.Scope.Placement

/-!
# Records of property chains

A chain is recorded under a text, its names joined by arrows, and a longer chain is recognised by
the text in front.  Since no name holds a hyphen, this is the same as looking at the names
(`PropertyPath.isExtension_key_iff`).  What is recorded after any number of writes is then decided
by the last of them that concerns the chain.
-/

namespace FlowTyping

open List Scope

/-- A variable and the properties that are followed from it. -/
structure PropertyPath where
  names : List String
  ne_nil : names ≠ []
  solid : ∀ name ∈ names, '-' ∉ name.toList
  deriving DecidableEq

namespace PropertyPath

/-- The text under which the type of the path is recorded. -/
def key (path : PropertyPath) : String :=
  "->".intercalate path.names

/-- The path follows at least one property more, from where `base` ends. -/
def Extends (path base : PropertyPath) : Prop :=
  base.names <+: path.names ∧ base.names ≠ path.names

instance (path base : PropertyPath) : Decidable (path.Extends base) :=
  inferInstanceAs (Decidable (_ ∧ _))

variable {name : String} {names others : List String} {cs rest : List Char}

lemma toList_join_cons (hne : names ≠ []) : ("->".intercalate (name :: names)).toList =
    name.toList ++ '-' :: '>' :: ("->".intercalate names).toList := by
  rw [String.intercalate_cons_of_ne_nil hne]
  simp

/-- Every hyphen stands between two names. -/
lemma exists_of_hyphen (hsolid : ∀ name ∈ names, '-' ∉ name.toList)
    (h : ("->".intercalate names).toList = cs ++ '-' :: rest) :
    ∃ front back, names = front ++ back ∧ front ≠ [] ∧ back ≠ [] ∧
      cs = ("->".intercalate front).toList ∧ rest = '>' :: ("->".intercalate back).toList := by
  induction names generalizing cs with
  | nil => simp at h
  | cons name names ih =>
    have hname := hsolid name (.head _)
    by_cases hne : names = []
    · subst hne
      rw [String.intercalate_singleton] at h
      exact absurd (h ▸ mem_append_right _ (.head _)) hname
    rw [toList_join_cons hne] at h
    -- The hyphen is the one behind the first name, or lies in the text of the others.
    rcases append_eq_append_iff.1 h with ⟨more, rfl, htail⟩ | ⟨more, hmore, htail⟩
    · rcases more with _ | ⟨c, _ | ⟨d, more⟩⟩
      · exact ⟨[name], names, rfl, by simp, hne, by simp, (cons.inj htail).2.symm⟩
      · exact absurd (cons.inj (cons.inj htail).2).1 (by decide)
      · simp only [cons_append, cons.injEq] at htail
        obtain ⟨rfl, rfl, htail⟩ := htail
        obtain ⟨front, back, rfl, hfront, hback, rfl, rfl⟩ :=
          ih (fun other hother => hsolid other (.tail _ hother)) htail
        exact ⟨name :: front, back, rfl, by simp, hback, (toList_join_cons hfront).symm, rfl⟩
    · rcases more with _ | ⟨c, more⟩
      · exact ⟨[name], names, rfl, by simp, hne, by simpa using hmore.symm, (cons.inj htail).2⟩
      · obtain ⟨rfl, -⟩ := cons.inj htail
        exact absurd (by simp [hmore]) hname

lemma eq_singleton_of_join (hne : names ≠ []) (hjoin : "->".intercalate names = name)
    (hname : '-' ∉ name.toList) : names = [name] := by
  subst hjoin
  rcases names with _ | ⟨first, _ | ⟨second, names⟩⟩
  · exact absurd rfl hne
  · rw [String.intercalate_singleton]
  · rw [toList_join_cons (by simp)] at hname
    exact absurd (by simp) hname

/-- The names can be read off the text. -/
lemma join_injective (hne : names ≠ []) (hne' : others ≠ [])
    (hsolid : ∀ name ∈ names, '-' ∉ name.toList) (hsolid' : ∀ name ∈ others, '-' ∉ name.toList)
    (h : "->".intercalate names = "->".intercalate others) : names = others := by
  induction others generalizing names with
  | nil => exact absurd rfl hne'
  | cons name others ih =>
    have hname := hsolid' name (.head _)
    by_cases ho : others = []
    · subst ho
      exact eq_singleton_of_join hne (h.trans String.intercalate_singleton) hname
    · have htext := congrArg String.toList h
      rw [toList_join_cons ho] at htext
      obtain ⟨front, back, rfl, hfront, hback, hf, hb⟩ := exists_of_hyphen hsolid htext
      obtain rfl := eq_singleton_of_join hfront (String.toList_inj.1 hf).symm hname
      rw [ih hback ho (fun other ho => hsolid other (.tail _ ho))
        (fun other ho => hsolid' other (.tail _ ho)) (String.toList_inj.1 (cons.inj hb).2.symm)]
      rfl

variable {path base : PropertyPath}

lemma key_inj : path.key = base.key ↔ path = base := by
  refine ⟨fun h => ?_, congrArg key⟩
  have := join_injective path.ne_nil base.ne_nil path.solid base.solid h
  cases path
  cases base
  simpa using this

/-- The text in front of an arrow is that of a shorter path, whatever name is asked about. -/
lemma isExtension_key_iff :
    isExtension name path.key = true ↔ ∃ base : PropertyPath, path.Extends base ∧ base.key = name := by
  constructor
  · intro h
    obtain ⟨rest, hrest⟩ := isPrefixOf_iff_prefix.1 h
    rw [String.toList_append, append_assoc] at hrest
    obtain ⟨front, back, hnames, hfront, hback, hname, -⟩ := exists_of_hyphen path.solid hrest.symm
    refine ⟨⟨front, hfront, fun n hn => path.solid n (hnames ▸ mem_append_left _ hn)⟩, ⟨?_, ?_⟩, ?_⟩
    · exact ⟨back, hnames.symm⟩
    · simpa [hnames] using hback
    · exact (String.toList_inj.1 hname).symm
  · rintro ⟨base, ⟨⟨back, hback⟩, hne⟩, rfl⟩
    have hmore : back ≠ [] := by
      rintro rfl
      exact hne (by rwa [append_nil] at hback)
    refine isPrefixOf_iff_prefix.2 ⟨("->".intercalate back).toList, ?_⟩
    rw [key, key, ← hback, String.intercalate_append_of_ne_nil base.ne_nil hmore]
    simp

lemma isExtension_key : isExtension base.key path.key = decide (path.Extends base) := by
  rw [Bool.eq_iff_iff, isExtension_key_iff, decide_eq_true_iff]
  refine ⟨?_, fun h => ⟨base, h, rfl⟩⟩
  rintro ⟨other, hother, hkey⟩
  exact key_inj.1 hkey ▸ hother

end PropertyPath

namespace Scope

lemma chain?_forgetChains (s : Scope) (base key : String) :
    (s.forgetChains base).chain? key = if isExtension base key then none else s.chain? key := by
  rw [chain?, forgetChains, Dict.get?_filter_keys]
  cases isExtension base key <;> rfl

lemma chain?_assign (s : Scope) (σ : Store) (name : String) (type : Option Ty) (line : Line)
    (key : String) : (s.assign σ name type line).1.chain? key =
      if isExtension name key then none else s.chain? key := by
  unfold assign
  cases s.slot? name <;> exact chain?_forgetChains ..

lemma chain?_setChain (s : Scope) (base key : String) (type : Option Ty) :
    (s.setChain base type).chain? key =
      if key = base then type else if isExtension base key then none else s.chain? key := by
  rw [← chain?_forgetChains]
  cases type with
  | none => exact Dict.get?_erase ..
  | some t => exact Dict.get?_insert ..

end Scope

/-- A write that decides what is recorded of chains. -/
inductive ChainWrite where
  | chain (path : PropertyPath) (type : Option Ty)
  | assign (name : String) (type : Option Ty) (line : Line)

namespace ChainWrite

def run (st : Scope × Store) : ChainWrite → Scope × Store
  | chain path type => (st.1.setChain path.key type, st.2)
  | assign name type line => st.1.assign st.2 name type line

/-- The write sets the path itself, or writes to a variable or path that it extends. -/
def Concerns (path : PropertyPath) : ChainWrite → Prop
  | chain base _ => path = base ∨ path.Extends base
  | assign name _ _ => ∃ base : PropertyPath, path.Extends base ∧ base.key = name

variable {path : PropertyPath} {t : Ty}

lemma chain?_run (st : Scope × Store) (w : ChainWrite) :
    (w.run st).1.chain? path.key = some t ↔
      w = chain path (some t) ∨ st.1.chain? path.key = some t ∧ ¬ w.Concerns path := by
  cases w with
  | chain base type =>
    simp only [run, chain?_setChain, PropertyPath.key_inj, PropertyPath.isExtension_key]
    by_cases hpath : path = base
    · simp [hpath, Concerns]
    · simp [hpath, Concerns, Ne.symm hpath, and_comm]
  | assign name type line =>
    simp [run, chain?_assign, PropertyPath.isExtension_key_iff, Concerns, and_comm]

/-- What is recorded was set by a write that no later one concerns, or was there from the start. -/
lemma chain?_foldl_run (writes : List ChainWrite) (st : Scope × Store) :
    (writes.foldl run st).1.chain? path.key = some t ↔
      (∃ before after, writes = before ++ chain path (some t) :: after ∧
        ∀ w ∈ after, ¬ w.Concerns path) ∨
      st.1.chain? path.key = some t ∧ ∀ w ∈ writes, ¬ w.Concerns path := by
  induction writes generalizing st with
  | nil => simp
  | cons w writes ih =>
    rw [foldl_cons, ih, chain?_run, forall_mem_cons]
    constructor
    · rintro (⟨before, after, rfl, hafter⟩ | ⟨rfl | ⟨hs, hw⟩, hwrites⟩)
      · exact .inl ⟨w :: before, after, rfl, hafter⟩
      · exact .inl ⟨[], writes, rfl, hwrites⟩
      · exact .inr ⟨hs, hw, hwrites⟩
    · rintro (⟨before, after, h, hafter⟩ | ⟨hs, hw, hwrites⟩)
      · rcases cons_eq_append_iff.1 h with ⟨rfl, h⟩ | ⟨before, rfl, rfl⟩
        · obtain ⟨rfl, rfl⟩ := cons.inj h
          exact .inr ⟨.inl rfl, hafter⟩
        · exact .inl ⟨before, after, rfl, hafter⟩
      · exact .inr ⟨.inr ⟨hs, hw⟩, hwrites⟩

end ChainWrite

/-- Records of chains follow the names in them.  Setting a path leaves the given type for it and
nothing for the paths that extend it, forgetting leaves nothing for these alone, and both keep what
is recorded of any other path.  After any writes a path has the type that was last set for it, unless
a variable or path that it extends was written since; what no write concerns is as it was. -/
theorem chains_after_writes (s : Scope) (σ : Store) :
    (∀ (base path : PropertyPath) (type : Option Ty), (s.setChain base.key type).chain? path.key =
      if path = base then type else if path.Extends base then none else s.chain? path.key) ∧
    (∀ base path : PropertyPath, (s.forgetChains base.key).chain? path.key =
      if path.Extends base then none else s.chain? path.key) ∧
    ∀ (writes : List ChainWrite) (path : PropertyPath) (t : Ty),
      (writes.foldl ChainWrite.run (s, σ)).1.chain? path.key = some t ↔
        (∃ before after, writes = before ++ .chain path (some t) :: after ∧
          ∀ w ∈ after, ¬ w.Concerns path) ∨
        s.chain? path.key = some t ∧ ∀ w ∈ writes, ¬ w.Concerns path := by
  refine ⟨fun base path type => ?_, fun base path => ?_, fun writes path t => ?_⟩
  · simp [chain?_setChain, PropertyPath.key_inj, PropertyPath.isExtension_key]
  · simp [chain?_forgetChains, PropertyPath.isExtension_key]
  · exact ChainWrite.chain?_foldl_run writes (s, σ)

end FlowTyping

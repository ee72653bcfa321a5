import FlowTyping.Proofs.Check.Observers
import Mathlib.Data.List.Pairwise

/-!
# The order of files

The files of one run see each other's declarations.  Where no two different files declare the same
symbol, the order in which the files are given only orders the reports.
-/

namespace FlowTyping

open Index List Option

variable {units : List SourceUnit} {ds : List (List Declaration)}

/-! ## One file and two indexes -/

section Analyses

variable {index other : Index}

/-- The analyses of one file with two indexes that say the same. -/
def Comparison.ofIndexes (arena : Arena) (options : Options) (h : index.Same other) :
    Comparison :=
  { Comparison.ofOptions arena index (Options.SameAnalysis.refl options) id with
    rightIndex := other
    exact := .full
    events := Forall₂ (Event.Like .full Eq)
    index_same := h
    propagate := .refl _
    events_cons := fun hes _ he => .cons he hes }

lemma analyze_same (unit : SourceUnit) (options : Options) (h : index.Same other) :
    Rel (fun st st' => st.table.types = st'.table.types ∧ st.events = st'.events)
      (unit.analyze index options) (unit.analyze other options) := by
  obtain ⟨ρ, hinitial⟩ := (Comparison.ofIndexes unit.arena options h).states_initial
    (fun _ => rfl) rfl trivial .nil
  have hrun := Comparison.checkFile (ρ := ρ)
    ((Comparison.ofIndexes unit.arena options h).evaluator (unit.budget options))
    unit.root trivial (le_refl ρ) hinitial
  refine rel_map hrun ?_
  rintro r r' ⟨ρ', -, hst, -⟩
  refine ⟨hst.table.types, ?_⟩
  exact forall₂_eq_eq_eq ▸ Forall₂.imp (fun _ _ he => Event.Like.eq he) hst.events

lemma report_eq_of_same (unit : SourceUnit) (options : Options) (h : index.Same other) :
    unit.report index options = unit.report other options := by
  rw [SourceUnit.report_eq, SourceUnit.report_eq]
  rcases rel_cases (analyze_same unit options h) with ⟨hl, hr⟩ | ⟨st, st', hl, hr, htypes, hevents⟩
  · rw [hl, hr]
  · rw [hl, hr, map_some, map_some]
    simp only [State.diagnostics, State.history, NodeTable.inferredTypes, htypes, hevents]

end Analyses

/-! ## Declarations of files in another order -/

/-- The symbols that a file declares. -/
def SourceUnit.symbols (unit : SourceUnit) : List Symbol :=
  (unit.declarations.getD []).map Declaration.symbol

/-- No two different files declare the same symbol. -/
def Separate (units : List SourceUnit) : Prop :=
  ∀ unit ∈ units, ∀ other ∈ units, unit ≠ other → unit.symbols.Disjoint other.symbols

lemma separate_of_pairwise
    (h : units.Pairwise fun unit other => unit.symbols.Disjoint other.symbols) :
    Separate units := by
  have : Std.Symm fun unit other : SourceUnit => unit.symbols.Disjoint other.symbols :=
    ⟨fun _ _ hdisjoint _ hleft hright => hdisjoint hright hleft⟩
  exact fun unit hunit other hother hne => h.forall hunit hother hne

section Lists

variable {α β : Type} {xs : List α} {order : List Nat}

lemma isSome_mapM_iff {f : α → Option β} : (xs.mapM f).isSome ↔ ∀ x ∈ xs, (f x).isSome := by
  induction xs with
  | nil => simp
  | cons x xs ih =>
    rw [mapM_cons, forall_mem_cons, ← ih]
    cases f x <;> cases xs.mapM f <;> simp

lemma getLast?_flatMap_of_mem {f : α → List β} {z : α} (hz : z ∈ xs) (hne : f z ≠ [])
    (hone : ∀ x ∈ xs, f x ≠ [] → x = z) : (xs.flatMap f).getLast? = (f z).getLast? := by
  induction xs with
  | nil => cases hz
  | cons x xs ih =>
    rw [forall_mem_cons] at hone
    rw [flatMap_cons, getLast?_append]
    by_cases hrest : z ∈ xs
    · rw [ih hrest hone.2, getLast?_eq_getLast_of_ne_nil hne, some_or]
    · have hempty : xs.flatMap f = [] := by
        rw [flatMap_eq_nil_iff]
        intro y hy
        by_contra hf
        exact hrest (hone.2 y hy hf ▸ hy)
      obtain rfl : x = z := by
        rcases mem_cons.1 hz with h | h
        · exact h.symm
        · exact absurd h hrest
      rw [hempty, getLast?_nil, none_or]

lemma getLast?_flatMap_of_perm {f : α → List β} {ys : List α} (hperm : xs.Perm ys)
    (hone : ∀ x ∈ xs, ∀ y ∈ xs, f x ≠ [] → f y ≠ [] → x = y) :
    (xs.flatMap f).getLast? = (ys.flatMap f).getLast? := by
  by_cases h : ∃ z ∈ xs, f z ≠ []
  · obtain ⟨z, hz, hne⟩ := h
    rw [getLast?_flatMap_of_mem hz hne fun x hx hf => hone x hx z hz hf hne,
      getLast?_flatMap_of_mem (hperm.mem_iff.1 hz) hne
        fun x hx hf => hone x (hperm.mem_iff.2 hx) z hz hf hne]
  · push Not at h
    rw [flatMap_eq_nil_iff.2 h,
      flatMap_eq_nil_iff.2 fun x hx => h x (hperm.mem_iff.2 hx)]

/-- The elements at the given positions, in the order of the positions. -/
def rearrange (order : List Nat) (xs : List α) : List α :=
  order.filterMap fun position => xs[position]?

lemma rearrange_map (order : List Nat) (f : α → β) (xs : List α) :
    rearrange order (xs.map f) = (rearrange order xs).map f := by
  simp only [rearrange, getElem?_map, map_filterMap]

lemma rearrange_range (xs : List α) : rearrange (range xs.length) xs = xs := by
  induction xs with
  | nil => rfl
  | cons x xs ih =>
    rw [rearrange, length_cons, range_succ_eq_map, filterMap_cons,
      filterMap_map]
    exact congrArg (x :: ·) ih

lemma rearrange_perm (h : order.Perm (range xs.length)) :
    (rearrange order xs).Perm xs := by
  have hperm := h.filterMap fun position => xs[position]?
  rwa [show (range xs.length).filterMap _ = xs from rearrange_range xs] at hperm

/-- Elements may be put in another order before or after a step that has to succeed on each. -/
lemma mapM_rearrange (f : α → Option β) (h : order.Perm (range xs.length)) :
    (rearrange order xs).mapM f = (xs.mapM f).map (rearrange order) := by
  cases hf : xs.mapM f with
  | some ys =>
    rw [mapM_eq_some_iff] at hf
    rw [map_some, mapM_eq_some_iff, ← rearrange_map, ← rearrange_map, hf]
  | none =>
    have hnot : ¬ (xs.mapM f).isSome := by simp [hf]
    have hnot' : ¬ ((rearrange order xs).mapM f).isSome := by
      simpa only [isSome_mapM_iff, (rearrange_perm h).mem_iff] using hnot
    exact not_isSome_iff_eq_none.1 hnot'

end Lists

lemma Index.addUnits_eq (index : Index) (units : List SourceUnit) :
    index.addUnits units =
      (units.mapM SourceUnit.declarations).map fun ds => index.addAll ds.flatten := by
  induction units generalizing index with
  | nil => rfl
  | cons unit units ih =>
    have hstep : index.addUnits (unit :: units) =
        (index.addUnit unit).bind fun next => next.addUnits units := foldlM_cons ..
    rw [hstep, mapM_cons, addUnit]
    cases unit.declarations with
    | none => rfl
    | some ds =>
      rw [map_some, bind_some, ih]
      cases units.mapM SourceUnit.declarations with
      | none => rfl
      | some rest =>
        show some ((index.addAll ds).addAll rest.flatten) =
          some (index.addAll (ds ++ rest.flatten))
        rw [addAll, addAll, addAll, foldl_append]

/-- What a file declares under a symbol, in order. -/
def SourceUnit.declared (unit : SourceUnit) (symbol : Symbol) : List Declaration :=
  (unit.declarations.getD []).filter fun d => d.symbol = symbol

lemma SourceUnit.mem_symbols {unit : SourceUnit} {symbol : Symbol}
    (h : unit.declared symbol ≠ []) : symbol ∈ unit.symbols := by
  obtain ⟨d, hd⟩ := exists_mem_of_ne_nil _ h
  obtain ⟨hmem, hsymbol⟩ := mem_filter.1 hd
  exact mem_map.2 ⟨d, hmem, of_decide_eq_true hsymbol⟩

lemma filter_flatten_declarations (h : units.mapM SourceUnit.declarations = some ds)
    (symbol : Symbol) :
    (ds.flatten.filter fun d => d.symbol = symbol) = units.flatMap (·.declared symbol) := by
  rw [mapM_eq_some_iff] at h
  have hds : ds = units.map fun unit => unit.declarations.getD [] := by
    have hget := congrArg (map fun o : Option (List Declaration) => o.getD []) h
    simpa [Function.comp_def] using hget.symm
  rw [hds, ← flatMap_def, filter_flatMap]
  rfl

lemma Index.same_of_perm (index : Index) {units' : List SourceUnit} (hperm : units.Perm units')
    (hseparate : Separate units) {ds' : List (List Declaration)}
    (hds : units.mapM SourceUnit.declarations = some ds)
    (hds' : units'.mapM SourceUnit.declarations = some ds') :
    (index.addAll ds.flatten).Same (index.addAll ds'.flatten) := by
  intro symbol
  rw [lookup_addAll, lookup_addAll, filter_flatten_declarations hds,
    filter_flatten_declarations hds']
  rw [getLast?_flatMap_of_perm hperm]
  intro unit hunit other hother hdeclared hdeclared'
  by_contra hne
  exact hseparate unit hunit other hother hne (unit.mem_symbols hdeclared)
    (other.mem_symbols hdeclared')

/-! ## Runs over several files -/

/-- Where no two different files declare the same symbol, the reports on the files in another order
are the reports in that order. -/
theorem checkUnits_rearrange {units : List SourceUnit} (hseparate : Separate units)
    {order : List Nat} (horder : order.Perm (range units.length)) (options : Options) :
    checkUnits (rearrange order units) options =
      (checkUnits units options).map (rearrange order) := by
  have hrun : ∀ us : List SourceUnit, checkUnits us options =
      (us.mapM SourceUnit.declarations).bind fun ds =>
        us.mapM fun unit => unit.report (builtin.addAll ds.flatten) options := by
    intro us
    show (builtin.addUnits us).bind _ = _
    rw [addUnits_eq, bind_map]
    rfl
  rw [hrun, hrun, mapM_rearrange _ horder]
  cases hds : units.mapM SourceUnit.declarations with
  | none => rfl
  | some ds =>
    have hds' := mapM_rearrange SourceUnit.declarations horder
    rw [hds] at hds'
    have hsame := builtin.same_of_perm (rearrange_perm horder).symm hseparate hds hds'
    rw [map_some, bind_some, bind_some, ← mapM_rearrange _ horder]
    simp only [report_eq_of_same _ options hsame]

/-- Three files.  The second one declares what the first and the third one use, and its `strlen`
takes the place of the built-in one:

    class Sub extends Base {}
    class Base { const LIMIT = 3; }  function strlen(): string {}
    $n = strlen();  $m = Sub::LIMIT; -/
def threeFiles : List SourceUnit :=
  [ Build.result do
      let sub ← Build.stmt (.classDecl { name := "Sub", extendedClass := some "Base", members := [] })
      Build.finish "sub" [sub],
    Build.result do
      let three ← Build.expr (.int 3)
      let limit ← Build.stmt (.classConst "LIMIT" three)
      let base ← Build.stmt (.classDecl { name := "Base", members := [limit] })
      let function ← Build.stmt (.function
        { name := "strlen", params := [], returnType := some (.named "string"), body := [] })
      Build.finish "base" [base, function],
    Build.result do
      let call ← Build.expr (.callNamed "strlen" [])
      let first ← Build.assignStmt "n" call
      let fetch ← Build.expr (.classConst (.named "Sub") "LIMIT")
      let second ← Build.assignStmt "m" fetch
      Build.finish "use" [first, second] ]

theorem checkUnits_rearrange_threeFiles :
    threeFiles.map SourceUnit.symbols =
        [[.cls "sub"], [.cls "base", .function "strlen"], []] ∧
      checkUnits (rearrange [2, 0, 1] threeFiles) {} =
        (checkUnits threeFiles {}).map (rearrange [2, 0, 1]) := by
  have hsymbols : threeFiles.map SourceUnit.symbols =
      [[.cls "sub"], [.cls "base", .function "strlen"], []] := by decide +kernel
  have hpairwise : (threeFiles.map SourceUnit.symbols).Pairwise Disjoint := by
    rw [hsymbols]
    simp
  have hseparate : Separate threeFiles := separate_of_pairwise (pairwise_map.1 hpairwise)
  exact ⟨hsymbols, checkUnits_rearrange hseparate (by decide) {}⟩

end FlowTyping

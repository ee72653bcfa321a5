import FlowTyping.Proofs.Analysis.Declared
import FlowTyping.Proofs.Ty.Equality
import Mathlib.Data.List.Infix
import Mathlib.Data.List.Pairwise

/-!
# Class hierarchies

Members are looked up in a class and in all that it is built on.  The hierarchy of a class is a graph of
names, which may have cycles, diamonds and names that nothing declares.  Breadth first, the names that
can be reached are listed level by level, each where it comes first.  A queue visits them in this order
too, though it passes over a name that it meets again, with all that follows from it, and stops after a
number of names.
-/

namespace FlowTyping.BreadthFirst

open List

variable {seen rest queue : List String} {x name : String} {n budget : Nat}

/-- The first occurrence of each name that was not seen before. -/
def fresh (seen names : List String) : List String :=
  (names.filter fun x => x ∉ seen).eraseDups

section Fresh

variable {names more : List String}

lemma fresh_cons_of_mem (h : x ∈ seen) : fresh seen (x :: names) = fresh seen names := by
  rw [fresh, filter_cons_of_neg (by simpa using h), fresh]

lemma fresh_cons_of_notMem (h : x ∉ seen) :
    fresh seen (x :: names) = x :: fresh (x :: seen) names := by
  rw [fresh, filter_cons_of_pos (by simpa using h), eraseDups_cons, filter_filter, fresh]
  simp [Bool.beq_eq_decide_eq]

lemma isPrefix_fresh : fresh seen names <+: fresh seen (names ++ more) := by
  rw [fresh, fresh, filter_append, eraseDups_append]
  exact prefix_append ..

lemma fresh_append_append (h : ∀ y ∈ more, y ∈ seen ∨ y ∈ names) :
    fresh seen (names ++ more ++ rest) = fresh seen (names ++ rest) := by
  induction names generalizing seen with
  | nil =>
    rw [nil_append, nil_append, fresh, filter_append,
      filter_eq_nil_iff.2 (by simpa using h), fresh, nil_append]
  | cons x names ih =>
    rw [cons_append, cons_append, cons_append]
    by_cases hx : x ∈ seen
    · rw [fresh_cons_of_mem hx, fresh_cons_of_mem hx, ih]
      grind
    · rw [fresh_cons_of_notMem hx, fresh_cons_of_notMem hx, ih]
      grind

lemma mem_fresh : x ∈ fresh seen names ↔ x ∈ names ∧ x ∉ seen := by
  simp [fresh]

lemma nodup_fresh : (fresh seen names).Nodup := by
  induction names generalizing seen with
  | nil => exact nodup_nil
  | cons x names ih =>
    by_cases hx : x ∈ seen
    · rw [fresh_cons_of_mem hx]
      exact ih
    · rw [fresh_cons_of_notMem hx, nodup_cons]
      exact ⟨fun hmem => (mem_fresh.1 hmem).2 (.head _), ih⟩

end Fresh

variable (next : String → List String)

/-- The names at the given distance from `queue`, in order. -/
def level (queue : List String) : Nat → List String
  | 0 => queue
  | n + 1 => (level queue n).flatMap next

/-- The names at a distance of less than `n` from `queue`, level by level. -/
def within (queue : List String) (n : Nat) : List String :=
  (List.range n).flatMap (level next queue)

/-- The names that a queue visits: `budget` of them at most, and none in `seen`. -/
def visit : (budget : Nat) → (seen queue : List String) → List String
  | 0, _, _ => []
  | budget + 1, seen, queue =>
    match queue.dropWhile seen.contains with
    | [] => []
    | x :: rest => x :: visit budget (x :: seen) (rest ++ next x)

/-- What names in `seen` refer to is there, or waits in the queue. -/
def Closed (seen queue : List String) : Prop :=
  ∀ x ∈ seen, ∀ y ∈ next x, y ∈ seen ∨ y ∈ queue

variable {next}

lemma within_succ : within next queue (n + 1) = within next queue n ++ level next queue n := by
  rw [within, range_succ, flatMap_append, flatMap_singleton, within]

lemma level_append (queue queue' : List String) (n : Nat) :
    level next (queue ++ queue') n = level next queue n ++ level next queue' n := by
  induction n with
  | zero => rfl
  | succ n ih => rw [level, ih, flatMap_append, level, level]

lemma level_cons (x : String) (rest : List String) (n : Nat) :
    level next (x :: rest) n = level next [x] n ++ level next rest n :=
  level_append [x] rest n

lemma level_singleton_succ (x : String) (n : Nat) : level next [x] (n + 1) = level next (next x) n := by
  induction n with
  | zero => simp [level]
  | succ n ih => rw [level, ih, level]

lemma within_nil (n : Nat) : within next [] n = [] := by
  have hlevel : ∀ n, level next [] n = [] := by
    intro n
    induction n with
    | zero => rfl
    | succ n ih => rw [level, ih, flatMap_nil]
  simp [within, hlevel]

/-- Taking the first name from the queue and what it refers to to the end only shifts the levels. -/
lemma within_append_level :
    within next (x :: rest) n ++ level next [x] n = x :: within next (rest ++ next x) n := by
  induction n with
  | zero => rfl
  | succ n ih =>
    rw [within_succ, level_cons, within_succ, ← cons_append, ← ih, level_singleton_succ,
      level_append]
    simp only [append_assoc]

lemma mem_within_of_mem_next {y : String} (h : x ∈ within next queue n) (hy : y ∈ next x) :
    y ∈ within next queue (n + 1) := by
  obtain ⟨m, hm, hx⟩ := mem_flatMap.1 h
  refine mem_flatMap.2 ⟨m + 1, ?_, mem_flatMap.2 ⟨x, hx, hy⟩⟩
  rw [mem_range] at hm ⊢
  omega

/-- A name that was seen leads nowhere new: all that follows from it is seen, or follows from the rest
of the queue one level earlier. -/
lemma fresh_within_cons (hx : x ∈ seen) (hclosed : Closed next seen (x :: rest)) :
    fresh seen (within next (x :: rest) n) = fresh seen (within next rest n) := by
  have hold : ∀ n, ∀ y ∈ level next [x] n, y ∈ seen ∨ y ∈ within next rest n := by
    intro n
    induction n with
    | zero => exact fun y hy => .inl (mem_singleton.1 hy ▸ hx)
    | succ n ih =>
      intro y hy
      obtain ⟨z, hz, hy⟩ := mem_flatMap.1 hy
      rcases ih z hz with hz | hz
      · have hrest : y ∈ rest → y ∈ within next rest (n + 1) := fun h =>
          mem_flatMap.2 ⟨0, by simp, h⟩
        have := hclosed z hz y hy
        grind
      · exact .inr (mem_within_of_mem_next hz hy)
  -- The levels are left out from the last one on, so names may follow.
  have hany : ∀ more, fresh seen (within next (x :: rest) n ++ more) =
      fresh seen (within next rest n ++ more) := by
    induction n with
    | zero => exact fun _ => rfl
    | succ n ih =>
      intro more
      rw [within_succ, level_cons, append_assoc, ih, append_assoc, ← append_assoc,
        fresh_append_append (hold n), within_succ, append_assoc]
  simpa using hany []

lemma visit_nil : visit next budget seen [] = [] := by
  cases budget <;> rfl

lemma visit_cons_of_mem (h : x ∈ seen) :
    visit next budget seen (x :: rest) = visit next budget seen rest := by
  cases budget with
  | zero => rfl
  | succ budget => rw [visit, dropWhile_cons_of_pos (by simpa using h), visit]

lemma visit_cons_of_notMem (h : x ∉ seen) : visit next (budget + 1) seen (x :: rest) =
    x :: visit next budget (x :: seen) (rest ++ next x) := by
  rw [visit, dropWhile_cons_of_neg (by simpa using h)]

lemma take_eq_between {k : Nat} {l m r : List String} (hlm : l <+: m) (hmr : m <+: r)
    (h : l.take k = r.take k) : m.take k = r.take k := by
  refine List.IsPrefix.eq_of_length_le (hmr.take k) ?_
  rw [← h]
  exact (hlm.take k).length_le

/-- A queue visits the first names of the breadth-first order.  As many levels as names are enough, since
each level has a new name until there are no more.  The induction is on the budget, and on the queue
as long as its names were seen. -/
lemma visit_eq_take (hn : budget ≤ n) (hclosed : Closed next seen queue) :
    visit next budget seen queue = (fresh seen (within next queue n)).take budget := by
  induction budget generalizing n seen queue with
  | zero => rfl
  | succ budget ihbudget =>
    obtain ⟨n, rfl⟩ := Nat.exists_eq_succ_of_ne_zero (Nat.ne_zero_of_lt hn)
    induction queue with
    | nil => rw [visit_nil, within_nil]; rfl
    | cons x rest ih =>
      by_cases hx : x ∈ seen
      · rw [visit_cons_of_mem hx, fresh_within_cons hx hclosed]
        refine ih fun z hz y hy => ?_
        have := hclosed z hz y hy
        grind
      have hclosed' : Closed next (x :: seen) (rest ++ next x) := by
        intro z hz y hy
        rcases mem_cons.1 hz with rfl | hz
        · exact .inr (mem_append_right _ hy)
        · have := hclosed z hz y hy
          grind
      -- The rest is visited alike for two numbers of levels, and the names of the queue lie in between.
      have hvisit : ∀ m, budget ≤ m → visit next (budget + 1) seen (x :: rest) =
          (fresh seen (within next (x :: rest) m ++ level next [x] m)).take (budget + 1) := by
        intro m hm
        rw [visit_cons_of_notMem hx, within_append_level, fresh_cons_of_notMem hx, take_succ_cons,
          ihbudget hm hclosed']
      have hlow : fresh seen (within next (x :: rest) n ++ level next [x] n) <+:
          fresh seen (within next (x :: rest) (n + 1)) := by
        rw [within_succ, level_cons x rest, ← append_assoc]
        exact isPrefix_fresh
      have hends := (hvisit n (by omega)).symm.trans (hvisit (n + 1) (by omega))
      rw [take_eq_between hlow isPrefix_fresh hends]
      exact hvisit (n + 1) (by omega)

end FlowTyping.BreadthFirst

namespace FlowTyping.Index

open BreadthFirst List Name

variable {index : Index} {start other key : String} {info : ClassInfo}

/-! ## Walks -/

/-- The names that the class called `name` is built on. -/
def basesOf (index : Index) (name : String) : List String :=
  match index.class? name with
  | some info => info.bases
  | none => []

lemma walk_nil : index.walk budget seen [] = [] := by
  cases budget <;> rfl

lemma walk_cons_of_mem (h : foldCase name ∈ seen) :
    index.walk budget seen (name :: rest) = index.walk budget seen rest := by
  cases budget with
  | zero => rfl
  | succ budget => rw [walk, dropWhile_cons_of_pos (by simpa using h), walk]

lemma walk_cons_of_notMem (h : foldCase name ∉ seen) :
    index.walk (budget + 1) seen (name :: rest) = (index.class? name).toList ++
      index.walk budget (foldCase name :: seen) (rest ++ index.basesOf name) := by
  rw [walk, dropWhile_cons_of_neg (by simpa using h), basesOf]
  cases hinfo : index.class? name <;> simp [hinfo]

/-- A walk between two rounds. -/
structure Walk where
  seen : List String := []
  queue : List String
  visited : List ClassInfo := []

/-- One round of a walk takes the first name from the queue.  It is passed over if it was seen before,
or if enough names were seen. -/
def round (index : Index) : Walk → Walk
  | ⟨seen, [], visited⟩ => ⟨seen, [], visited⟩
  | ⟨seen, name :: rest, visited⟩ =>
    if seen.length ≥ maxHierarchy ∨ foldCase name ∈ seen then ⟨seen, rest, visited⟩
    else
      ⟨foldCase name :: seen, rest ++ index.basesOf name, visited ++ (index.class? name).toList⟩

/-- The walk comes to its end, where the queue is empty, and has visited `infos`. -/
def Ends (index : Index) (w : Walk) (infos : List ClassInfo) : Prop :=
  ∃ rounds, (index.round^[rounds] w).queue = [] ∧ (index.round^[rounds] w).visited = infos

lemma Ends.of_round {w w' : Walk} {infos : List ClassInfo} (h : index.Ends w' infos)
    (hround : index.round w = w') : index.Ends w infos := by
  obtain ⟨rounds, hend⟩ := h
  refine ⟨rounds + 1, ?_⟩
  rwa [Function.iterate_succ_apply, hround]

/-- A walk ends from wherever it stands.  The induction is on the names that may still be looked at,
and for each number of them on the queue. -/
lemma ends {visited : List ClassInfo} (hbudget : seen.length + budget = maxHierarchy) :
    index.Ends ⟨seen, queue, visited⟩ (visited ++ index.walk budget seen queue) := by
  induction budget generalizing seen queue visited with
  | zero =>
    rw [walk, append_nil]
    induction queue with
    | nil => exact ⟨0, rfl, rfl⟩
    | cons name rest ih => exact ih.of_round (if_pos (.inl (by omega)))
  | succ budget ihbudget =>
    induction queue with
    | nil => exact ⟨0, rfl, by simp [walk_nil]⟩
    | cons name rest ih =>
      by_cases hseen : foldCase name ∈ seen
      · rw [walk_cons_of_mem hseen]
        exact ih.of_round (if_pos (.inr hseen))
      · rw [walk_cons_of_notMem hseen, ← append_assoc]
        refine Ends.of_round (ihbudget ?_) (if_neg (not_or.2 ⟨by omega, hseen⟩))
        rw [length_cons]
        omega

lemma ends_hierarchy : index.Ends ⟨[], [start], []⟩ (index.hierarchy start) := by
  have : index.Ends ⟨[], [start], []⟩ ([] ++ index.walk maxHierarchy [] [start]) := ends rfl
  simpa [hierarchy] using this

/-! ## Order -/

/-- The names, in lower case, that the class called `name` is built on. -/
def foldedBasesOf (index : Index) (name : String) : List String :=
  (index.basesOf name).map foldCase

/-- The names that can be reached from `start` in less than `n` steps, in lower case and breadth first. -/
def breadthFirst (index : Index) (start : String) (n : Nat) : List String :=
  (within index.foldedBasesOf [foldCase start] n).eraseDups

lemma nodup_breadthFirst : (index.breadthFirst start n).Nodup := by
  have : (fresh [] (within index.foldedBasesOf [foldCase start] n)).Nodup := nodup_fresh
  simpa [fresh, breadthFirst] using this

lemma class?_of_key_eq (h : Name.key name = Name.key other) :
    index.class? name = index.class? other := by
  rw [class?, h, class?]

lemma class?_foldCase (name : String) : index.class? (foldCase name) = index.class? name :=
  class?_of_key_eq (key_foldCase name)

lemma walk_eq_filterMap : index.walk budget seen queue =
    (visit index.foldedBasesOf budget seen (queue.map foldCase)).filterMap index.class? := by
  induction budget generalizing seen queue with
  | zero => rfl
  | succ budget ihbudget =>
    induction queue with
    | nil => rw [walk_nil, map_nil, visit_nil, filterMap_nil]
    | cons name rest ih =>
      by_cases hseen : foldCase name ∈ seen
      · rw [walk_cons_of_mem hseen, ih, map_cons, visit_cons_of_mem hseen]
      · have hbases : index.foldedBasesOf (foldCase name) = (index.basesOf name).map foldCase := by
          rw [foldedBasesOf, basesOf, class?_foldCase, basesOf]
        rw [walk_cons_of_notMem hseen, ihbudget, map_cons, visit_cons_of_notMem hseen, hbases,
          map_append, filterMap_cons, class?_foldCase]
        cases index.class? name <;> rfl

lemma hierarchy_eq_take (hn : maxHierarchy ≤ n) :
    index.hierarchy start = ((index.breadthFirst start n).take maxHierarchy).filterMap index.class? := by
  rw [hierarchy, walk_eq_filterMap, visit_eq_take hn (by simp [Closed])]
  simp [fresh, breadthFirst]

/-! ## Reachable names -/

/-- A name can be reached from `start` through the traits, parents and interfaces of declared classes. -/
inductive Reaches (index : Index) (start : String) : String → Prop
  | refl : Reaches index start start
  | base {name base : String} {info : ClassInfo} (h : Reaches index start name)
    (hinfo : index.class? name = some info) (hbase : base ∈ info.bases) : Reaches index start base

/-- No more names can be reached, up to case, than a walk may look at. -/
def Few (index : Index) (start : String) : Prop :=
  ∃ names : List String, names.length ≤ 256 ∧
    ∀ name, index.Reaches start name → foldCase name ∈ names

lemma mem_breadthFirst : key ∈ index.breadthFirst start n ↔
    ∃ m < n, key ∈ level index.foldedBasesOf [foldCase start] m := by
  simp [breadthFirst, within]

lemma Reaches.exists_mem_level (h : index.Reaches start name) :
    ∃ n, foldCase name ∈ level index.foldedBasesOf [foldCase start] n := by
  induction h with
  | refl => exact ⟨0, .head _⟩
  | @base name base info _ hinfo hbase ih =>
    obtain ⟨n, hn⟩ := ih
    refine ⟨n + 1, mem_flatMap.2 ⟨_, hn, ?_⟩⟩
    rw [foldedBasesOf, basesOf, class?_foldCase, hinfo]
    exact mem_map_of_mem hbase

lemma exists_reaches (h : key ∈ level index.foldedBasesOf [foldCase start] n) :
    ∃ name, index.Reaches start name ∧ foldCase name = key := by
  induction n generalizing key with
  | zero => exact ⟨start, .refl, (mem_singleton.1 h).symm⟩
  | succ n ih =>
    obtain ⟨above, habove, hkey⟩ := mem_flatMap.1 h
    obtain ⟨base, hbase, rfl⟩ := mem_map.1 hkey
    obtain ⟨name, hname, rfl⟩ := ih habove
    rw [basesOf, class?_foldCase] at hbase
    cases hinfo : index.class? name with
    | none => simp [hinfo] at hbase
    | some info => exact ⟨base, hname.base hinfo (by simpa [hinfo] using hbase), rfl⟩

lemma exists_reaches_of_mem_hierarchy (h : info ∈ index.hierarchy start) :
    ∃ name, index.Reaches start name ∧ index.class? name = some info := by
  rw [hierarchy_eq_take le_rfl] at h
  obtain ⟨key, hkey, hinfo⟩ := mem_filterMap.1 h
  obtain ⟨m, -, hlevel⟩ := mem_breadthFirst.1 (mem_of_mem_take hkey)
  obtain ⟨name, hname, rfl⟩ := exists_reaches hlevel
  exact ⟨name, hname, class?_foldCase name ▸ hinfo⟩

namespace Few

variable (hfew : index.Few start)

include hfew

lemma hierarchy_eq (hn : maxHierarchy ≤ n) :
    index.hierarchy start = (index.breadthFirst start n).filterMap index.class? := by
  obtain ⟨names, hlength, hnames⟩ := hfew
  have hsub : index.breadthFirst start n ⊆ names := by
    intro key hkey
    obtain ⟨m, -, hlevel⟩ := mem_breadthFirst.1 hkey
    obtain ⟨name, hname, rfl⟩ := exists_reaches hlevel
    exact hnames name hname
  rw [hierarchy_eq_take hn, take_of_length_le]
  exact (nodup_breadthFirst.subperm hsub).length_le.trans hlength

lemma mem_hierarchy : info ∈ index.hierarchy start ↔
    ∃ name, index.Reaches start name ∧ index.class? name = some info := by
  refine ⟨exists_reaches_of_mem_hierarchy, ?_⟩
  rintro ⟨name, hname, hinfo⟩
  obtain ⟨m, hlevel⟩ := hname.exists_mem_level
  rw [hfew.hierarchy_eq (Nat.le_max_left maxHierarchy (m + 1)), mem_filterMap]
  refine ⟨_, mem_breadthFirst.2 ⟨m, ?_, hlevel⟩, (class?_foldCase name).trans hinfo⟩
  omega

end Few

/-! ## Lookups -/

/-- The index was built by adding declarations. -/
def Built (index : Index) : Prop :=
  ∃ declarations, index = ({} : Index).addAll declarations

lemma mem_of_class?_addAll {declarations : List Declaration}
    (h : (({} : Index).addAll declarations).class? name = some info) :
    .cls info ∈ declarations ∧ Name.key info.name = Name.key name := by
  have hlookup : (({} : Index).addAll declarations).lookup (.cls (Name.key name)) = some (.cls info) :=
    congrArg (Option.map Declaration.cls) h
  rw [lookup_addAll, Option.or_eq_some_iff] at hlookup
  rcases hlookup with hlast | ⟨-, hnone⟩
  · have hmem := mem_filter.1 (mem_of_getLast? hlast)
    refine ⟨hmem.1, ?_⟩
    simpa [Declaration.symbol] using hmem.2
  · cases hnone

lemma Built.key_eq (hbuilt : index.Built) (h : index.class? name = some info) :
    Name.key info.name = Name.key name := by
  obtain ⟨declarations, rfl⟩ := hbuilt
  exact (mem_of_class?_addAll h).2

/-- No class is declared with a separator in front of its name. -/
def Plain (index : Index) : Prop :=
  ∀ name info, index.class? name = some info → unqualified info.name = info.name

/-- What is found is what the first class has, breadth first, that has something.  Something is found
where a class has it that can be reached. -/
structure FoundFirst {α : Type} (index : Index) (start : String) (own : ClassInfo → Option α)
    (found : Option α) : Prop where
  first : ∀ n ≥ 256, found = ((index.breadthFirst start n).filterMap index.class?).findSome? own
  isSome : found.isSome = true ↔ ∃ name info, index.Reaches start name ∧
    index.class? name = some info ∧ (own info).isSome = true

lemma Few.foundFirst {α : Type} (hfew : index.Few start) (own : ClassInfo → Option α) :
    index.FoundFirst start own ((index.hierarchy start).findSome? own) where
  first n hn := by rw [hfew.hierarchy_eq hn]
  isSome := by
    simp only [findSome?_isSome_iff, hfew.mem_hierarchy]
    grind

lemma Plain.isSubclass_iff (hplain : index.Plain) {ancestor : String} :
    index.isSubclass start ancestor = true ↔
      ∃ info ∈ index.hierarchy start, same info.name ancestor = true := by
  rw [isSubclass, any_eq_true]
  refine exists_congr fun info => and_congr_right fun hinfo => ?_
  obtain ⟨name, -, hname⟩ := exists_reaches_of_mem_hierarchy hinfo
  rw [sameWord, same, Name.key, hplain name info hname, Name.key]

lemma Reaches.of_class?_eq {target : String} (hname : index.Reaches start name)
    (hclass : index.class? other = index.class? name) (h : index.Reaches other target) :
    target = other ∨ index.Reaches start target := by
  induction h with
  | refl => exact .inl rfl
  | base _ hinfo hbase ih =>
    rcases ih with rfl | ih
    · exact .inr (hname.base (hclass ▸ hinfo) hbase)
    · exact .inr (ih.base hinfo hbase)

lemma isSubclass_self (hbuilt : index.Built) (hplain : index.Plain)
    (h : (index.class? start).isSome = true) : index.isSubclass start start = true := by
  obtain ⟨info, hinfo⟩ := Option.isSome_iff_exists.1 h
  refine hplain.isSubclass_iff.2 ⟨info, ?_, ?_⟩
  · rw [hierarchy, maxHierarchy, walk_cons_of_notMem (by simp), hinfo]
    exact .head _
  · rw [same, beq_iff_eq]
    exact hbuilt.key_eq hinfo

lemma isSubclass_trans (hbuilt : index.Built) (hplain : index.Plain) (hfew : index.Few start)
    {middle last : String} (h : index.isSubclass start middle = true)
    (h' : index.isSubclass middle last = true) : index.isSubclass start last = true := by
  obtain ⟨info, hinfo, hsame⟩ := hplain.isSubclass_iff.1 h
  obtain ⟨info', hinfo', hsame'⟩ := hplain.isSubclass_iff.1 h'
  obtain ⟨name, hname, hclass⟩ := hfew.mem_hierarchy.1 hinfo
  obtain ⟨name', hname', hclass'⟩ := exists_reaches_of_mem_hierarchy hinfo'
  have hkey : Name.key middle = Name.key name := by
    rw [same, beq_iff_eq] at hsame
    rw [← hsame, hbuilt.key_eq hclass]
  refine hplain.isSubclass_iff.2 ⟨info', hfew.mem_hierarchy.2 ?_, hsame'⟩
  rcases hname.of_class?_eq (class?_of_key_eq hkey) hname' with rfl | hreach
  · exact ⟨name, hname, class?_of_key_eq hkey ▸ hclass'⟩
  · exact ⟨name', hreach, hclass'⟩

/-- Walks end, and look at the first 256 names breadth first.  Where no more can be reached, a class is a
subclass of all that can be reached, and members are found in the first class that has them. -/
theorem hierarchy_lookups (hbuilt : index.Built) (start : String) :
    index.Ends ⟨[], [start], []⟩ (index.hierarchy start) ∧
    (∀ n ≥ 256, index.hierarchy start =
      ((index.breadthFirst start n).take 256).filterMap index.class?) ∧
    (index.Plain → index.Few start →
      (∀ ancestor, index.isSubclass start ancestor = true ↔ ∃ name info, index.Reaches start name ∧
        index.class? name = some info ∧ Name.same info.name ancestor = true) ∧
      ((index.class? start).isSome = true → index.isSubclass start start = true) ∧
      (∀ middle last, index.isSubclass start middle = true → index.isSubclass middle last = true →
        index.isSubclass start last = true) ∧
      ∀ member,
        index.FoundFirst start (·.ownMethod? member) (index.method? start member) ∧
        index.FoundFirst start (·.properties.get? member) (index.property? start member) ∧
        index.FoundFirst start (·.constants.get? member) (index.classConstant? start member)) := by
  refine ⟨ends_hierarchy, fun n hn => hierarchy_eq_take hn, fun hplain hfew => ⟨fun ancestor => ?_,
    isSubclass_self hbuilt hplain, fun _ _ => isSubclass_trans hbuilt hplain hfew, fun member =>
    ⟨hfew.foundFirst _, hfew.foundFirst _, hfew.foundFirst _⟩⟩⟩
  rw [hplain.isSubclass_iff]
  simp only [hfew.mem_hierarchy]
  grind

lemma few_of_closed (names : List String) (hlength : names.length ≤ 256)
    (hstart : foldCase start ∈ names)
    (hclosed : ∀ name ∈ names, ∀ base ∈ index.foldedBasesOf name, base ∈ names) : index.Few start := by
  refine ⟨names, hlength, fun name hname => ?_⟩
  induction hname with
  | refl => exact hstart
  | @base name base info _ hinfo hbase ih =>
    refine hclosed _ ih _ ?_
    rw [foldedBasesOf, basesOf, class?_foldCase, hinfo]
    exact mem_map_of_mem hbase

/-- Two classes that extend each other, with a trait, an interface and a name that nothing declares. -/
def circle : List Declaration :=
  [.cls { name := "A", parent := some "\\b", traits := ["T"], interfaces := ["Missing"] },
    .cls (ClassInfo.addConstant { name := "B", parent := some "A", interfaces := ["I"] }
      { name := "LIMIT", type := some .int }),
    .cls { name := "T" }, .cls { name := "I", kind := .interface }]

theorem hierarchy_lookups_circle :
    (Index.addAll {} circle).Plain ∧ (Index.addAll {} circle).Few "a" ∧
    (Index.addAll {} circle).isSubclass "a" "\\I" = true ∧
    ((Index.addAll {} circle).classConstant? "a" "LIMIT").isSome = true := by
  have hplain : (Index.addAll {} circle).Plain := by
    intro name info h
    have := (mem_of_class?_addAll h).1
    simp only [circle, List.mem_cons, Declaration.cls.injEq, List.not_mem_nil, or_false] at this
    rcases this with rfl | rfl | rfl | rfl <;> rfl
  have hfew : (Index.addAll {} circle).Few "a" :=
    few_of_closed ["a", "t", "\\b", "missing", "i"] (by decide) (by decide) (by decide)
  obtain ⟨hsubclass, -, htrans, hmembers⟩ := (hierarchy_lookups ⟨circle, rfl⟩ "a").2.2 hplain hfew
  have hb : (Index.addAll {} circle).Reaches "a" "\\b" := Reaches.refl.base rfl (by decide)
  have hi : (Index.addAll {} circle).Reaches "a" "I" := hb.base rfl (by decide)
  refine ⟨hplain, hfew, (hsubclass "\\I").2 ⟨"I", _, hi, rfl, rfl⟩, ?_⟩
  exact (hmembers "LIMIT").2.2.isSome.2 ⟨"\\b", _, hb, rfl, rfl⟩

/-! ## Repetitions -/

/-- The names, in lower case, that a walk from `start` looks at. -/
def lookedAt (index : Index) (start : String) : List String :=
  (index.breadthFirst start 256).take 256

/-- A walk visits no declaration twice just when it looks at no class under two spellings that differ by
more than case. -/
theorem nodup_hierarchy_iff (hbuilt : index.Built) (start : String) :
    (index.hierarchy start).Nodup ↔ ∀ a ∈ index.lookedAt start, ∀ b ∈ index.lookedAt start,
      (index.class? a).isSome = true → Name.key a = Name.key b → a = b := by
  have hnodup : (index.lookedAt start).Nodup := nodup_breadthFirst.sublist (List.take_sublist ..)
  rw [hierarchy_eq_take (Nat.le_refl _), List.Nodup, List.pairwise_filterMap]
  constructor
  · intro h a ha b hb hsome hkey
    by_contra hne
    obtain ⟨info, hinfo⟩ := Option.isSome_iff_exists.1 hsome
    have : Std.Symm fun a b => ∀ info, index.class? a = some info →
        ∀ info', index.class? b = some info' → info ≠ info' :=
      ⟨fun _ _ h info hinfo info' hinfo' => (h info' hinfo' info hinfo).symm⟩
    exact h.forall ha hb hne info hinfo info (class?_of_key_eq hkey ▸ hinfo) rfl
  · intro h
    refine hnodup.pairwise_of_forall_ne fun a ha b hb hne info hinfo info' hinfo' => ?_
    rintro rfl
    refine hne (h a ha b hb (Option.isSome_iff_exists.2 ⟨_, hinfo⟩) ?_)
    rw [← hbuilt.key_eq hinfo, hbuilt.key_eq hinfo']

/-- In the circle each class is written in one way up to case. -/
theorem nodup_hierarchy_iff_circle : ((Index.addAll {} circle).hierarchy "a").Nodup :=
  (nodup_hierarchy_iff ⟨circle, rfl⟩ "a").2 (by decide +kernel)

/-- A class whose parent and interface are one class, written with and without a separator in front. -/
def twice : List Declaration :=
  [.cls { name := "B" }, .cls { name := "A", parent := some "\\B", interfaces := ["B"] }]

theorem class_visited_twice :
    ((Index.addAll {} twice).hierarchy "A").map (·.name) = ["A", "B", "B"] ∧
      ¬ ((Index.addAll {} twice).hierarchy "A").Nodup := by
  obtain ⟨a, b, hwalk⟩ : ∃ a b, (Index.addAll {} twice).hierarchy "A" = [a, b, b] := ⟨_, _, rfl⟩
  refine ⟨rfl, fun hnodup => ?_⟩
  rw [hwalk] at hnodup
  simp at hnodup

end FlowTyping.Index

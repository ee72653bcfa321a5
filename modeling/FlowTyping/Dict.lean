/-!
# Dictionaries

Finite maps from names to values that keep the order in which names were first added.  The order is
part of the value: scopes list their variables by it.

* `Dict.get?`, `Dict.contains`, `Dict.keys`: the views.
* `Dict.erase`, `Dict.filter`, `Dict.filterMap`: fewer names, in the same order.
-/

namespace FlowTyping

/-- A map from names to values, in the order of first insertion. -/
structure Dict (α : Type) where
  entries : List (String × α) := []
  deriving Inhabited

namespace Dict

variable {α β : Type}

def empty : Dict α := ⟨[]⟩

def find (name : String) : List (String × α) → Option α
  | [] => none
  | (key, value) :: rest => if key == name then some value else find name rest

def get? (d : Dict α) (name : String) : Option α :=
  find name d.entries

def contains (d : Dict α) (name : String) : Bool :=
  (d.get? name).isSome

def put (name : String) (value : α) : List (String × α) → List (String × α)
  | [] => [(name, value)]
  | (key, old) :: rest =>
    if key == name then (key, value) :: rest else (key, old) :: put name value rest

/-- Puts `value` under `name`; a new name comes last. -/
def insert (d : Dict α) (name : String) (value : α) : Dict α :=
  ⟨put name value d.entries⟩

def erase (d : Dict α) (name : String) : Dict α :=
  ⟨d.entries.filter fun (key, _) => key != name⟩

def filter (p : String → α → Bool) (d : Dict α) : Dict α :=
  ⟨d.entries.filter fun (key, value) => p key value⟩

def filterMap (f : String → α → Option β) (d : Dict α) : Dict β :=
  ⟨d.entries.filterMap fun (key, value) => (f key value).map (key, ·)⟩

def keys (d : Dict α) : List String :=
  d.entries.map Prod.fst

def values (d : Dict α) : List α :=
  d.entries.map Prod.snd

def size (d : Dict α) : Nat :=
  d.entries.length

def isEmpty (d : Dict α) : Bool :=
  d.entries.isEmpty

@[simp]
theorem get?_empty (name : String) : (empty : Dict α).get? name = none := rfl

theorem find_put_self (name : String) (value : α) (entries : List (String × α)) :
    find name (put name value entries) = some value := by
  induction entries with
  | nil => simp [put, find]
  | cons entry rest ih =>
    obtain ⟨key, old⟩ := entry
    by_cases h : key = name <;> simp [put, find, h, ih]

theorem find_put_of_ne {name other : String} (h : name ≠ other) (value : α)
    (entries : List (String × α)) :
    find other (put name value entries) = find other entries := by
  induction entries with
  | nil => simp [put, find, h]
  | cons entry rest ih =>
    obtain ⟨key, old⟩ := entry
    by_cases hk : key = name
    · simp [put, find, hk, h]
    · simp [put, find, hk, ih]

@[simp]
theorem get?_insert_self (d : Dict α) (name : String) (value : α) :
    (d.insert name value).get? name = some value :=
  find_put_self name value d.entries

theorem get?_insert_of_ne {name other : String} (h : name ≠ other) (d : Dict α) (value : α) :
    (d.insert name value).get? other = d.get? other :=
  find_put_of_ne h value d.entries

end Dict

end FlowTyping

import FlowTyping.Ast.Node

/-!
# Variables and their store

A variable is what a scope knows about one name: its type and how it was used.  Two scopes may hold
one variable between them, when a closure captures it by reference, so scopes refer to variables by
slots of a store that is passed along.

* `Variable`: type, usage marks, line and kind of a variable.
* `Store`: the variables of all scopes, by slot.
* `Store.read`, `Store.update`, `Store.alloc`: looking at, changing and adding variables.
-/

namespace FlowTyping

/-- How a variable entered its scope. -/
inductive VarKind where
  | ordinary
  | param
  | global
  | static
  | captured
  | superglobal
  | this
  deriving DecidableEq, Repr, Inhabited

structure Variable where
  name : String
  type : Option Ty := none
  used : Bool := false
  written : Bool := false
  /-- The line of the last write, or of the declaration. -/
  line : Line
  typeChanged : Bool := false
  kind : VarKind := .ordinary
  byReference : Bool := false
  deriving Inhabited

abbrev Slot := Nat

structure Store where
  cells : Array Variable := #[]
  deriving Inhabited

namespace Store

def read (σ : Store) (slot : Slot) : Variable :=
  σ.cells.getD slot default

def update (σ : Store) (slot : Slot) (f : Variable → Variable) : Store :=
  ⟨σ.cells.modify slot f⟩

def write (σ : Store) (slot : Slot) (v : Variable) : Store :=
  ⟨σ.cells.setIfInBounds slot v⟩

def alloc (σ : Store) (v : Variable) : Slot × Store :=
  (σ.cells.size, ⟨σ.cells.push v⟩)

def size (σ : Store) : Nat :=
  σ.cells.size

theorem read_alloc (σ : Store) (v : Variable) : (σ.alloc v).2.read (σ.alloc v).1 = v := by
  simp [alloc, read]

theorem read_alloc_of_lt {σ : Store} {slot : Slot} (h : slot < σ.size) (v : Variable) :
    (σ.alloc v).2.read slot = σ.read slot := by
  simp [alloc, read, size] at *
  simp [Array.getElem?_push, Nat.ne_of_lt h]

theorem read_update_self {σ : Store} {slot : Slot} (h : slot < σ.size)
    (f : Variable → Variable) : (σ.update slot f).read slot = f (σ.read slot) := by
  simp [update, read, size] at *
  simp [h, Array.getElem_modify]

theorem read_update_of_ne {slot other : Slot} (h : slot ≠ other) (σ : Store)
    (f : Variable → Variable) : (σ.update slot f).read other = σ.read other := by
  simp [update, read, Array.getElem?_modify, h]

end Store

end FlowTyping

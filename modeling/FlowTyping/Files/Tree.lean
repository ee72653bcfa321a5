import FlowTyping.Files.Path

/-!
# File systems

What the program needs to know of files is three questions, asked of a path.  The program is written
against any way of answering them, so that it runs on the files of a machine and on a tree in memory
alike.
-/

namespace FlowTyping

inductive FileKind where
  | file
  | directory
  deriving DecidableEq, Repr

/-- Answers about files. -/
structure FileSystem (m : Type → Type) where
  /-- What a path leads to; none where there is nothing. -/
  kindOf : String → m (Option FileKind)
  entries : String → m (List String)
  /-- The text of a file; none where it cannot be read or is not a text. -/
  read : String → m (Option String)
  nesting : Nat

/-- Files and directories in memory. -/
inductive FileTree where
  /-- A file; without a text where its bytes are none. -/
  | file (text : Option String)
  | directory (entries : List (String × FileTree))
  deriving Inhabited

namespace FileTree

def entry? (name : String) : FileTree → Option FileTree
  | .file _ => none
  | .directory entries => entries.lookup name

def isDirectory : FileTree → Bool
  | .file _ => false
  | .directory _ => true

/-- Follows pieces of a path; `above` are the directories around, innermost first. -/
def follow (above : List FileTree) (tree : FileTree) : List String → Option FileTree
  | [] => some tree
  | piece :: pieces =>
    if !tree.isDirectory then none
    else if piece == "" || piece == "." then follow above tree pieces
    else if piece == ".." then
      match above with
      | [] => follow [] tree pieces
      | parent :: above => follow above parent pieces
    else
      match tree.entry? piece with
      | some child => follow (tree :: above) child pieces
      | none => none

/-- What a path from the root of the tree leads to. -/
def at? (root : FileTree) (path : String) : Option FileTree :=
  root.follow [] (Path.pieces path)

mutual
/-- The number of directories nested in one another. -/
def depth : FileTree → Nat
  | .file _ => 0
  | .directory entries => depthOfAll entries + 1
def depthOfAll : List (String × FileTree) → Nat
  | [] => 0
  | (_, tree) :: entries => max tree.depth (depthOfAll entries)
end

/-- Puts a tree under a name, in the place of what is there. -/
def setEntry (name : String) (tree : FileTree) :
    List (String × FileTree) → List (String × FileTree)
  | [] => [(name, tree)]
  | (n, old) :: entries =>
    if n == name then (n, tree) :: entries else (n, old) :: setEntry name tree entries

/-- Puts `leaf` at the end of a path below a directory, with the directories on the way. -/
def insert (root leaf : FileTree) : List String → FileTree
  | [] => leaf
  | name :: names =>
    match root with
    | .file text => .file text
    | .directory entries =>
      let child := (entries.lookup name).getD (.directory [])
      .directory (setEntry name (child.insert leaf names) entries)

/-- Puts `leaf` at a path from the root, with the directories on the way. -/
def put (root : FileTree) (path : String) (leaf : FileTree) : FileTree :=
  root.insert leaf ((Path.components path).filterMap fun
    | .entry name => some name
    | _ => none)

def system (root : FileTree) : FileSystem Id where
  kindOf path := match root.at? path with
    | some (.file _) => some .file
    | some (.directory _) => some .directory
    | none => none
  entries path := match root.at? path with
    | some (.directory entries) => entries.map Prod.fst
    | _ => []
  read path := match root.at? path with
    | some (.file text) => text
    | _ => none
  nesting := root.depth

end FileTree

namespace FileSystem

variable {m : Type → Type} [Monad m]

/-- The files below a directory whose names satisfy `wanted`.  Directories called as one of `skipped`
are left out; `budget` directories may be nested. -/
def filesBelowUpTo (fs : FileSystem m) (wanted : String → Bool) (skipped : List String) :
    (budget : Nat) → (directory : String) → m (List String)
  | 0, _ => pure []
  | budget + 1, directory => do
    let names ← fs.entries directory
    let found ← names.mapM fun name => do
      let path := Path.join directory name
      match ← fs.kindOf path with
      | some .file => pure (if wanted name then [path] else [])
      | some .directory =>
        if skipped.contains name then pure []
        else filesBelowUpTo fs wanted skipped budget path
      | none => pure []
    return found.flatten

/-- The files below a directory whose names satisfy `wanted`, except in directories called as one of
`skipped`. -/
def filesBelow (fs : FileSystem m) (wanted : String → Bool) (skipped : List String)
    (directory : String) : m (List String) :=
  fs.filesBelowUpTo wanted skipped fs.nesting directory

end FileSystem

end FlowTyping

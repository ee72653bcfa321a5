import FlowTyping.Text.Blank

/-!
# Paths

A path is kept as the text it was given as, because that is how it is shown.  What it means is in its
components: repeated separators and `.` mean nothing, so paths are compared by their components.

* `Path.components`, `Path.compare`: the order of paths.
-/

namespace FlowTyping

inductive Component where
  | root
  /-- The current directory, at the start of a relative path. -/
  | current
  | up
  | entry (name : String)
  deriving DecidableEq, Repr

/-- The place of a kind of component in the order. -/
def Component.rank : Component → Nat
  | .root => 0
  | .current => 1
  | .up => 2
  | .entry _ => 3

/-- The root comes first, then the current directory, the directory above, and entries by name. -/
def Component.compare : Component → Component → Ordering
  | .entry a, .entry b => compareOfLessAndEq a b
  | a, b => compareOfLessAndEq a.rank b.rank

namespace Path

def pieces (path : String) : List String :=
  (Text.splitOn '/' path.toList).map String.ofList

def isAbsolute (path : String) : Bool :=
  path.toList.head? == some '/'

/-- The component that a piece stands for, where it is not the first one. -/
def component? (piece : String) : Option Component :=
  if piece == "" || piece == "." then none
  else if piece == ".." then some .up
  else some (.entry piece)

def components (path : String) : List Component :=
  let body := (pieces path).filterMap component?
  if isAbsolute path then .root :: body
  else if (pieces path).head? == some "." then .current :: body
  else body

def compareComponents : List Component → List Component → Ordering
  | [], [] => .eq
  | [], _ :: _ => .lt
  | _ :: _, [] => .gt
  | a :: as, b :: bs => (a.compare b).then (compareComponents as bs)

def compare (a b : String) : Ordering :=
  compareComponents (components a) (components b)

/-- Whether `a` comes before `b`, or is as good as `b`. -/
def precedes (a b : String) : Bool :=
  (compare a b).isLE

def same (a b : String) : Bool :=
  compare a b == .eq

/-- The path `path` as seen from the directory `base`. -/
def join (base path : String) : String :=
  if isAbsolute path || base.isEmpty then path
  else if base.toList.getLast? == some '/' then base ++ path
  else base ++ "/" ++ path

/-- The text `cs`, the end of a path read backwards, without separators and `.` pieces in front; a
separator that is left at the very end is the root and stays. -/
def trimBackwards : List Char → List Char
  | ['/'] => ['/']
  | ['.', '/'] => ['/']
  | '/' :: cs => trimBackwards cs
  | '.' :: '/' :: cs => trimBackwards ('/' :: cs)
  | cs => cs

/-- The directory that holds the last entry of a path. -/
def parent (path : String) : String :=
  let upToName := path.toList.reverse.dropWhile (· != '/')
  String.ofList (trimBackwards upToName).reverse

/-- A path from the root without detours: each `..` takes back the entry before it. -/
def straight (path : String) : String :=
  let names := (components path).foldl (fun names c =>
    match c with
    | .entry name => name :: names
    | .up => names.tail
    | _ => names) []
  "/" ++ "/".intercalate names.reverse

/-- Drops each path that is as good as the one kept before it; `last` is that one. -/
def dedupAfter (last : Option String) : List String → List String
  | [] => []
  | path :: paths =>
    if last.any (same path) then dedupAfter last paths
    else path :: dedupAfter (some path) paths

/-- The paths in order, without repetitions; of equal paths the first one stays. -/
def sortDistinct (paths : List String) : List String :=
  dedupAfter none (paths.mergeSort precedes)

end Path

end FlowTyping

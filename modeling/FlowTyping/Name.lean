import FlowTyping.Text.Blank

/-!
# Symbol names

Names of classes and functions are compared without regard to ASCII case and to the namespace
separators in front: `\Foo`, `foo` and `FOO` name one symbol.  Names of constants keep their case,
names of variables are taken as they are.
-/

namespace FlowTyping.Name

/-- `name` without the namespace separators in front. -/
def unqualified (name : String) : String :=
  String.ofList (name.toList.dropWhile (· == '\\'))

/-- `name` in lower case; letters outside ASCII stay as they are. -/
def foldCase (name : String) : String :=
  String.ofList (name.toList.map Char.toLower)

/-- The spelling under which a symbol is stored: no separators in front, lower case. -/
def key (name : String) : String :=
  foldCase (unqualified name)

def same (a b : String) : Bool :=
  key a == key b

/-- Whether two words differ in ASCII case at most. -/
def sameWord (a b : String) : Bool :=
  foldCase a == foldCase b

/-- `name` without one namespace separator in front. -/
def dropSeparator (name : String) : String :=
  match name.toList with
  | '\\' :: rest => String.ofList rest
  | _ => name

def startsWith (pre name : String) : Bool :=
  pre.toList.isPrefixOf name.toList

def superglobals : List String :=
  ["GLOBALS", "_GET", "_POST", "_REQUEST", "_SERVER", "_SESSION", "_COOKIE", "_FILES", "_ENV"]

/-- Whether `name`, written without its `$`, is a variable that exists in every scope. -/
def isSuperglobal (name : String) : Bool :=
  superglobals.contains name

end FlowTyping.Name

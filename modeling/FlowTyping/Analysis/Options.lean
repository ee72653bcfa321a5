/-!
# Options of the analysis
-/

namespace FlowTyping

structure Options where
  strictTypes : Bool := false
  narrowLooseNull : Bool := true
  /-- Let a read inside a closure count as a read of the captured variable. -/
  propagateClosureUsage : Bool := true
  /-- Expressions nested deeper than this are not looked at. -/
  maxDepth : UInt32 := 500
  /-- The checks that are on; all of them when the list is empty. -/
  checks : List String := []
  /-- Variables that exist in every scope, besides those of the language. -/
  superglobals : List String := []
  deriving DecidableEq, Repr, Inhabited

def Options.isEnabled (options : Options) (check : String) : Bool :=
  options.checks.isEmpty || options.checks.contains check

end FlowTyping

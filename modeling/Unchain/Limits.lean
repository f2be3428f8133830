/-!
# Limits

Bounds on nesting, chain length and name search. A walk that would pass one of them stops and
leaves the code as written, so an input of any size has an answer.
-/

namespace Unchain.Limits

/-- Nesting of statements, expressions and types that the grammar accepts. -/
def grammarDepth : Nat := 1000

/-- Nesting that a walk over a tree follows. -/
def treeDepth : Nat := 1000

/-- Links followed when a single chain is unwound. -/
def chainLinks : Nat := 500

/-- Nesting of handler bodies that hold chains of their own. -/
def handlerNesting : Nat := 64

/-- Largest numeric suffix tried to make a name free. -/
def nameSuffix : Nat := 10000

end Unchain.Limits

/-!
# Names of promises

The names that mean a promise although the file does not declare them.
-/

namespace Unchain.Promise

/-- Names that stand for promises and for functions that give them. -/
structure Names where
  /-- Functions that give a promise when called, unless the file declares them. -/
  globals : List String := ["fetch"]
  /-- Methods that give a promise on any receiver. -/
  members : List String := ["json", "text", "blob", "arrayBuffer", "formData"]
  /-- Types of promises. -/
  types : List String := ["Promise", "PromiseLike"]
  deriving DecidableEq, Repr, Inhabited

/-- Functions of the promise class itself that give a promise. -/
def Names.statics : List String := ["all", "allSettled", "any", "race", "reject", "resolve"]

/-- The methods by which a promise is chained. -/
def Names.links : List String := ["then", "catch", "finally"]

end Unchain.Promise

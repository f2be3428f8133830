import Unchain.Chain.Root
import Unchain.Naming.Register

/-!
# Handlers and their bindings

Where a handler reads its argument from, and all handlers that are converted along with a chain:
those of its links, and those of the chains in the bodies of handlers that are written in place.
-/

namespace Unchain.Naming

open Binding (SymbolId)
open Chain (Handler Link)
open Promise (Oracle)
open Syntax (Data NodeId Tree)

/-- What a handler is there for. -/
inductive Role where
  /-- To go on with a value. -/
  | fulfillment
  /-- To go on after a rejection. -/
  | rejection
  deriving DecidableEq, Repr, Inhabited

/-- A handler of a chain. -/
structure Site where
  handler : Handler
  role : Role
  deriving DecidableEq, Repr, Inhabited

section

variable (t : Tree) (b : Binding.Table)

/-- The parameter of a function that takes at most one plain parameter. The inner answer is absent
if there is no parameter, or one called `_` that nobody reads. -/
def plainParameter? (function : NodeId) : Option (Option SymbolId) :=
  match t.data? function with
  | some (.function _ { parameters := ⟨[], _, _, _⟩, .. }) => some none
  | some (.function _ { parameters := ⟨[parameter], _, _, _⟩, .. }) =>
    match t.data? parameter with
    | some (.parameter { name := some name, isRest := false, initializer := none, .. }) =>
      if t.isIdentifier name then do
        let id ← b.symbolAt? name
        let symbol ← b.symbol? id
        if symbol.name = "_" ∧ (b.referencesOf id).isEmpty then some none else some (some id)
      else none
    | _ => none
  | _ => none

/-- The binding that a handler reads a value from. The inner answer is absent if the handler does
not read it; there is no answer if the handler cannot be converted. -/
def valueKey? : Handler → Option (Option Key)
  | .absent => some none
  | .unsupported _ => none
  | .named id => some (some (.minted id))
  | .literal function => (plainParameter? t b function).map (·.map .parameter)

/-- The binding that a handler reads a reason for rejection from. -/
def reasonKey? : Handler → Option Key
  | .absent | .unsupported _ => none
  | .named id => some (.minted id)
  | .literal function =>
    (plainParameter? t b function).map fun symbol => (symbol.map .parameter).getD (.minted function)

/-- The binding that a handler reads its argument from. -/
def siteKey? (site : Site) : Option Key :=
  match site.role with
  | .fulfillment => (valueKey? t b site.handler).join
  | .rejection => reasonKey? t b site.handler

end

section

variable (t : Tree) (o : Oracle)

/-- The handlers of a link that are not absent. -/
def sitesOfLink (link : Link) : List Site :=
  let (onFulfilled, onRejected) := link.handlers
  [(⟨Chain.handlerOf t o onFulfilled, .fulfillment⟩ : Site),
    ⟨Chain.handlerOf t o onRejected, .rejection⟩].filter (!·.handler.isAbsent)

/-- The chains that are converted along with a handler. -/
def chainsOfHandler : Handler → List NodeId
  | .literal function => Chain.handlerChains t o function
  | _ => []

/-- The handlers that are converted along with a chain, down to a depth of nesting. -/
def sitesUpTo : Nat → NodeId → List Site
  | 0, _ => []
  | depth + 1, e =>
    (Chain.spine t o (some e)).flatMap fun (_, link) =>
      (sitesOfLink t o link).flatMap fun site =>
        site :: (chainsOfHandler t o site.handler).flatMap (sitesUpTo depth)

/-- The handlers that are converted along with a chain. -/
def sitesOf (e : NodeId) : List Site := sitesUpTo t o (Limits.handlerNesting + 1) e

end

end Unchain.Naming

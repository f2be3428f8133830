import Unchain.Unroll.Handler

/-!
# Unrolling links

What becomes of the links of a chain. The receiver of a link comes first; a `then` is followed by
its handler's statements, a handler for rejections becomes the `catch` of a `try` around the
receiver. A link that cannot be converted is kept as written and awaited, so `unroll` has an
answer for every expression.
-/

namespace Unchain.Unroll

open Chain (Handler)
open Naming (Key)
open Syntax (NodeId)

/-- The sink of a link. -/
def sinkOf (link : Option NodeId) (outlet : Outlet) : Step Sink := do
  return outlet.sink (link.any (← get).successors.has)

/-- The link as written. -/
def keepLink (c : Context) (e : Option NodeId) (outlet : Outlet) : Step (List NodeId) := do
  let e := (← get).tree.skipParentheses e
  write c e (← sinkOf e outlet) true

/-- `receiver.catch(handler)`. -/
def unrollCatch (unroll : Unroller) (c : Context) (callee : NodeId) (handler : Handler)
    (outlet : Outlet) (sink : Sink) : Attempt (List NodeId) := do
  let reason ← orFail (Naming.reasonKey? (← get).tree c.bindings handler)
  let hoisted ← hoist sink
  let tried ← unroll { c with inTry := true } (some callee) outlet
  let handled ← unrollHandler unroll c handler (some reason) sink
  return hoisted ++ [← makeTry tried handled reason]

/-- `receiver.then(handler)`. -/
def unrollThen (unroll : Unroller) (c : Context) (callee : NodeId) (handler : Handler)
    (outlet : Outlet) (sink : Sink) : Attempt (List NodeId) := do
  let argument ← orFail (Naming.valueKey? (← get).tree c.bindings handler)
  let before ← unroll c (some callee) { outlet with argument }
  return before ++ (← unrollHandler unroll c handler argument sink)

/-- `receiver.then(handler, onRejected)`. -/
def unrollBoth (unroll : Unroller) (c : Context) (callee : NodeId) (handler onRejected : Handler)
    (outlet : Outlet) (sink : Sink) : Attempt (List NodeId) := do
  let t := (← get).tree
  let argument ← orFail (Naming.valueKey? t c.bindings handler)
  let reason ← orFail (Naming.reasonKey? t c.bindings onRejected)
  let hoisted ← hoist sink
  let inside := { c with inTry := true }
  let before ← unroll inside (some callee) { outlet with argument }
  let after ← unrollHandler unroll inside handler argument sink
  let handled ← unrollHandler unroll c onRejected (some reason) sink
  return hoisted ++ [← makeTry (before ++ after) handled reason]

/-- Unrolls the outermost link of a chain, and by `unroll` the rest of it. -/
def unrollLink (unroll : Unroller) (c : Context) (e : Option NodeId) (outlet : Outlet) :
    Attempt (List NodeId) := do
  let t := (← get).tree
  let e := t.skipParentheses e
  let sink ← sinkOf e outlet
  match Chain.linkOf t c.oracle e with
  | .thenCall callee _ onFulfilled onRejected =>
    match Chain.handlerOf t c.oracle onFulfilled, Chain.handlerOf t c.oracle onRejected with
    | .absent, .absent => unroll c (some callee) outlet
    | .absent, handler => unrollCatch unroll c callee handler outlet sink
    | handler, .absent => unrollThen unroll c callee handler outlet sink
    | handler, onRejected => unrollBoth unroll c callee handler onRejected outlet sink
  | .catchCall callee _ onRejected =>
    unrollCatch unroll c callee (Chain.handlerOf t c.oracle (some onRejected)) outlet sink
  | .member receiver => unroll c receiver outlet
  | .finallyCall _ => failure
  | .promise => write c e sink true
  | .other => write c e sink false

/-- Turns a chain into statements, following up to `depth` links and accesses inwards. -/
def unroll : Nat → Unroller
  | 0, c, e, outlet => keepLink c e outlet
  | depth + 1, c, e, outlet => do
    match ← attempt (unrollLink (unroll depth) c e outlet) with
    | some statements => return statements
    | none => keepLink c e outlet

/-- What a whole chain became. -/
structure Unrolled where
  statements : List NodeId
  /-- The outermost link is as written. -/
  isVerbatim : Bool
  deriving DecidableEq, Repr, Inhabited

/-- Turns a chain whose links are marked into statements that bring its value to a sink. -/
def unrollChain (c : Context) (e : NodeId) (sink : Sink) : Step Unrolled := do
  let outlet : Outlet := { final := sink }
  let inner := unroll (Limits.chainLinks - 1)
  match ← attempt (unrollLink inner c (some e) outlet) with
  | some statements => return ⟨statements, false⟩
  | none => return ⟨← keepLink c (some e) outlet, true⟩

end Unchain.Unroll

import Unchain.Limits
import Unchain.Promise.Oracle

/-!
# Promise chains

A chain is an expression such as `f().then(a).catch(b)`. Its outermost link is the last call; each
link is called on the link before it, its receiver, down to a leaf that is no link. `spine` lists
the links from the outermost inwards.

A chain may hold nodes that were made for it. Questions to the oracle are therefore asked about
the nodes that they were made from.
-/

namespace Unchain.Chain

open Promise (Oracle)
open Syntax (Data NodeId Tree)

/-- What an expression is as a part of a chain. -/
inductive Link where
  /-- `receiver.then(onFulfilled, onRejected)`. -/
  | thenCall (callee receiver : NodeId) (onFulfilled onRejected : Option NodeId)
  /-- `receiver.catch(onRejected)`. -/
  | catchCall (callee receiver : NodeId) (onRejected : NodeId)
  /-- `receiver.finally(…)`, which is always kept as written. -/
  | finallyCall (receiver : NodeId)
  /-- An expression that gives a promise and is no link. -/
  | promise
  /-- An access to a member, which stands between a link and its receiver. -/
  | member (receiver : Option NodeId)
  | other
  deriving DecidableEq, Repr, Inhabited

namespace Link

/-- The expression that a link continues. -/
def receiver? : Link → Option (Option NodeId)
  | thenCall _ receiver _ _ | catchCall _ receiver _ | finallyCall receiver =>
    some (some receiver)
  | member receiver => some receiver
  | promise | other => none

/-- A call of `then` or `catch`. -/
def isConvertible : Link → Bool
  | thenCall .. | catchCall .. => true
  | _ => false

/-- The handlers of a link, absent ones included: what to do with a value, and what to do with a
reason for rejection. -/
def handlers : Link → Option NodeId × Option NodeId
  | thenCall _ _ onFulfilled onRejected => (onFulfilled, onRejected)
  | catchCall _ _ onRejected => (none, some onRejected)
  | _ => (none, none)

end Link

/-- What a handler of a link is. -/
inductive Handler where
  /-- No handler: nothing, `null` or `undefined`. -/
  | absent
  /-- A function written in place. -/
  | literal (function : NodeId)
  /-- A function passed by its name. -/
  | named (name : NodeId)
  /-- Anything else. -/
  | unsupported (expression : NodeId)
  deriving DecidableEq, Repr, Inhabited

namespace Handler

/-- Whether there is no handler. -/
def isAbsent : Handler → Bool
  | absent => true
  | _ => false

/-- The expression that stands for the handler. -/
def node? : Handler → Option NodeId
  | absent => none
  | literal id | named id | unsupported id => some id

end Handler

section

variable (t : Tree) (o : Oracle)

/-- Whether an expression gives a promise. -/
def isPromise (id : Option NodeId) : Bool := id.any fun id => o.isPromise (t.originOf id)

/-- The link that a call is by the name of its method, if it has the arguments of one. A spread
may hide any number of arguments. -/
def linkOfMethod (callee receiver : NodeId) (method : String) (arguments : List NodeId) : Link :=
  let isSpread (id : NodeId) : Bool :=
    match t.data? id with
    | some (.unary .spread _) => true
    | _ => false
  if arguments.any isSpread then .promise
  else
    match method, arguments with
    | "then", [] => .thenCall callee receiver none none
    | "then", [a] => .thenCall callee receiver (some a) none
    | "then", [a, b] => .thenCall callee receiver (some a) (some b)
    | "catch", [a] => .catchCall callee receiver a
    | "finally", _ => .finallyCall receiver
    | _, _ => .promise

/-- The link that a call with this callee and these arguments is; none if it calls no method of a
promise, or calls it by `?.`. -/
def methodLink? (callee : Option NodeId) (arguments : List NodeId) : Option Link :=
  match t.skipParentheses callee, t.partData? (t.skipParentheses callee) with
  | some callee, some (.access .property receiver name false) => do
    let method ← t.identifierText? name
    let receiver ← receiver
    if Promise.Names.links.contains method && isPromise t o (some receiver) then
      some (linkOfMethod t callee receiver method arguments)
    else none
  | _, _ => none

/-- What an expression without parentheses around it is as a part of a chain. -/
def linkOf (id : Option NodeId) : Link :=
  let plain : Link := if isPromise t o id then .promise else .other
  match t.partData? id with
  | some (.call .call callee _ arguments) =>
    (methodLink? t o callee (Data.listNodes arguments)).getD plain
  | some (.access .property receiver _ _) => if isPromise t o id then plain else .member receiver
  | _ => plain

/-- What an argument of a link is as a handler. -/
def handlerOf (argument : Option NodeId) : Handler :=
  match t.skipParentheses argument with
  | none => .absent
  | some id =>
    match t.data? id with
    | none | some (.token .nullKeyword) => .absent
    | some (.function .arrow f) | some (.function .expression f) =>
      if f.isGenerator then .unsupported id else .literal id
    | some (.identifier text) =>
      if text = "undefined" ∧ (o.symbolAt? (t.originOf id)).isNone then .absent else .named id
    | some _ => .unsupported id

/-- Up to `limit` links of a chain, the outermost first, without parentheses around them. -/
def spineUpTo : Nat → Option NodeId → List (Option NodeId × Link)
  | 0, _ => []
  | limit + 1, e =>
    let id := t.skipParentheses e
    let link := linkOf t o id
    (id, link) :: (link.receiver?.map (spineUpTo limit)).getD []

/-- The links of a chain, the outermost first. The last one is the leaf, unless the chain is
longer than the limit. -/
def spine (e : Option NodeId) : List (Option NodeId × Link) := spineUpTo t o Limits.chainLinks e

/-- Whether an expression is a call of `then` or `catch` on a promise. -/
def isChain (e : Option NodeId) : Bool := (linkOf t o (t.skipParentheses e)).isConvertible

/-- The innermost expression of a chain. -/
def leaf (e : Option NodeId) : Option NodeId := ((spine t o e).getLast?.map Prod.fst).getD e

end

end Unchain.Chain

import Unchain.Unroll.Write

/-!
# Unrolling handlers

What becomes of a handler: a call of a function that is passed by name, or the statements of a
function that is written in place. Chains at the top of its body are unrolled in turn, by the
function `unroll` that the steps here take.

A function in place cannot be inlined if it is async, if it has a `this` of its own and uses it,
or if it returns from inside a statement although its value is not what the function returns.
-/

namespace Unchain.Unroll

open Chain (Handler)
open Naming (Key)
open Syntax (Data Node NodeId Tree)

/-- Turns a chain into statements. -/
abbrev Unroller := Context → Option NodeId → Outlet → Step (List NodeId)

/-- Whether a node is a return. -/
def isReturn (node : Node) : Bool :=
  match node.data with
  | .leave .returns _ => true
  | _ => false

/-- The returns below a statement that leave the function it stands in. -/
def returnsBelow (t : Tree) (statement : NodeId) : List NodeId :=
  (t.scopeNodes (!isReturn ·) statement).filter fun id => (t.node? id).any isReturn

/-- Whether a statement can leave the function that it stands in. -/
def containsReturn (t : Tree) (statement : NodeId) : Bool :=
  !t.isFunction statement && !t.isClass statement && !(returnsBelow t statement).isEmpty

/-- Whether an expression gives a promise, parentheses aside. -/
def givesPromise (c : Context) (t : Tree) (e : Option NodeId) : Bool :=
  Chain.isPromise t c.oracle (t.skipParentheses e)

/-- Makes a return await the promise that it returns, and remembers the promise. -/
def awaitReturn (c : Context) (id : NodeId) : Step Unit := do
  let t := (← get).tree
  match t.data? id with
  | some (.leave .returns (some e)) =>
    if givesPromise c t (some e) then
      let awaited ← makeAwait (some e)
      modify fun s => { s with
        tree := setReturned s.tree id awaited
        patched := (id, e) :: s.patched }
  | _ => pure ()

/-- Unrolls a chain in the body of a handler. -/
def unrollNested (unroll : Unroller) (c : Context) (e : NodeId) (sink : Sink) :
    Attempt (List NodeId) := do
  match c.nesting with
  | 0 => failure
  | nesting + 1 =>
    modify fun s => { s with successors := s.successors.mark s.tree c.oracle (some e) false }
    unroll { c with nesting } (some e) { final := sink }

/-- The statements for the value of a handler. -/
def unrollValue (unroll : Unroller) (c : Context) (e : NodeId) (sink : Sink) :
    Attempt (List NodeId) := do
  let t := (← get).tree
  if Chain.isChain t c.oracle (some e) then unrollNested unroll c e sink
  else write c (some e) sink (givesPromise c t (some e))

/-- Keeps a statement of a handler. One that returns does so only where the handler's value is
what the function returns. -/
def keepStatement (c : Context) (statement : NodeId) (sink : Sink) : Attempt NodeId := do
  let t := (← get).tree
  if containsReturn t statement then
    if sink ≠ .returned then failure
    if c.inTry then (returnsBelow t statement).forM fun id => (awaitReturn c id : Attempt Unit)
  return statement

/-- The statements of the body of a handler, up to a return at its top. -/
def unrollStatements (unroll : Unroller) (c : Context) (sink : Sink) :
    List NodeId → Attempt (List NodeId)
  | [] => writeUndefined c sink
  | statement :: rest => do
    let t := (← get).tree
    match t.data? statement with
    | none => unrollStatements unroll c sink rest
    | some (.leave .returns (some e)) => unrollValue unroll c e sink
    | some (.leave .returns none) =>
      if sink = .returned then return [← makeReturn none] else writeUndefined c sink
    | some data =>
      let chain? := match data with
        | .expressionStatement .statement (some e) =>
          if Chain.isChain t c.oracle (some e) then some e else none
        | _ => none
      let first ← match chain? with
        | some e => unrollNested unroll c e .discarded
        | none => pure [← keepStatement c statement sink]
      return first ++ (← unrollStatements unroll c sink rest)

/-- The statements for a function that is written in place. -/
def unrollLiteral (unroll : Unroller) (c : Context) (function : NodeId) (sink : Sink) :
    Attempt (List NodeId) := do
  let t := (← get).tree
  match t.data? function with
  | some (.function kind f) =>
    let ownsThis := kind = .expression && f.body.any t.containsThis
    if f.isGenerator || f.isAsync || ownsThis then failure
    match f.body.bind t.statements? with
    | some list => unrollStatements unroll c sink list.nodes
    | none =>
      match f.body with
      | some e => unrollValue unroll c e sink
      | none => write c none sink false
  | _ => failure

/-- The statements for a handler; `argument` is the binding that holds its argument. -/
def unrollHandler (unroll : Unroller) (c : Context) (handler : Handler) (argument : Option Key)
    (sink : Sink) : Attempt (List NodeId) := do
  match handler with
  | .named name =>
    let argument := argument.bind (← get).register.name?
    let arguments ← argument.toList.mapM fun text => (makeName text : Attempt NodeId)
    let call ← makeCall name arguments
    write c (some call) sink true
  | .literal function => unrollLiteral unroll c function sink
  | .absent | .unsupported _ => failure

end Unchain.Unroll

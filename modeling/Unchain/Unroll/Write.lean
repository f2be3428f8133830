import Unchain.Unroll.State

/-!
# Writing values

How a value gets to its sink. The first write of a binding declares it, the writes after that
assign. A promise is awaited on its way into a binding, and also when it is returned or dropped at
a place where its failure has to be seen.
-/

namespace Unchain.Unroll

open Naming (Key)
open Syntax (NodeId)

/-- `let x;` ahead of a `try` in which both branches write `x`, unless `x` is declared already. -/
def hoist (sink : Sink) : Step (List NodeId) := do
  let .binding key := sink | return []
  let register := (← get).register
  match register.name? key with
  | none => return []
  | some name =>
    if register.isDeclared key then return []
    modify fun s => { s with register := s.register.declare key }
    return [← makeVariable name none true]

/-- The statement that writes a binding. A value without a binding is only computed. -/
def writeBinding (key : Key) (value : Option NodeId) : Step NodeId := do
  match (← get).register.get? key with
  | none => makeStatement value
  | some entry =>
    let statement ←
      if entry.isDeclared then makeAssignment entry.name value
      else makeVariable entry.name value (entry.writesLeft > 1)
    modify fun s => { s with register := (s.register.declare key).consume key }
    return statement

/-- The statements that bring a value to a sink. -/
def write (c : Context) (e : Option NodeId) (sink : Sink) (isPromise : Bool) :
    Step (List NodeId) := do
  match sink with
  | .returned => return [← makeReturn (← makeAwaited (isPromise && c.inTry) e)]
  | .binding key => return [← writeBinding key (← makeAwaited isPromise e)]
  | .discarded =>
    if !isPromise && (← get).tree.isSideEffectFree e then return []
    return [← makeStatement (← makeAwaited isPromise e)]

/-- The statements for a handler that ends without a value. -/
def writeUndefined (c : Context) (sink : Sink) : Step (List NodeId) := do
  match sink with
  | .binding _ => write c (some (← makeName "undefined")) sink false
  | _ => return []

/-- `try { tried } catch (reason) { handled }`. -/
def makeTry (tried handled : List NodeId) (reason : Key) : Step NodeId := do
  let block ← makeBlock tried
  let name := (← get).register.name? reason
  modify fun s => { s with register := s.register.declare reason }
  let binding ← match name with
    | some name => some <$> makeDeclarator name none
    | none => pure none
  let handler ← makeBlock handled
  let clause ← make (.catchClause binding (some handler))
  make (.tryStatement (some block) (some clause) none)

end Unchain.Unroll

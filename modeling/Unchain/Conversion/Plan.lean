import Unchain.Naming.Choose
import Unchain.Naming.Writes
import Unchain.Unroll.Link

/-!
# Converting the chains of a function

A plan holds the groups of a function and everything that is known before their chains are
unrolled: the tree with the names chosen, how often each binding is written, and which links have
a successor. Carrying it out unrolls the groups in the order of the text.
-/

namespace Unchain.Conversion

open Chain (Group Root Successors)
open Promise (Oracle)
open Syntax (NodeId Tree)
open Unroll (Sink Unrolled)

/-- The groups of a function and the state in which their chains are unrolled. -/
structure Plan where
  groups : List Group
  state : Unroll.State
  deriving Repr

/-- Where the value of a group goes. -/
def sinkOf (group : Group) : Sink :=
  match group.result with
  | some symbol => .binding (.result symbol)
  | none => if group.kind = .statement then .discarded else .returned

/-- The plan for groups that were glued into the tree `t`. No answer if there are no free names
for its bindings. -/
def plan? (s : SourceFile) (o : Oracle) (function : NodeId) (groups : List Group) (t : Tree) :
    Option Plan := do
  let chains := groups.map Group.chain
  let (register, tree) ← Naming.choose? s.tree s.bindings o function chains t
  let seeded := chains.foldl (Naming.seedWrites tree s.bindings o) register
  let bound := groups.foldl (Naming.bindResult tree s.bindings o s.tree) seeded
  let successors := chains.foldl (fun s chain => s.mark tree o (some chain) false) ({} : Successors)
  return ⟨groups, { tree, register := bound, successors }⟩

/-- Unrolls the chain of a group. -/
def unrollGroup (s : SourceFile) (o : Oracle) (function : NodeId) (group : Group) :
    Unroll.Step Unrolled :=
  let inTry := group.root?.any (Chain.isInsideTry s.tree · function)
  Unroll.unrollChain { oracle := o, bindings := s.bindings, inTry } group.chain (sinkOf group)

/-- Unrolls the chains of all groups. -/
def unrollGroups (s : SourceFile) (o : Oracle) (function : NodeId) (groups : List Group) :
    Unroll.Step (List Unrolled) :=
  groups.mapM (unrollGroup s o function)

/-- The statements that take the place of a group. A root that returns a variable stays at the
end, to return what the chain put there. -/
def replacementOf (group : Group) (unrolled : Unrolled) : Unrolled :=
  if group.result.isSome then
    { unrolled with statements := unrolled.statements ++ group.root?.toList }
  else unrolled

end Unchain.Conversion

import Unchain.Chain.Group
import Unchain.Naming.Handlers

/-!
# Counting writes

How often a conversion will write a binding: once for every way in which its value can come about.
A binding that is written more than once has to be a `let` variable.
-/

namespace Unchain.Naming

open Promise (Oracle)
open Chain (Group Handler Link)
open Syntax (Node NodeId Tree)

section

variable (t : Tree) (b : Binding.Table) (o : Oracle)

/-- In how many places the value of a chain can come about. A link that handles rejections adds
one to those of its receiver; a link that handles values starts anew. -/
def writersOfSpine : List (Option NodeId × Link) → Nat
  | [] => 1
  | (_, link) :: rest =>
    match link with
    | .thenCall _ _ onFulfilled onRejected =>
      let fulfills := !(Chain.handlerOf t o onFulfilled).isAbsent
      let rejects := !(Chain.handlerOf t o onRejected).isAbsent
      (if rejects then 1 else 0) + if fulfills then 1 else writersOfSpine rest
    | .catchCall .. => 1 + writersOfSpine rest
    | .member _ => writersOfSpine rest
    | _ => 1

/-- In how many places the value of a chain can come about. -/
def writersOf (e : Option NodeId) : Nat := writersOfSpine t o (Chain.spine t o e)

/-- Enters the number of writes of the binding that a link's handler for values reads. -/
def seedLink (register : Register) (link : Link) : Register :=
  match link with
  | .thenCall _ receiver onFulfilled _ =>
    match (valueKey? t b (Chain.handlerOf t o onFulfilled)).join with
    | some key => register.seed key (writersOf t o (some receiver))
    | none => register
  | _ => register

/-- Enters the numbers of writes of a chain and of the chains in its handlers, down to a depth of
nesting. -/
def seedUpTo : Nat → Register → NodeId → Register
  | 0, register, _ => register
  | depth + 1, register, e =>
    (Chain.spine t o (some e)).foldl (fun register (_, link) =>
      (sitesOfLink t o link).foldl (fun register site =>
        (chainsOfHandler t o site.handler).foldl (seedUpTo depth) register)
        (seedLink t b o register link)) register

/-- Enters the numbers of writes of a chain. -/
def seedWrites (register : Register) (e : NodeId) : Register :=
  seedUpTo t b o (Limits.handlerNesting + 1) register e

/-- Enters the variable that the root of a group returns, by the name that it has in `t`. The
first write declares it, unless it is declared outside the group. -/
def bindResult (source : Tree) (register : Register) (group : Group) : Register :=
  match group.result.bind fun id => (b.symbol? id).map (id, ·) with
  | none => register
  | some (id, symbol) =>
    let name := (t.identifierText? (some symbol.nameNode)).getD symbol.name
    let key := Key.result id
    let seeded := ((register.pin name).insert key name).seed key (writersOf t o (some group.chain))
    let isInside : Bool := match source.part? group.first?, source.part? group.root? with
      | some first, some last =>
        (source.node? symbol.nameNode).any fun node =>
          first.pos ≤ node.pos && node.stop ≤ last.stop
      | _, _ => false
    if isInside then seeded else seeded.declare key

end

end Unchain.Naming

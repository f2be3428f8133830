import Unchain.Chain.Root
import Unchain.Text.Sorted
import Unchain.Text.Span

/-!
# Functions that can be converted

Finds functions by the chains that they hold, by their place and by their name. Functions are
looked for among all nodes that were made, in the order in which they were made.
-/

namespace Unchain.Conversion

open Chain (rootsOf)
open Promise (Oracle)
open Syntax (Data Node NodeId Tree)

section

variable (t : Tree)

/-- Whether a node is a function that can be made async: one with a body that is no generator,
constructor or accessor. -/
def isConvertible (id : NodeId) : Bool :=
  match t.data? id with
  | some (.function kind f) =>
    [.declaration, .expression, .arrow, .method].contains kind && !f.isGenerator &&
      f.body.isSome
  | _ => false

/-- Whether a function can be converted and holds a chain. -/
def holdsChain (o : Oracle) (id : NodeId) : Bool :=
  isConvertible t id && !(rootsOf t o id).isEmpty

/-- The span of a node. -/
def spanOf (id : NodeId) : Text.Span :=
  ((t.node? id).map fun node => Text.Span.ofBounds node.pos node.stop).getD default

/-- The innermost function around a position that can be converted and holds a chain. -/
def functionAt? (o : Oracle) (position : Nat) : Option NodeId :=
  let around := (List.range t.size).filter fun id =>
    (spanOf t id).contains position && holdsChain t o id
  (Text.stableSort (fun x y => (spanOf t x).length < (spanOf t y).length) around).head?

/-- What a function is called: its own name, or the variable or property that it is the value
of. -/
def functionName? (id : NodeId) : Option String :=
  match t.data? id with
  | some (.function _ f) =>
    if f.name.isSome then t.identifierText? f.name
    else
      match (t.parent? id).bind t.data? with
      | some (.variableDeclaration name _ _ value) | some (.property _ name value) =>
        if value = some id then t.identifierText? name else none
      | _ => none
  | _ => none

/-- Whether a node comes before another one: it starts earlier, or at the same place and ends
later. -/
def isBefore (x y : NodeId) : Bool :=
  let a := spanOf t x
  let b := spanOf t y
  a.start < b.start || (a.start == b.start && b.stop < a.stop)

/-- The functions that can be converted and hold a chain, outer ones before inner ones. -/
def functions (o : Oracle) : List NodeId :=
  Text.stableSort (isBefore t) ((List.range t.size).filter (holdsChain t o))

/-- The outermost function of a name that can be converted and holds a chain. -/
def functionNamed? (o : Oracle) (name : String) : Option NodeId :=
  (functions t o).find? fun id => functionName? t id == some name

end

end Unchain.Conversion

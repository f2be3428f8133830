import Unchain.Chain.Root

/-!
# Groups

A chain can be written across statements: `const p = f().then(a); return p.then(b);` is the chain
`f().then(a).then(b)`. Gluing puts the value of a variable in place of the variable at the leaf of
a chain, over and over, and remembers the statements that are converted as one. A variable that is
still read elsewhere cannot be glued away.

`glue` changes the tree only by adding nodes; the statements themselves stay as they are.
-/

namespace Unchain.Chain

open Binding (SymbolId Table)
open Promise (Oracle)
open Syntax (Data Node NodeId Tree)

/-- Statements that are converted as one chain. -/
structure Group where
  /-- Neighbouring statements in the order of the text; the last one is the root. -/
  statements : List NodeId
  chain : NodeId
  kind : RootKind
  /-- The variable that holds the value of the chain until the root returns it. -/
  result : Option SymbolId := none
  deriving DecidableEq, Repr, Inhabited

/-- The statement in which a group ends. -/
def Group.root? (g : Group) : Option NodeId := g.statements.getLast?

/-- The statement in which a group starts. -/
def Group.first? (g : Group) : Option NodeId := g.statements.head?

/-- The node with another expression as the one that a chain goes on through. -/
def withInner (data : Data) (inner : Option NodeId) : Data :=
  match data with
  | .parenthesized _ => .parenthesized inner
  | .call .call _ types arguments => .call .call inner types arguments
  | .access .property _ member questionDot => .access .property inner member questionDot
  | data => data

/-- The expression that a chain goes on through. -/
def inner? : Data → Option (Option NodeId)
  | .parenthesized e | .call .call e _ _ | .access .property e _ _ => some e
  | _ => none

/-- Builds a chain again with `new` in place of its leaf. Every new node remembers the node that
it was made from. -/
def substituteUpTo (leaf new : NodeId) : Nat → NodeId → Tree → NodeId × Tree
  | 0, id, t => (id, t)
  | fuel + 1, id, t =>
    if id = leaf then (new, t)
    else
      match t.node? id with
      | none => (id, t)
      | some node =>
        match inner? node.data with
        | none => (id, t)
        | some inner =>
          let (inner, t) := match inner with
            | some inner =>
              let (inner, t) := substituteUpTo leaf new fuel inner t
              (some inner, t)
            | none => (none, t)
          let (made, t) := t.add (withInner node.data inner) node.pos node.stop node.flags
          (made, t.setOrigin made (some id))

/-- Builds a chain again with `new` in place of its leaf. -/
def substitute (t : Tree) (chain leaf new : NodeId) : NodeId × Tree :=
  substituteUpTo leaf new (t.size + 1) chain t

section

variable (o : Oracle) (b : Table)

/-- Whether every use of a variable from the statement `start` on is one that the group replaces,
or the leaf of the value, which reads what the variable held before. -/
def areUsesSettled (t : Tree) (symbol : SymbolId) (start : NodeId) (replaced : List NodeId)
    (valueLeaf : Option NodeId) : Bool :=
  let pos := ((t.node? start).map Node.pos).getD 0
  (b.referencesOf symbol).all fun use =>
    !((t.node? use).any fun node => pos ≤ node.pos) || some use == valueLeaf ||
      replaced.contains use

/-- Takes the statement `previous` into a group if it defines the variable at the leaf of the
chain and nothing else needs the variable. `replaced` are the uses of the variable that the group
replaces already. -/
def absorb? (t : Tree) (group : Group) (replaced : List NodeId) (previous : NodeId) :
    Option (Group × List NodeId × Tree) := do
  let definition ← definition? t previous
  let symbol ← b.symbolAt? definition.target
  let leaf ← leaf t o (some group.chain)
  let use := t.originOf leaf
  let isDefined := t.isIdentifier leaf && b.symbolAt? use == some symbol &&
    isPromise t o (some definition.value)
  let replaced := (if definition.declares then [] else [definition.target]) ++ use :: replaced
  let valueLeaf := (Chain.leaf t o (some definition.value)).map t.originOf
  if isDefined && areUsesSettled b t symbol previous replaced valueLeaf then
    let (chain, t) := substitute t group.chain leaf definition.value
    some ({ group with statements := previous :: group.statements, chain }, replaced, t)
  else none

/-- Takes in statements, the nearest before the group first, up to the first that does not fit or
that another group holds. -/
def absorbAll (claimed : Option NodeId) (t : Tree) (group : Group) (replaced : List NodeId) :
    List NodeId → Group × Tree
  | [] => (group, t)
  | previous :: rest =>
    if some previous = claimed then (group, t)
    else
      match absorb? o b t group replaced previous with
      | some (group, replaced, t) => absorbAll claimed t group replaced rest
      | none => (group, t)

/-- The statements before a statement in the same list, the nearest first. -/
def statementsBefore (t : Tree) (statement : NodeId) : List NodeId :=
  match (t.parent? statement).bind t.statements? with
  | some list =>
    if list.nodes.contains statement then (list.nodes.takeWhile (· ≠ statement)).reverse else []
  | none => []

/-- The group of a root. No statement up to `claimed` is taken in. -/
def groupOf (t : Tree) (root : Root) (claimed : Option NodeId) : Group × Tree :=
  let group : Group := { statements := [root.node], chain := root.expression, kind := root.kind }
  let before := statementsBefore t root.node
  match root.kind with
  | .arrowBody => (group, t)
  | .returnedVariable =>
    match b.symbolAt? root.expression with
    | none => (group, t)
    | some symbol =>
      absorbAll o b claimed t { group with result := some symbol } [root.expression] before
  | _ => absorbAll o b claimed t group [] before

/-- Adds the group of a root to the groups before it, unless it returns a variable whose chain
could not be glued. -/
def glueRoot (groups : List Group × Tree) (root : Root) : List Group × Tree :=
  let (earlier, t) := groups
  let (group, t) := groupOf o b t root (earlier.getLast?.bind Group.root?)
  if root.kind = .returnedVariable ∧ group.statements.length < 2 then (earlier, t)
  else (earlier ++ [group], t)

/-- The groups of roots that are given in the order of the text. No two share a statement. -/
def glue (t : Tree) (roots : List Root) : List Group × Tree :=
  roots.foldl (glueRoot o b) ([], t)

end

end Unchain.Chain

import Unchain.Syntax.Node

/-!
# Syntax trees

The nodes of a source file in the order in which they were made. Nodes are only ever added, so a
part is older than the node that holds it, except where a part was exchanged later. Adding a node
makes it the parent of its parts.

A walk follows parts of parts; it takes the number of nodes as its fuel, which no path without a
repetition exceeds.

`size_add`, `data?_add_self` and `data?_add_of_lt` say what adding a node does: there is one node
more, it holds what was given, and the others hold what they held.
-/

namespace Unchain.Syntax

/-- All nodes that were made for a source file. -/
structure Tree where
  nodes : Array Node := #[]
  deriving Repr, Inhabited

namespace Tree

/-- How many nodes there are. -/
def size (t : Tree) : Nat := t.nodes.size

/-- The node with a number. -/
def node? (t : Tree) (id : NodeId) : Option Node := t.nodes[id]?

/-- The node that a part refers to. -/
def part? (t : Tree) (id : Option NodeId) : Option Node := id.bind t.node?

/-- What the node with a number holds. -/
def data? (t : Tree) (id : NodeId) : Option Data := (t.node? id).map Node.data

/-- What the node that a part refers to holds. -/
def partData? (t : Tree) (id : Option NodeId) : Option Data := id.bind t.data?

/-- Changes a node. -/
def modify (t : Tree) (id : NodeId) (f : Node → Node) : Tree := ⟨t.nodes.modify id f⟩

/-- Exchanges what a node holds. -/
def setData (t : Tree) (id : NodeId) (data : Data) : Tree :=
  t.modify id fun node => { node with data }

/-- Sets the marks of a node. -/
def setFlags (t : Tree) (id : NodeId) (flags : Flags) : Tree :=
  t.modify id fun node => { node with flags }

/-- Records the node that a node was made from. -/
def setOrigin (t : Tree) (id : NodeId) (origin : Option NodeId) : Tree :=
  t.modify id fun node => { node with origin }

/-- Records the node that a node is part of. -/
def setParent (t : Tree) (id parent : NodeId) : Tree :=
  t.modify id fun node => { node with parent := some parent }

/-- Adds a node and makes it the parent of its parts. -/
def add (t : Tree) (data : Data) (pos stop : Nat) (flags : Flags) : NodeId × Tree :=
  let id := t.size
  let grown : Tree := ⟨t.nodes.push { data, flags, pos, stop }⟩
  (id, data.parts.foldl (fun t part => t.setParent part id) grown)

/-! ## What changes leave as it was -/

@[simp] theorem size_modify (t : Tree) (id : NodeId) (f : Node → Node) :
    (t.modify id f).size = t.size := by
  simp [modify, size]

theorem node?_modify (t : Tree) (id other : NodeId) (f : Node → Node) :
    (t.modify id f).node? other =
      if id = other then (t.node? other).map f else t.node? other := by
  simp [modify, node?, Array.getElem?_modify]

@[simp] theorem size_setData (t : Tree) (id : NodeId) (data : Data) :
    (t.setData id data).size = t.size := size_modify ..

theorem data?_setData (t : Tree) (id other : NodeId) (data : Data) :
    (t.setData id data).data? other =
      if id = other then (t.data? other).map fun _ => data else t.data? other := by
  simp only [data?, setData, node?_modify]
  split <;> simp [Function.comp_def]

@[simp] theorem size_setParent (t : Tree) (id parent : NodeId) :
    (t.setParent id parent).size = t.size := size_modify ..

@[simp] theorem data?_setParent (t : Tree) (id parent other : NodeId) :
    (t.setParent id parent).data? other = t.data? other := by
  simp only [data?, setParent, node?_modify]
  split <;> simp [Function.comp_def]

theorem size_foldl_setParent (parts : List NodeId) (t : Tree) (parent : NodeId) :
    (parts.foldl (fun t part => t.setParent part parent) t).size = t.size := by
  induction parts generalizing t with
  | nil => rfl
  | cons part parts ih => rw [List.foldl_cons, ih, size_setParent]

theorem data?_foldl_setParent (parts : List NodeId) (t : Tree) (parent other : NodeId) :
    (parts.foldl (fun t part => t.setParent part parent) t).data? other = t.data? other := by
  induction parts generalizing t with
  | nil => rfl
  | cons part parts ih => rw [List.foldl_cons, ih, data?_setParent]

@[simp] theorem size_add (t : Tree) (data : Data) (pos stop : Nat) (flags : Flags) :
    (t.add data pos stop flags).2.size = t.size + 1 := by
  simp only [add, size_foldl_setParent]
  simp [size]

/-- A new node holds what was given. -/
@[simp] theorem data?_add_self (t : Tree) (data : Data) (pos stop : Nat) (flags : Flags) :
    (t.add data pos stop flags).2.data? t.size = some data := by
  simp only [add, data?_foldl_setParent]
  simp [data?, node?, size]

/-- The other nodes hold what they held. -/
theorem data?_add_of_lt (t : Tree) (data : Data) (pos stop : Nat) (flags : Flags) {id : NodeId}
    (h : id < t.size) : (t.add data pos stop flags).2.data? id = t.data? id := by
  simp only [add, data?_foldl_setParent]
  simp only [data?, node?]
  rw [Array.getElem?_push_lt h, Array.getElem?_eq_getElem h]

/-- The parts of a node in the order of the text. -/
def children (t : Tree) (id : NodeId) : List NodeId :=
  ((t.data? id).map Data.children).getD []

/-- The node that a node is part of. -/
def parent? (t : Tree) (id : NodeId) : Option NodeId := (t.node? id).bind Node.parent

/-- Follows the nodes that `id` was made from as long as they get older. -/
def originOf (t : Tree) (id : NodeId) : NodeId := go t.size id
where
  go : Nat → NodeId → NodeId
    | 0, id => id
    | fuel + 1, id =>
      match (t.node? id).bind Node.origin with
      | some earlier => if earlier < id then go fuel earlier else id
      | none => id

/-- The text of a name; labels and private names have one too. -/
def identifierText? (t : Tree) (id : Option NodeId) : Option String :=
  match t.partData? id with
  | some (.identifier text) | some (.privateIdentifier text) => some text
  | _ => none

/-- Whether the node holds parameters and a body. -/
def isFunction (t : Tree) (id : NodeId) : Bool := (t.data? id).any Data.isFunction

/-- Whether the node is a class. -/
def isClass (t : Tree) (id : NodeId) : Bool := (t.data? id).any Data.isClass

/-- Whether the node is a name. -/
def isIdentifier (t : Tree) (id : NodeId) : Bool := (t.data? id).any Data.isIdentifier

/-- The statements of a block, a clause or a source file. -/
def statements? (t : Tree) (id : NodeId) : Option NodeList :=
  match t.data? id with
  | some (.block _ statements _) | some (.clause _ _ statements)
  | some (.sourceFile _ statements _) => some statements
  | _ => none

/-- The node and everything below it, parents before their parts. -/
def preorderUpTo (t : Tree) : Nat → NodeId → List NodeId
  | 0, _ => []
  | fuel + 1, id => id :: (t.children id).flatMap (t.preorderUpTo fuel)

/-- The node and everything below it, parents before their parts. -/
def preorder (t : Tree) (root : NodeId) : List NodeId := t.preorderUpTo (t.size + 1) root

/-- The chain of nodes that hold `id`, the nearest first. -/
def ancestors (t : Tree) (id : NodeId) : List NodeId := go t.size id
where
  go : Nat → NodeId → List NodeId
    | 0, _ => []
    | fuel + 1, id =>
      match t.parent? id with
      | some parent => parent :: go fuel parent
      | none => []

end Tree

end Unchain.Syntax

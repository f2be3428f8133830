import Unchain.Syntax.Tree

/-!
# Looking through and looking into

Expressions without the parentheses and assertions around them, and walks that stay inside one
function.
-/

namespace Unchain.Syntax.Tree

/-- An expression without the parentheses around it. -/
def skipParentheses (t : Tree) (id : Option NodeId) : Option NodeId := go (t.size + 1) id
where
  go : Nat → Option NodeId → Option NodeId
    | 0, id => id
    | fuel + 1, id =>
      match t.partData? id with
      | some (.parenthesized e) => go fuel e
      | _ => id

/-- An expression without the parentheses, type assertions and non-null marks around it. -/
def skipOuter (t : Tree) (id : Option NodeId) : Option NodeId := go (t.size + 1) id
where
  go : Nat → Option NodeId → Option NodeId
    | 0, id => id
    | fuel + 1, id =>
      match t.partData? id with
      | some (.parenthesized e) | some (.assertion _ e _) | some (.unary .nonNull e) => go fuel e
      | _ => id

/-- Whether an expression can be dropped if nobody needs its value: names, `this` and simple
constants. -/
def isSideEffectFree (t : Tree) (id : Option NodeId) : Bool :=
  match t.partData? (t.skipParentheses id) with
  | none => true
  | some (.identifier _) => true
  | some (.token kind) =>
    [.thisKeyword, .nullKeyword, .trueKeyword, .falseKeyword].contains kind
  | some (.literal kind _ _) => [.string, .number, .bigInt, .template].contains kind
  | some _ => false

/-- Whether `this` or `super` of the surrounding function is used below a node. Arrows have no
`this` of their own, other functions and classes do. -/
def containsThis (t : Tree) (id : NodeId) : Bool := go (t.size + 1) id
where
  go : Nat → NodeId → Bool
    | 0, _ => false
    | fuel + 1, id =>
      match t.data? id with
      | none => false
      | some (.token .thisKeyword) | some (.token .superKeyword) => true
      | some data =>
        match data with
        | .function .arrow _ => data.children.any (go fuel)
        | .function .. | .classLike .. => false
        | _ => data.children.any (go fuel)

/-- The nodes that a walk from `root` meets, in the order of the text, if it does not enter nested
functions and classes and goes below a node only where `descend` says so. -/
def scopeNodes (t : Tree) (descend : Node → Bool) (root : NodeId) : List NodeId :=
  go (t.size + 1) root
where
  go : Nat → NodeId → List NodeId
    | 0, _ => []
    | fuel + 1, id =>
      match t.node? id with
      | none => []
      | some node =>
        if id ≠ root ∧ (node.data.isFunction ∨ node.data.isClass) then []
        else if descend node then id :: node.data.children.flatMap (go fuel)
        else [id]

end Unchain.Syntax.Tree

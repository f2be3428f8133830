import Unchain.Chain.Link

/-!
# Roots

The places of a function where a chain can be converted: the statements `return chain;` and
`chain;`, the body of an arrow that is a chain, and `return v;` right after a statement that puts
a chain into `v`. Nested functions and classes are searched on their own.
-/

namespace Unchain.Chain

open Promise (Oracle)
open Syntax (Data NodeId Tree)

/-- How the value of a root leaves the function. -/
inductive RootKind where
  /-- `return chain;`. -/
  | returned
  /-- `chain;`. -/
  | statement
  /-- `() => chain`. -/
  | arrowBody
  /-- `return v;` after `v = chain;`. -/
  | returnedVariable
  deriving DecidableEq, Repr, Inhabited

/-- A statement or an arrow's body, with the expression to convert. -/
structure Root where
  node : NodeId
  expression : NodeId
  kind : RootKind
  deriving DecidableEq, Repr, Inhabited

/-- A statement that gives a variable a value: `const v = value;` or `v = value;`. -/
structure Definition where
  target : NodeId
  value : NodeId
  declares : Bool
  deriving DecidableEq, Repr, Inhabited

/-- The definition that a statement is. A declaration of several variables is none. -/
def definition? (t : Tree) (statement : NodeId) : Option Definition :=
  let toName (target value : Option NodeId) (declares : Bool) : Option Definition := do
    let target ← target
    let value ← value
    if t.isIdentifier target then some ⟨target, value, declares⟩ else none
  match t.data? statement with
  | some (.variableList .statement _ ⟨[declaration], _, _, _⟩) =>
    match t.data? declaration with
    | some (.variableDeclaration name _ _ initializer) => toName name initializer true
    | _ => none
  | some (.expressionStatement .statement e) =>
    match t.partData? (t.skipParentheses e) with
    | some (.binary left .equals right) => toName (t.skipParentheses left) right false
    | _ => none
  | _ => none

/-- The body of a function. -/
def bodyOf? (t : Tree) (function : NodeId) : Option NodeId :=
  match t.data? function with
  | some (.function _ f) => f.body
  | _ => none

section

variable (t : Tree) (o : Oracle)

/-- The statement before another one in the same list. -/
def statementBefore? (statement : NodeId) : Option NodeId := do
  let list ← t.statements? (← t.parent? statement)
  match list.nodes.idxOf statement with
  | 0 => none
  | i + 1 => if i + 1 < list.nodes.length then list.nodes[i]? else none

/-- Whether `return e;` returns the variable that the statement before put a chain into. -/
def returnsChainVariable (statement e : NodeId) : Bool :=
  t.isIdentifier e &&
    ((statementBefore? t statement).bind (definition? t)).any fun definition =>
      (o.symbolAt? e).isSome && o.symbolAt? e == o.symbolAt? definition.target &&
        isChain t o (some definition.value)

/-- The root that a statement is. -/
def rootOf? (statement : NodeId) : Option Root :=
  match t.data? statement with
  | some (.leave .returns (some e)) =>
    if isChain t o (some e) then some ⟨statement, e, .returned⟩
    else if returnsChainVariable t o statement e then some ⟨statement, e, .returnedVariable⟩
    else none
  | some (.expressionStatement .statement (some e)) =>
    if isChain t o (some e) then some ⟨statement, e, .statement⟩ else none
  | _ => none

/-- Statements that cannot hold another statement of the function. -/
def isRootLike : Data → Bool
  | .leave .returns _ | .expressionStatement .statement _ => true
  | _ => false

/-- The roots of a function in the order of the text. -/
def rootsOf (function : NodeId) : List Root :=
  match bodyOf? t function with
  | none => []
  | some body =>
    match t.data? body with
    | none => []
    | some (.block .block ..) =>
      (t.scopeNodes (fun node => !isRootLike node.data) body).filterMap (rootOf? t o)
    | some _ => if isChain t o (some body) then [⟨body, body, .arrowBody⟩] else []

/-- The chains that are converted along with a handler: its body, or the returns and the
expressions among the statements of its body. -/
def handlerChains (function : NodeId) : List NodeId :=
  let chain? (e : Option NodeId) : Option NodeId := if isChain t o e then e else none
  match bodyOf? t function with
  | none => []
  | some body =>
    match t.statements? body with
    | none => (chain? (some body)).toList
    | some list =>
      list.nodes.filterMap fun statement =>
        match t.data? statement with
        | some (.leave .returns e) | some (.expressionStatement .statement e) => chain? e
        | _ => none

/-- Whether a statement of a function stands in the block of a `try`, so that its failures are
caught there. -/
def isInsideTry (statement function : NodeId) : Bool :=
  let around := (t.ancestors statement).takeWhile (· ≠ function)
  (around.zip (statement :: around)).any fun (outer, inner) =>
    match t.data? outer with
    | some (.tryStatement block _ _) => block == some inner
    | _ => false

end

end Unchain.Chain

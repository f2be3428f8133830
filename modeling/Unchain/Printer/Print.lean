import Unchain.Printer.Statements

/-!
# Printing nodes

The pieces of any node, and the text of statements. The printer takes nodes as they were read and
nodes that a conversion made.
-/

namespace Unchain.Printer

open Syntax (Data Node NodeId Tree)

/-- The pieces of a node, with `p` for its parts. -/
def nodePieces (p : Env) (node : Node) : List Piece :=
  match node.data with
  | .token .identifier => []
  | .token kind => [.text (kind.spelling?.getD "")]
  | .omitted => []
  | .emptyStatement | .semicolonMember => [.text ";"]
  | .debuggerStatement => [.text "debugger;"]
  | .identifier text | .privateIdentifier text => [.text text]
  | .literal kind text raw => Env.literal kind text raw
  | .computedName e => .text "[" :: p.operand Level.assignment e ++ [.text "]"]
  | .binary left operator right => p.binary left operator right
  | .prefixed operator e => p.prefixed operator e
  | .suffixed operator e => p.operand Level.leftHand e ++ [.text (Env.operatorText operator)]
  | .unary kind e => p.unary kind e
  | .call .call callee types list => p.call callee types list node.flags.optionalChain
  | .call .new callee types list => p.construction callee types list
  | .access kind e member questionDot => p.access kind e member questionDot
  | .conditional condition whenTrue whenFalse => p.conditional condition whenTrue whenFalse
  | .collection .array elements multiLine => p.array elements.nodes multiLine
  | .collection .object elements multiLine => p.object elements.nodes multiLine
  | .parenthesized e => p.parenthesized e
  | .assertion kind e type => p.assertion kind e type
  | .template head spans => p.emit head ++ spans.nodes.flatMap fun id => p.emit (some id)
  | .templateSpan e tail => p.emit e ++ p.emit tail
  | .taggedTemplate tag text => p.receiver tag ++ p.emit text
  | .function kind f => p.function kind f node.flags
  | .classLike _ c => p.classLike c
  | .parameter q => p.parameter q
  | .propertyDeclaration q => p.propertyDeclaration q
  | .property .assigned name value =>
    p.emit name ++ .text ": " :: p.operand Level.assignment value
  | .property .shorthand name value => p.emit name ++ p.optionalValue " = " value
  | .verbatim _ text => [.text text]
  | .block .block list multiLine => p.block list.nodes multiLine
  | .block .cases .. => []
  | .variableList .statement modifiers list =>
    p.modifiers modifiers ++ p.variableList node.flags list.nodes ++ [.text ";"]
  | .variableList .list _ list => p.variableList node.flags list.nodes
  | .variableDeclaration name isDefinite type value =>
    p.variableDeclaration name isDefinite type value
  | .bindingPattern kind list => p.bindingPattern kind list.nodes
  | .bindingElement isRest key name value => p.bindingElement isRest key name value
  | .expressionStatement .statement e => p.expressionStatement e
  | .expressionStatement .exportDefault e =>
    .text "export default " :: p.operand Level.assignment e ++ [.text ";"]
  | .leave kind e => p.leave kind e
  | .ifStatement condition thenStatement elseStatement =>
    p.ifStatement condition thenStatement elseStatement
  | .loop kind l => p.loop kind l
  | .iteration kind awaits initializer e statement =>
    p.iteration kind awaits initializer e statement
  | .tryStatement block handler last => p.tryStatement block handler last
  | .catchClause binding block => p.catchClause binding block
  | .switch e cases => p.switch e cases
  | .clause kind e list => p.clause kind e list.nodes
  | .labeled label statement => p.emit label ++ .text ": " :: p.emit statement
  | .jump kind label => p.jump kind label
  | .sourceFile .. => []

/-- The pieces of a part that nests at most `fuel` deep. -/
def pieces (t : Tree) : Nat → Option NodeId → List Piece
  | 0, _ => []
  | fuel + 1, id =>
    match t.part? id with
    | some node => nodePieces ⟨t, pieces t fuel⟩ node
    | none => []

/-- The pieces of a statement or an expression. -/
def piecesOf (t : Tree) (id : NodeId) : List Piece := pieces t (t.size + 1) (some id)

/-- The text of a statement or an expression. -/
def printNode (t : Tree) (layout : Layout) (id : NodeId) : String :=
  render layout (piecesOf t id)

/-- The pieces of statements, one on each line. -/
def statementPieces (t : Tree) : List NodeId → List Piece
  | [] => []
  | [id] => piecesOf t id
  | id :: rest => piecesOf t id ++ .line :: statementPieces t rest

/-- The text of statements, one on each line. -/
def printStatements (t : Tree) (layout : Layout) (ids : List NodeId) : String :=
  render layout (statementPieces t ids)

end Unchain.Printer

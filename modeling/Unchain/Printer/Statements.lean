import Unchain.Printer.Declarations

/-!
# Printing statements
-/

namespace Unchain.Printer.Env

open Syntax (ClauseKind Data ExpressionKind Flags IterationKind JumpKind LeaveKind Loop LoopKind
  NodeId NodeList Tree)

/-- Whether the part is a block. -/
def isBlock (p : Env) (id : Option NodeId) : Bool :=
  match p.tree.partData? id with
  | some (.block .block ..) => true
  | _ => false

/-- Statements in braces, one on each line. -/
def block (p : Env) (nodes : List NodeId) (multiLine : Bool) : List Piece :=
  if nodes.isEmpty then
    if multiLine then [.text "\x7b", .line, .text "\x7d"] else [.text "\x7b \x7d"]
  else
    .text "\x7b" :: .line :: .indent ::
      (nodes.flatMap fun id => p.emit (some id) ++ [.line]) ++ [.dedent, .text "\x7d"]

/-- The body of a loop or a condition: a block on the same line, any other statement on a line of
its own. -/
def embedded (p : Env) (id : Option NodeId) : List Piece :=
  if p.isBlock id then .text " " :: p.emit id
  else .line :: .indent :: p.emit id ++ [.dedent]

/-- What stands between a body and the word after it. -/
def afterEmbedded (p : Env) (id : Option NodeId) : Piece :=
  if p.isBlock id then .text " " else .line

/-- The word that declares variables. -/
def declarationWord (flags : Flags) : String :=
  if flags.isConst then "const " else if flags.isLet then "let " else "var "

/-- Variables with the word that declares them. -/
def variableList (p : Env) (flags : Flags) (nodes : List NodeId) : List Piece :=
  .text (declarationWord flags) :: p.commaSeparated nodes

/-- A variable. -/
def variableDeclaration (p : Env) (name : Option NodeId) (isDefinite : Bool)
    (type initializer : Option NodeId) : List Piece :=
  p.emit name ++ wordIf isDefinite "!" ++ p.optionalType type ++
    p.optionalValue " = " initializer

/-- Whether a statement that starts with this expression would be read in another way. -/
def startsLikeDeclaration : Data → Bool
  | .collection .object .. | .function .expression _ | .classLike .expression _ => true
  | _ => false

/-- An expression as a statement. -/
def expressionStatement (p : Env) (e : Option NodeId) : List Piece :=
  let needsParentheses :=
    (p.tree.partData? (leftmost p.tree e)).any startsLikeDeclaration
  (if needsParentheses then p.parenthesized e else p.emit e) ++ [.text ";"]

/-- A conditional statement. -/
def ifStatement (p : Env) (condition thenStatement elseStatement : Option NodeId) : List Piece :=
  let head := .text "if (" :: p.emit condition ++ .text ")" :: p.embedded thenStatement
  match elseStatement with
  | none => head
  | some _ =>
    let tail := match p.tree.partData? elseStatement with
      | some (.ifStatement ..) => .text " " :: p.emit elseStatement
      | _ => p.embedded elseStatement
    head ++ p.afterEmbedded thenStatement :: .text "else" :: tail

/-- A blank and an expression, if it is there. -/
def loopPart (p : Env) (id : Option NodeId) : List Piece := p.spaced id

/-- A loop with a condition. -/
def loop (p : Env) (kind : LoopKind) (l : Loop) : List Piece :=
  match kind with
  | .doLoop =>
    .text "do" :: p.embedded l.statement ++ p.afterEmbedded l.statement :: .text "while (" ::
      p.emit l.condition ++ [.text ");"]
  | .whileLoop =>
    .text "while (" :: p.emit l.condition ++ .text ")" :: p.embedded l.statement
  | .forLoop =>
    .text "for (" :: p.emit l.initializer ++ .text ";" :: p.loopPart l.condition ++
      .text ";" :: p.loopPart l.incrementor ++ .text ")" :: p.embedded l.statement

/-- A loop over keys or elements. -/
def iteration (p : Env) (kind : IterationKind) (awaits : Bool)
    (initializer e statement : Option NodeId) : List Piece :=
  let subject := match kind with
    | .keys => .text " in " :: p.emit e
    | .elements => .text " of " :: p.operand Level.assignment e
  .text "for " :: wordIf awaits "await " ++ .text "(" :: p.emit initializer ++ subject ++
    .text ")" :: p.embedded statement

/-- `break` or `continue`. -/
def jump (p : Env) (kind : JumpKind) (label : Option NodeId) : List Piece :=
  .text (if kind = .breaks then "break" else "continue") :: p.spaced label ++ [.text ";"]

/-- `return` or `throw`. -/
def leave (p : Env) (kind : LeaveKind) (e : Option NodeId) : List Piece :=
  .text (if kind = .returns then "return" else "throw") :: p.spaced e ++ [.text ";"]

/-- A switch. -/
def switch (p : Env) (e cases : Option NodeId) : List Piece :=
  let clauses := match p.tree.partData? cases with
    | some (.block _ list _) => list.nodes
    | _ => []
  .text "switch (" :: p.emit e ++ .text ") \x7b" :: .line :: .indent ::
    (clauses.flatMap fun id => p.emit (some id) ++ [.line]) ++ [.dedent, .text "\x7d"]

/-- A clause of a switch. A single block stays on the line of the label. -/
def clause (p : Env) (kind : ClauseKind) (e : Option NodeId) (nodes : List NodeId) : List Piece :=
  let label := match kind with
    | .defaultClause => [.text "default:"]
    | .caseClause => .text "case " :: p.emit e ++ [.text ":"]
  let onLines := .indent :: (nodes.flatMap fun id => .line :: p.emit (some id)) ++ [.dedent]
  match nodes with
  | [single] => label ++ if p.isBlock single then p.spaced single else onLines
  | _ => label ++ onLines

/-- A try statement. -/
def tryStatement (p : Env) (block handler finallyBlock : Option NodeId) : List Piece :=
  let last := match finallyBlock with
    | some _ => .text " finally " :: p.emit finallyBlock
    | none => []
  .text "try " :: p.emit block ++ p.spaced handler ++ last

/-- A catch clause. -/
def catchClause (p : Env) (binding block : Option NodeId) : List Piece :=
  let head := match binding with
    | some _ => .text "(" :: p.emit binding ++ [.text ") "]
    | none => []
  .text "catch " :: head ++ p.emit block

end Unchain.Printer.Env

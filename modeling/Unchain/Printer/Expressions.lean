import Unchain.Printer.Level
import Unchain.Printer.Writer
import Unchain.Token.Quote

/-!
# Printing expressions

The pieces of every expression. Parentheses that the tree does not hold are added where the parts
would bind in another way without them.
-/

namespace Unchain.Printer

open Syntax (AccessKind AssertionKind CollectionKind Data Flags Node NodeId NodeList Tree UnaryKind)
open Token (Kind)

/-- How the parts of a node are printed. -/
structure Env where
  tree : Tree
  /-- The pieces of a part; none for an absent one. -/
  emit : Option NodeId → List Piece

namespace Env

/-- The pieces of a part in parentheses. -/
def parenthesized (p : Env) (id : Option NodeId) : List Piece :=
  .text "(" :: p.emit id ++ [.text ")"]

/-- The pieces of a part, in parentheses if it binds looser than `level`. -/
def operand (p : Env) (level : Nat) (id : Option NodeId) : List Piece :=
  match p.tree.partData? id with
  | none => []
  | some data => if Level.ofData data < level then p.parenthesized id else p.emit id

/-- Pieces with a separator between them. -/
def separated (separator : String) : List (List Piece) → List Piece
  | [] => []
  | [a] => a
  | a :: rest => a ++ .text separator :: separated separator rest

/-- Nodes with commas between them. -/
def commaSeparated (p : Env) (nodes : List NodeId) : List Piece :=
  separated ", " (nodes.map fun id => p.emit (some id))

/-- Expressions with commas between them. -/
def arguments (p : Env) (nodes : List NodeId) : List Piece :=
  separated ", " (nodes.map fun id => p.operand Level.assignment (some id))

/-- Nodes on lines of their own, with commas between them, in brackets. -/
def onLines (opening closing : String) (nodes : List (List Piece)) : List Piece :=
  .text opening :: .line :: .indent :: go nodes ++ [.dedent, .text closing]
where
  go : List (List Piece) → List Piece
    | [] => []
    | [a] => a ++ [.line]
    | a :: rest => a ++ .text "," :: .line :: go rest

/-- Whether the last of the nodes is a hole, which needs a comma of its own. -/
def endsWithHole (p : Env) (nodes : List NodeId) : Bool :=
  (nodes.getLast?.bind p.tree.data?).any (· = .omitted)

/-- An array. -/
def array (p : Env) (nodes : List NodeId) (multiLine : Bool) : List Piece :=
  if nodes.isEmpty then [.text "[]"]
  else if multiLine then
    onLines "[" "]" (nodes.map fun id => p.operand Level.assignment (some id))
  else
    .text "[" :: p.arguments nodes ++
      (if p.endsWithHole nodes then [.text ","] else []) ++ [.text "]"]

/-- Members in braces on one line. -/
def inBraces (p : Env) (nodes : List NodeId) : List Piece :=
  if nodes.isEmpty then [.text "\x7b\x7d"]
  else .text "\x7b " :: p.commaSeparated nodes ++ [.text " \x7d"]

/-- An object. -/
def object (p : Env) (nodes : List NodeId) (multiLine : Bool) : List Piece :=
  if multiLine && !nodes.isEmpty then
    onLines "\x7b" "\x7d" (nodes.map fun id => p.emit (some id))
  else p.inBraces nodes

/-- A sign and an expression, if the expression is there. -/
def optionalValue (p : Env) (sign : String) (id : Option NodeId) : List Piece :=
  match id with
  | some _ => .text sign :: p.operand Level.assignment id
  | none => []

/-- A colon and a type, if the type is there. -/
def optionalType (p : Env) (id : Option NodeId) : List Piece :=
  match id with
  | some _ => .text ": " :: p.emit id
  | none => []

/-- A literal: its text, or its value if it was made without text. -/
def literal (kind : Kind) (text : String) (raw : Option String) : List Piece :=
  match raw with
  | some raw => [.text raw]
  | none => [.text (if kind = .string then Token.quote text else text)]

/-! ## Accesses and calls -/

/-- Whether a point after the literal would be read as a part of the number. -/
def isBareInteger : Data → Bool
  | .literal .number _ (some raw) => raw.toList.all Char.isDigit
  | _ => false

/-- An expression with an access or a call after it. -/
def receiver (p : Env) (id : Option NodeId) : List Piece :=
  if (p.tree.partData? id).any isBareInteger then p.parenthesized id
  else p.operand Level.leftHand id

/-- An access. -/
def access (p : Env) (kind : AccessKind) (e member : Option NodeId) (questionDot : Bool) :
    List Piece :=
  match kind with
  | .element =>
    p.receiver e ++ .text (if questionDot then "?.[" else "[") ::
      p.operand Level.comma member ++ [.text "]"]
  | .property =>
    p.receiver e ++ .text (if questionDot then "?." else ".") :: p.emit member

/-- Arguments in parentheses, if there is a list of them. -/
def argumentList (p : Env) : Option NodeList → List Piece
  | some list => .text "(" :: p.arguments list.nodes ++ [.text ")"]
  | none => []

/-- A call. -/
def call (p : Env) (callee types : Option NodeId) (list : Option NodeList) (optional : Bool) :
    List Piece :=
  p.receiver callee ++ (if optional then [.text "?."] else []) ++ p.emit types ++
    p.argumentList (some (list.getD {}))

/-- A construction. A call in the callee would take the arguments. -/
def construction (p : Env) (callee types : Option NodeId) (list : Option NodeList) : List Piece :=
  let head := if callOnLeft p.tree callee then p.parenthesized callee else p.receiver callee
  .text "new " :: head ++ p.emit types ++ p.argumentList list

/-! ## Operators -/

/-- The word of an operator with one operand. -/
def unaryWord : UnaryKind → String
  | .delete => "delete"
  | .typeof => "typeof"
  | .void => "void"
  | .await => "await"
  | .yield false => "yield"
  | .yield true => "yield*"
  | .spread | .spreadProperty => "..."
  | .nonNull => "!"

/-- An expression with a word or sign on it. -/
def unary (p : Env) (kind : UnaryKind) (e : Option NodeId) : List Piece :=
  let word := unaryWord kind
  match kind with
  | .spread | .spreadProperty => .text word :: p.operand Level.assignment e
  | .nonNull => p.operand Level.leftHand e ++ [.text word]
  | .yield _ =>
    match e with
    | some _ => .text word :: .text " " :: p.operand Level.assignment e
    | none => [.text word]
  | _ => .text word :: .text " " :: p.operand Level.unary e

/-- The text of an operator. -/
def operatorText (operator : Kind) : String := operator.spelling?.getD ""

/-- Whether two signs one after the other would be read as one. -/
def fuses (outer inner : Kind) : Bool :=
  ([.plus, .plusPlus].contains outer && [.plus, .plusPlus].contains inner) ||
    ([.minus, .minusMinus].contains outer && [.minus, .minusMinus].contains inner)

/-- A sign before an expression. -/
def prefixed (p : Env) (operator : Kind) (e : Option NodeId) : List Piece :=
  let gap := match p.tree.partData? e with
    | some (.prefixed inner _) => if fuses operator inner then [.text " "] else []
    | _ => []
  .text (operatorText operator) :: gap ++ p.operand Level.unary e

/-- The levels that the two sides of a binary operator need. -/
def sideLevels (operator : Kind) : Nat × Nat :=
  let level := Level.ofOperator operator
  if level = Level.assignment then (Level.leftHand, Level.assignment)
  else if level = Level.exponent then (level + 1, level)
  else (level, level + 1)

/-- A binary operator between its sides. -/
def binary (p : Env) (left : Option NodeId) (operator : Kind) (right : Option NodeId) :
    List Piece :=
  let (leftLevel, rightLevel) := sideLevels operator
  let sign :=
    if operator = .comma then [.text ", "]
    else [.text " ", .text (operatorText operator), .text " "]
  p.operand leftLevel left ++ sign ++ p.operand rightLevel right

/-- A choice between two expressions. -/
def conditional (p : Env) (condition whenTrue whenFalse : Option NodeId) : List Piece :=
  p.operand Level.coalesce condition ++ .text " ? " :: p.operand Level.assignment whenTrue ++
    .text " : " :: p.operand Level.assignment whenFalse

/-- A type assertion. -/
def assertion (p : Env) (kind : AssertionKind) (e type : Option NodeId) : List Piece :=
  p.operand Level.relational e ++
    .text (if kind = .asType then " as " else " satisfies ") :: p.emit type

end Env

end Unchain.Printer

import Unchain.Printer.Expressions

/-!
# Printing functions, classes and patterns
-/

namespace Unchain.Printer.Env

open Syntax (ClassParts CollectionKind Data Flags Function FunctionKind NodeId NodeList Parameter
  PropertyDeclaration Tree)

/-- A decorator or the word of a modifier. The one modifier that is no keyword is kept as a token
without text. -/
def modifierText : Data → String
  | .verbatim _ text => text
  | .token .identifier => "accessor"
  | .token kind => kind.spelling?.getD ""
  | _ => ""

/-- Modifiers with a blank after each. -/
def modifiers (p : Env) (list : Option NodeList) : List Piece :=
  (Data.listNodes list).flatMap fun id =>
    match p.tree.data? id with
    | some data => [.text (modifierText data), .text " "]
    | none => []

/-- Parameters in parentheses. -/
def parameterList (p : Env) (nodes : List NodeId) : List Piece :=
  .text "(" :: p.commaSeparated nodes ++ [.text ")"]

/-- Whether the node is a parameter that is a name and nothing else. -/
def isPlainParameter (t : Tree) (id : NodeId) : Bool :=
  match t.data? id with
  | some (.parameter q) =>
    q.modifiers.isNone && !q.isRest && !q.isOptional && q.declaredType.isNone &&
      q.initializer.isNone && (t.partData? q.name).any Data.isIdentifier
  | _ => false

/-- The parameters of an arrow. One plain parameter may stand without parentheses. -/
def arrowParameters (p : Env) (f : Function) (flags : Flags) : List Piece :=
  let isPlain := match f.parameters.nodes with
    | [only] => isPlainParameter p.tree only
    | _ => false
  if !isPlain || flags.parenthesizedParameters || f.typeParameters.isSome ||
      f.declaredType.isSome then p.parameterList f.parameters.nodes
  else p.commaSeparated f.parameters.nodes

/-- The body of an arrow. An expression that starts with a brace needs parentheses. -/
def arrowBody (p : Env) (body : Option NodeId) : List Piece :=
  match p.tree.partData? body with
  | none => []
  | some (.block .block ..) => p.emit body
  | some _ =>
    match p.tree.partData? (leftmost p.tree body) with
    | some (.collection .object ..) => p.parenthesized body
    | _ => p.operand Level.assignment body

/-- An arrow without its modifiers. -/
def arrow (p : Env) (f : Function) (flags : Flags) : List Piece :=
  p.emit f.typeParameters ++ p.arrowParameters f flags ++ p.optionalType f.declaredType ++
    .text " => " :: p.arrowBody f.body

/-- A blank and a part, if the part is there. -/
def spaced (p : Env) (id : Option NodeId) : List Piece :=
  match id with
  | some _ => .text " " :: p.emit id
  | none => []

/-- The words and the name that a function starts with. -/
def functionHead (p : Env) (kind : FunctionKind) (f : Function) : List Piece :=
  let star : List Piece := if f.isGenerator then [.text "*"] else []
  match kind with
  | .declaration | .expression => .text "function" :: star ++ p.spaced f.name
  | .getter => .text "get " :: p.emit f.name
  | .setter => .text "set " :: p.emit f.name
  | .classConstructor => [.text "constructor"]
  | _ => star ++ p.emit f.name

/-- A function. Without a body it ends with a semicolon. -/
def function (p : Env) (kind : FunctionKind) (f : Function) (flags : Flags) : List Piece :=
  let words : List Piece := p.modifiers f.modifiers ++ if f.isAsync then [.text "async "] else []
  match kind with
  | .arrow => words ++ p.arrow f flags
  | _ =>
    words ++ p.functionHead kind f ++ p.emit f.typeParameters ++
      p.parameterList f.parameters.nodes ++ p.optionalType f.declaredType ++
      match f.body with
      | some _ => p.spaced f.body
      | none => [.text ";"]

/-- A word if a condition holds. -/
def wordIf (condition : Bool) (word : String) : List Piece :=
  if condition then [.text word] else []

/-- A parameter. -/
def parameter (p : Env) (q : Parameter) : List Piece :=
  p.modifiers q.modifiers ++ wordIf q.isRest "..." ++ p.emit q.name ++ wordIf q.isOptional "?" ++
    p.optionalType q.declaredType ++ p.optionalValue " = " q.initializer

/-- A class. -/
def classLike (p : Env) (c : ClassParts) : List Piece :=
  let head := p.modifiers c.modifiers ++ .text "class" :: p.spaced c.name ++
    p.emit c.typeParameters ++ p.spaced c.heritage
  if c.members.nodes.isEmpty then head ++ [.text " \x7b \x7d"]
  else
    head ++ .text " \x7b" :: .line :: .indent ::
      (c.members.nodes.flatMap fun id => p.emit (some id) ++ [.line]) ++ [.dedent, .text "\x7d"]

/-- A property of a class. -/
def propertyDeclaration (p : Env) (q : PropertyDeclaration) : List Piece :=
  p.modifiers q.modifiers ++ p.emit q.name ++ wordIf q.isOptional "?" ++
    wordIf q.isDefinite "!" ++ p.optionalType q.declaredType ++
    p.optionalValue " = " q.initializer ++ [.text ";"]

/-- A binding pattern. -/
def bindingPattern (p : Env) (kind : CollectionKind) (nodes : List NodeId) : List Piece :=
  match kind with
  | .object => p.inBraces nodes
  | .array =>
    .text "[" :: p.commaSeparated nodes ++
      (if p.endsWithHole nodes then [.text ","] else []) ++ [.text "]"]

/-- An element of a binding pattern. -/
def bindingElement (p : Env) (isRest : Bool) (propertyName name initializer : Option NodeId) :
    List Piece :=
  let key := match propertyName with
    | some _ => p.emit propertyName ++ [.text ": "]
    | none => []
  wordIf isRest "..." ++ key ++ p.emit name ++ p.optionalValue " = " initializer

end Unchain.Printer.Env

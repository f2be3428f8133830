import Unchain.Grammar.Types

/-!
# Functions

Parameters, binding patterns, property names and the rest of a function after its name.
-/

namespace Unchain.Grammar

open Syntax (Flags FunctionKind NodeId NodeList)
open Token (Kind)

/-- An expression without commas, where `in` is an operator. -/
def assignmentAllowingIn (rules : Rules) : Reader (Option NodeId) :=
  allowingIn (rules .assignment)

/-- An expression with commas, where `in` is an operator. -/
def expressionAllowingIn (rules : Rules) : Reader (Option NodeId) :=
  allowingIn (rules .expression)

/-- A value after an equals sign, if there is one. -/
def optionalValue (rules : Rules) : Reader (Option NodeId) := do
  if ← accept .equals then assignmentAllowingIn rules else return none

/-! ## Property names -/

/-- A token that can start the name of a property. -/
def startsPropertyName (k : Kind) : Bool :=
  k = .identifier || k.isKeyword ||
    [.string, .number, .bigInt, .openBracket, .privateIdentifier].contains k

/-- A token that can start a method without a word before it. -/
def startsMethodName (k : Kind) : Bool := k = .asterisk || startsPropertyName k

/-- The current token as a literal. -/
def literal : Reader (Option NodeId) := do
  let pos ← tokenPos
  let k ← kind
  let cursor := (← get).scanner.cursor
  advance
  make (.literal k cursor.value (some cursor.text)) pos

/-- The name of a property: a word, a literal, or an expression in brackets. -/
def propertyName (rules : Rules) : Reader (Option NodeId) := do
  let k ← kind
  if [.string, .number, .bigInt].contains k then literal
  else if k = .openBracket then
    let pos ← tokenPos
    advance
    let e ← assignmentAllowingIn rules
    let _ ← expect .closeBracket
    make (.computedName e) pos
  else memberName

/-! ## Binding patterns -/

/-- Makes the list of the nodes between two positions. -/
def listOf (nodes : Array NodeId) (pos stop : Nat) (trailingComma : Bool) : NodeList :=
  { nodes := nodes.toList, pos, stop, trailingComma }

/-- Adds a node to an array if there is one. -/
def pushOption (nodes : Array NodeId) : Option NodeId → Array NodeId
  | some id => nodes.push id
  | none => nodes

/-- A hole before a comma, which is accepted. -/
def hole : Reader (Option NodeId) := do
  let pos ← tokenPos
  let id ← makeBetween .omitted pos pos {}
  advance
  return id

/-- An element of an object pattern. -/
def objectBindingElement (rules : Rules) : Reader (Option NodeId) := do
  let pos ← tokenPos
  let isRest ← accept .ellipsis
  let (key, name) ← do
    if isRest then
      pure (none, ← identifier)
    else
      let key ← propertyName rules
      if ← accept .colon then pure (key, ← rules .bindingName) else pure (none, key)
  let initializer ← optionalValue rules
  make (.bindingElement isRest key name initializer) pos

/-- An element of an array pattern. -/
def arrayBindingElement (rules : Rules) : Reader (Option NodeId) := do
  let pos ← tokenPos
  let isRest ← accept .ellipsis
  let name ← rules .bindingName
  let initializer ← optionalValue rules
  make (.bindingElement isRest none name initializer) pos

/-- `{a, b: c, ...rest}`. -/
def objectPattern (rules : Rules) : Reader (Option NodeId) := do
  let pos ← tokenPos
  advance
  let listPos ← tokenPos
  let elements ← repeating #[] fun elements => do
    if ← atAny? [.closeBrace, .endOfFile] then return .done elements
    else
      let elements := pushOption elements (← objectBindingElement rules)
      return if ← accept .comma then .again elements else .done elements
  let listStop ← tokenPos
  let _ ← expect .closeBrace
  make (.bindingPattern .object (listOf elements listPos listStop false)) pos

/-- `[a, , ...rest]`. -/
def arrayPattern (rules : Rules) : Reader (Option NodeId) := do
  let pos ← tokenPos
  advance
  let listPos ← tokenPos
  let elements ← repeating #[] fun elements => do
    if ← atAny? [.closeBracket, .endOfFile] then return .done elements
    else if ← at? .comma then
      return .again (pushOption elements (← hole))
    else
      let elements := pushOption elements (← arrayBindingElement rules)
      return if ← accept .comma then .again elements else .done elements
  let listStop ← tokenPos
  let _ ← expect .closeBracket
  make (.bindingPattern .array (listOf elements listPos listStop false)) pos

/-- A name or a pattern that is bound. -/
def bindingNameBody (rules : Rules) : Reader (Option NodeId) := do
  match ← kind with
  | .openBrace => objectPattern rules
  | .openBracket => arrayPattern rules
  | _ => identifier

/-! ## Parameters -/

/-- A word that may stand before the name of a parameter. -/
def isParameterModifier (k : Kind) : Bool :=
  [.publicKeyword, .privateKeyword, .protectedKeyword, .readonlyKeyword, .overrideKeyword].contains
    k

/-- The nodes as modifiers, if there are any. -/
def modifierList (nodes : Array NodeId) : Option NodeList :=
  if nodes.isEmpty then none else some { nodes := nodes.toList }

/-- The modifiers of a parameter. -/
def parameterModifiers : Reader (Array NodeId) :=
  repeating #[] fun nodes => do
    let isModifier ← do
      if isParameterModifier (← kind) then
        nextOnLine fun k =>
          k.isIdentifierLike || [.openBrace, .openBracket, .thisKeyword].contains k
      else pure false
    if isModifier then return .again (pushOption nodes (← tokenNode)) else return .done nodes

/-- The name of a parameter: a name, a pattern, or the word that gives the type of the
receiver. -/
def parameterName (rules : Rules) : Reader (Option NodeId) := do
  if ← at? .thisKeyword then
    let pos ← tokenPos
    advance
    make (.identifier "this") pos
  else rules .bindingName

/-- A parameter. -/
def parameter (rules : Rules) : Reader (Option NodeId) := do
  let pos ← tokenPos
  let modifiers := modifierList (← parameterModifiers)
  let isRest ← accept .ellipsis
  let name ← parameterName rules
  let isOptional ← accept .question
  let declaredType ← declaredType rules
  let initializer ← optionalValue rules
  make (.parameter { modifiers, isRest, name, isOptional, declaredType, initializer }) pos

/-- Parameters in parentheses. -/
def parameterList (rules : Rules) : Reader NodeList := do
  let pos ← tokenPos
  let _ ← expect .openParen
  let start : Array NodeId × Bool := (#[], false)
  let (nodes, trailingComma) ← repeating start fun (nodes, comma) => do
    if ← atAny? [.closeParen, .endOfFile] then return .done (nodes, comma)
    else
      let before ← tokenPos
      let nodes := pushOption nodes (← parameter rules)
      if !(← accept .comma) then return .done (nodes, false)
      else if (← tokenPos) = before then return .done (nodes, true)
      else return .again (nodes, true)
  let _ ← expect .closeParen
  return listOf nodes pos (← lastStop) trailingComma

/-! ## The rest of a function -/

/-- The body of a function. -/
def functionBlock (rules : Rules) (isAsync isGenerator : Bool) : Reader (Option NodeId) :=
  inFunction isAsync isGenerator (rules .block)

/-- A function after its name: type parameters, parameters, result type and body. A declaration
without a body ends like a statement. -/
def functionRest (rules : Rules) (k : FunctionKind) (pos : Nat) (modifiers : Option NodeList)
    (isAsync isGenerator : Bool) (name : Option NodeId) : Reader (Option NodeId) := do
  let typeParameters ← typeParameters rules
  let parameters ← inFunction isAsync isGenerator (parameterList rules)
  let declaredType ← resultType rules
  let body ← do
    if ← at? .openBrace then functionBlock rules isAsync isGenerator
    else
      endStatement
      pure none
  let parts : Syntax.Function :=
    { modifiers, isAsync, isGenerator, name, typeParameters, parameters, declaredType, body }
  make (.function k parts) pos

/-- A method after its name; a question mark may follow the name. -/
def methodRest (rules : Rules) (k : FunctionKind) (pos : Nat) (modifiers : Option NodeList)
    (isAsync isGenerator : Bool) (name : Option NodeId) : Reader (Option NodeId) := do
  let _ ← accept .question
  functionRest rules k pos modifiers isAsync isGenerator name

/-- The kind of accessor that a word announces. -/
def accessorKind? : Kind → Option FunctionKind
  | .getKeyword => some .getter
  | .setKeyword => some .setter
  | _ => none

/-- The kind of accessor that starts here: `get` or `set` with a name after it. -/
def accessorHere? : Reader (Option FunctionKind) := do
  match accessorKind? (← kind) with
  | some k => do
    let named ← lookAhead do
      advance
      return startsPropertyName (← kind)
    return if named then some k else none
  | none => return none

/-- Whether an `async` here belongs to a method; it is accepted. -/
def acceptMethodAsync : Reader Bool := do
  if ← at? .asyncKeyword then
    if ← nextOnLine startsMethodName then
      advance
      return true
  return false

end Unchain.Grammar

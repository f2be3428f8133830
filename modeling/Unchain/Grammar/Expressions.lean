import Unchain.Grammar.Functions

/-!
# Expressions

Operators by level, arrows, accesses and calls, literals.
-/

namespace Unchain.Grammar

open Syntax (AccessKind Data Flags NodeId NodeList UnaryKind)
open Token (Kind)

/-- How tight a binary operator binds; zero for everything else. -/
def bindingLevel : Kind → Nat
  | .questionQuestion => 4
  | .orOr => 5
  | .andAnd => 6
  | .bar => 7
  | .caret => 8
  | .ampersand => 9
  | .equalsEquals | .notEquals | .strictEquals | .strictNotEquals => 10
  | .lessThan | .greaterThan | .lessEquals | .greaterEquals | .instanceofKeyword | .inKeyword
  | .asKeyword | .satisfiesKeyword => 11
  | .shiftLeft | .shiftRight | .shiftRightUnsigned => 12
  | .plus | .minus => 13
  | .asterisk | .slash | .percent => 14
  | .power => 15
  | _ => 0

/-- Whether an expression can start with a token. -/
def startsExpression (k : Kind) : Bool :=
  if [.closeParen, .closeBracket, .closeBrace, .semicolon, .comma, .colon, .endOfFile,
      .arrow].contains k then false
  else !(k.isAssignment || bindingLevel k > 0) ||
    [.plus, .minus, .lessThan, .slash, .slashEquals].contains k

/-- Reads a `>` together with what follows it, where an operator may stand. -/
def joinGreater : Reader Unit := do
  if ← at? .greaterThan then rescan .rescanGreater

/-! ## Lists -/

/-- `...x`. -/
def spread (rules : Rules) (k : UnaryKind) : Reader (Option NodeId) := do
  let pos ← tokenPos
  advance
  let e ← assignmentAllowingIn rules
  make (.unary k e) pos

/-- An argument or an element of an array. -/
def listElement (rules : Rules) : Reader (Option NodeId) := do
  if ← at? .ellipsis then spread rules .spread else assignmentAllowingIn rules

/-- Arguments in parentheses. -/
def argumentList (rules : Rules) : Reader NodeList := do
  let pos ← tokenPos
  let _ ← expect .openParen
  let start : Array NodeId × Bool := (#[], false)
  let (nodes, trailingComma) ← repeating start fun (nodes, comma) => do
    if ← atAny? [.closeParen, .endOfFile] then return .done (nodes, comma)
    else
      match ← listElement rules with
      | none => return .done (nodes, false)
      | some argument =>
        return if ← accept .comma then .again (nodes.push argument, true)
          else .done (nodes.push argument, false)
  let _ ← expect .closeParen
  return listOf nodes pos (← lastStop) trailingComma

/-- `[a, , ...b]`. -/
def arrayLiteral (rules : Rules) : Reader (Option NodeId) := do
  let pos ← tokenPos
  advance
  let multiLine ← lineBreakBefore
  let listPos ← tokenPos
  let start : Array NodeId × Bool := (#[], false)
  let (nodes, trailingComma) ← repeating start fun (nodes, comma) => do
    if ← atAny? [.closeBracket, .endOfFile] then return .done (nodes, comma)
    else if ← at? .comma then return .again (pushOption nodes (← hole), false)
    else
      match ← listElement rules with
      | none => return .done (nodes, false)
      | some element =>
        return if ← accept .comma then .again (nodes.push element, true)
          else .done (nodes.push element, false)
  let listStop ← tokenPos
  let _ ← expect .closeBracket
  make (.collection .array (listOf nodes listPos listStop trailingComma) multiLine) pos

/-- A member of an object after its name. -/
def objectMemberRest (rules : Rules) (pos : Nat) (name : Option NodeId) :
    Reader (Option NodeId) := do
  if ← accept .colon then
    let value ← assignmentAllowingIn rules
    make (.property .assigned name value) pos
  else
    let value ← optionalValue rules
    make (.property .shorthand name value) pos

/-- A member of an object. -/
def objectMember (rules : Rules) : Reader (Option NodeId) := do
  let pos ← tokenPos
  if ← at? .ellipsis then spread rules .spreadProperty
  else
    let isAsync ← acceptMethodAsync
    let isGenerator ← accept .asterisk
    let accessor ← if isAsync || isGenerator then pure none else accessorHere?
    match accessor with
    | some k =>
      advance
      let name ← propertyName rules
      methodRest rules k pos none false false name
    | none =>
      let name ← propertyName rules
      if isAsync || isGenerator || (← atAny? [.openParen, .lessThan]) then
        methodRest rules .method pos none isAsync isGenerator name
      else objectMemberRest rules pos name

/-- A member of an object, and whether a comma comes after it. -/
def objectElement (rules : Rules) : Reader (Option NodeId × Bool) := do
  let member ← objectMember rules
  return (member, ← accept .comma)

/-- `{a: 1, b, ...c}`. -/
def objectLiteral (rules : Rules) : Reader (Option NodeId) := do
  let pos ← tokenPos
  advance
  let multiLine ← lineBreakBefore
  let listPos ← tokenPos
  let start : Array NodeId × Bool := (#[], false)
  let (nodes, trailingComma) ← repeating start fun (nodes, comma) => do
    if ← atAny? [.closeBrace, .endOfFile] then return .done (nodes, comma)
    else
      let before ← tokenPos
      let (member, comma) ← objectElement rules
      let nodes := pushOption nodes member
      if (← tokenPos) = before then
        advance
        return .again (nodes, false)
      else return if comma then .again (nodes, true) else .done (nodes, false)
  let listStop ← tokenPos
  let _ ← expect .closeBrace
  make (.collection .object (listOf nodes listPos listStop trailingComma) multiLine) pos

/-! ## Templates -/

/-- A substitution and the part of the template after it, if a brace closes the substitution;
and whether it is the last one. -/
def templateSpan (rules : Rules) : Reader (Option (NodeId × Bool)) := do
  let pos ← tokenPos
  let e ← expressionAllowingIn rules
  if ← at? .closeBrace then
    rescan .rescanTemplate
    let last ← at? .templateTail
    let tail ← literal
    return (← make (.templateSpan e tail) pos).map (·, last)
  else
    let _ ← expect .closeBrace
    return none

/-- A template. -/
def templateLiteral (rules : Rules) : Reader (Option NodeId) := do
  if ← at? .template then literal
  else
    let pos ← tokenPos
    let head ← literal
    let listPos ← tokenPos
    let spans ← repeating #[] fun spans => do
      match ← templateSpan rules with
      | none => return .done spans
      | some (span, last) =>
        return if last then .done (spans.push span) else .again (spans.push span)
    make (.template head (listOf spans listPos (← lastStop) false)) pos

/-! ## Primary expressions -/

/-- A function expression from its keyword on. -/
def functionExpression (rules : Rules) (pos : Nat) (isAsync : Bool) : Reader (Option NodeId) := do
  let _ ← expect .functionKeyword
  let isGenerator ← accept .asterisk
  let name ← do
    if ← atIdentifier? then inFunction isAsync isGenerator identifier else pure none
  functionRest rules .expression pos none isAsync isGenerator name

/-- The text of what a class extends and implements. -/
def heritage (rules : Rules) : Reader (Option NodeId) := do
  if ← atAny? [.extendsKeyword, .implementsKeyword] then
    let pos ← tokenPos
    repeating () fun _ => do
      match ← kind with
      | .openBrace | .endOfFile => return .done ()
      | .openParen =>
        skipParenthesized rules
        return .again ()
      | .lessThan =>
        skipBalanced rules .lessThan .greaterThan
        return .again ()
      | _ =>
        advance
        return .again ()
    makeVerbatim .type pos
  else return none

/-- A decorator. Its expression is read but only its text is kept. -/
def decorator (rules : Rules) : Reader (Option NodeId) := do
  let pos ← tokenPos
  advance
  let _ ← rules .leftHand
  makeVerbatim .type pos

/-- Decorators, as many as there are. -/
def decorators (rules : Rules) : Reader (Array NodeId) :=
  repeating #[] fun nodes => do
    if ← at? .atSign then return .again (pushOption nodes (← decorator rules))
    else return .done nodes

/-- Whether the word here is a modifier with a member after it. -/
def atMemberModifier? : Reader Bool := do
  let isWord ← do
    if ← atAny? [.publicKeyword, .privateKeyword, .protectedKeyword, .staticKeyword,
        .readonlyKeyword, .abstractKeyword, .overrideKeyword, .declareKeyword] then pure true
    else atWord? "accessor"
  if isWord then nextOnLine fun k => startsMethodName k || k = .atSign else return false

/-- Modifiers of a member. -/
def memberModifiers (nodes : Array NodeId) : Reader (Array NodeId) :=
  repeating nodes fun nodes => do
    if ← atMemberModifier? then return .again (pushOption nodes (← tokenNode))
    else return .done nodes

/-- Whether the bracket here starts an index signature. -/
def atIndexSignature? : Reader Bool := do
  if ← at? .openBracket then
    lookAhead do
      advance
      if (← kind).isIdentifierLike then
        advance
        at? .colon
      else return false
  else return false

/-- A property of a class after its name. -/
def propertyRest (rules : Rules) (pos : Nat) (modifiers : Option NodeList)
    (name : Option NodeId) : Reader (Option NodeId) := do
  let isOptional ← accept .question
  let isDefinite ← accept .exclamation
  let declaredType ← declaredType rules
  let initializer ← do
    if ← accept .equals then inFunction false false (rules .assignment) else pure none
  endStatement
  let parts : Syntax.PropertyDeclaration :=
    { modifiers, name, isOptional, isDefinite, declaredType, initializer }
  make (.propertyDeclaration parts) pos

/-- Whether a question mark here marks an optional method. -/
def atOptionalMethod? : Reader Bool := do
  if ← at? .question then
    lookAhead do
      advance
      atAny? [.openParen, .lessThan]
  else return false

/-- A named member of a class after its modifiers. -/
def namedMember (rules : Rules) (pos : Nat) (modifiers : Option NodeList) :
    Reader (Option NodeId) := do
  let isAsync ← acceptMethodAsync
  let isGenerator ← accept .asterisk
  let plain := !isAsync && !isGenerator
  let accessor ← if plain then accessorHere? else pure none
  match accessor with
  | some k =>
    advance
    let name ← propertyName rules
    methodRest rules k pos modifiers false false name
  | none =>
    let isConstructor ← do
      if plain && (← at? .constructorKeyword) then nextIs .openParen else pure false
    if isConstructor then
      let name ← memberName
      functionRest rules .classConstructor pos modifiers false false name
    else
      let name ← propertyName rules
      let isOptionalMethod ← atOptionalMethod?
      if isAsync || isGenerator || isOptionalMethod || (← atAny? [.openParen, .lessThan]) then
        methodRest rules .method pos modifiers isAsync isGenerator name
      else propertyRest rules pos modifiers name

/-- A member of a class. Static blocks and index signatures are kept as text. -/
def classMember (rules : Rules) : Reader (Option NodeId) := do
  let pos ← tokenPos
  if ← at? .semicolon then
    advance
    make .semicolonMember pos
  else
    let decorators ← decorators rules
    let isStaticBlock ← do
      if ← at? .staticKeyword then nextIs .openBrace else pure false
    if isStaticBlock then
      advance
      skipBalanced rules .openBrace .closeBrace
      makeVerbatim .type pos
    else
      let modifiers := modifierList (← memberModifiers decorators)
      if ← atIndexSignature? then
        skipBalanced rules .openBracket .closeBracket
        let _ ← declaredType rules
        endStatement
        makeVerbatim .type pos
      else namedMember rules pos modifiers

/-- The members of a class up to the closing brace. -/
def classMembers (rules : Rules) : Reader (Array NodeId) :=
  repeating #[] fun nodes => do
    if ← atAny? [.closeBrace, .endOfFile] then return .done nodes
    else
      let before ← tokenPos
      let nodes := pushOption nodes (← classMember rules)
      if (← tokenPos) = before then
        errorHere .statementExpected
        advance
      return .again nodes

/-- A class from its keyword on. -/
def classRest (rules : Rules) (k : Syntax.ClassKind) (pos : Nat) (modifiers : Option NodeList) :
    Reader (Option NodeId) := do
  let _ ← expect .classKeyword
  let name ← do
    if (← atIdentifier?) && !(← at? .implementsKeyword) then identifier else pure none
  let typeParameters ← typeParameters rules
  let heritage ← heritage rules
  let membersPos ← tokenPos
  let _ ← expect .openBrace
  let nodes ← classMembers rules
  let membersStop ← tokenStop
  let _ ← expect .closeBrace
  let members := listOf nodes membersPos membersStop false
  make (.classLike k { modifiers, name, typeParameters, heritage, members }) pos

/-- An expression in parentheses. -/
def parenthesizedExpression (rules : Rules) : Reader (Option NodeId) := do
  let pos ← tokenPos
  advance
  let e ← expressionAllowingIn rules
  let _ ← expect .closeParen
  make (.parenthesized e) pos

/-- A name, or the report that an expression is missing. -/
def nameOrNothing : Reader (Option NodeId) := do
  if ← atIdentifier? then nameNode
  else
    errorHere .expressionExpected
    return none

/-- An expression without operators, accesses and calls. -/
def primaryExpression (rules : Rules) : Reader (Option NodeId) := do
  let pos ← tokenPos
  match ← kind with
  | .thisKeyword | .superKeyword | .nullKeyword | .trueKeyword | .falseKeyword => tokenNode
  | .number | .bigInt | .string => literal
  | .template | .templateHead => templateLiteral rules
  | .slash | .slashEquals =>
    rescan .rescanSlash
    literal
  | .openParen => parenthesizedExpression rules
  | .openBracket => arrayLiteral rules
  | .openBrace => objectLiteral rules
  | .functionKeyword => functionExpression rules pos false
  | .asyncKeyword =>
    if ← nextOnLine (· = .functionKeyword) then
      advance
      functionExpression rules pos true
    else nameOrNothing
  | .classKeyword => classRest rules .expression pos none
  | .importKeyword =>
    advance
    make (.identifier "import") pos
  | .privateIdentifier => memberName
  | _ => nameOrNothing

/-! ## Accesses and calls -/

/-- An access whose parts have been read. -/
def access (k : AccessKind) (pos : Nat) (e member : Option NodeId) (questionDot : Bool) :
    Reader (Option NodeId) :=
  makeFlagged (.access k e member questionDot) pos { optionalChain := questionDot }

/-- A call whose callee and type arguments have been read. -/
def call (rules : Rules) (pos : Nat) (callee types : Option NodeId) (flags : Flags) :
    Reader (Option NodeId) := do
  let arguments ← argumentList rules
  makeFlagged (.call .call callee types (some arguments)) pos flags

/-- An access in brackets after the opening one. -/
def elementAccess (rules : Rules) (pos : Nat) (e : Option NodeId) (questionDot : Bool) :
    Reader (Option NodeId) := do
  let argument ← expressionAllowingIn rules
  let _ ← expect .closeBracket
  access .element pos e argument questionDot

/-- One access or call after an expression that starts at `pos`. -/
def memberStep (rules : Rules) (pos : Nat) (allowCalls : Bool) (e : Option NodeId) :
    Reader (Turn (Option NodeId)) := do
  match ← kind with
  | .dot =>
    advance
    let name ← memberName
    return .again (← access .property pos e name false)
  | .questionDot =>
    advance
    if allowCalls && (← at? .openParen) then
      return .again (← call rules pos e none { optionalChain := true })
    else if ← accept .openBracket then
      return .again (← elementAccess rules pos e true)
    else
      let name ← memberName
      return .again (← access .property pos e name true)
  | .openBracket =>
    advance
    return .again (← elementAccess rules pos e false)
  | .exclamation =>
    if ← lineBreakBefore then return .done e
    else
      advance
      return .again (← make (.unary .nonNull e) pos)
  | .template | .templateHead =>
    let text ← templateLiteral rules
    return .again (← make (.taggedTemplate e text) pos)
  | .lessThan =>
    if allowCalls && (← atCallTypeArguments? rules) then
      let types ← typeArguments rules
      if ← at? .openParen then return .again (← call rules pos e types {})
      else return .again e
    else return .done e
  | .openParen =>
    if allowCalls then return .again (← call rules pos e none {}) else return .done e
  | _ => return .done e

/-- The accesses and calls after an expression that starts at `pos`. -/
def memberRest (rules : Rules) (pos : Nat) (allowCalls : Bool) (e : Option NodeId) :
    Reader (Option NodeId) :=
  repeating e (memberStep rules pos allowCalls)

/-- A construction or a primary expression. -/
def constructionOrPrimary (rules : Rules) : Reader (Option NodeId) := do
  if ← at? .newKeyword then rules .construction else primaryExpression rules

/-- A primary expression with everything after it. -/
def leftHandBody (rules : Rules) : Reader (Option NodeId) := do
  let pos ← tokenPos
  let e ← constructionOrPrimary rules
  memberRest rules pos true e

/-- `new X(…)`, or `new` as the start of an access. -/
def constructionBody (rules : Rules) : Reader (Option NodeId) := do
  let pos ← tokenPos
  advance
  let calleePos ← tokenPos
  if ← at? .dot then
    let word ← makeBetween (.identifier "new") pos (min calleePos (pos + 3)) {}
    memberRest rules pos false word
  else
    let callee ← constructionOrPrimary rules
    let callee ← memberRest rules calleePos false callee
    let types ← if ← atCallTypeArguments? rules then typeArguments rules else pure none
    let arguments ← if ← at? .openParen then some <$> argumentList rules else pure none
    make (.call .new callee types arguments) pos

/-! ## Operators -/

/-- A word before an operand. -/
def wordOperator (rules : Rules) (k : UnaryKind) : Reader (Option NodeId) := do
  let pos ← tokenPos
  advance
  let e ← rules .unary
  make (.unary k e) pos

/-- An expression and an increment or decrement after it on the same line. -/
def suffixedExpression (rules : Rules) : Reader (Option NodeId) := do
  let pos ← tokenPos
  let e ← rules .leftHand
  if (← atAny? [.plusPlus, .minusMinus]) && !(← lineBreakBefore) then
    let operator ← kind
    advance
    make (.suffixed operator e) pos
  else return e

/-- `<T>x`. -/
def typeAssertion (rules : Rules) : Reader (Option NodeId) := do
  let pos ← tokenPos
  advance
  let type ← typeNode rules
  let _ ← expect .greaterThan
  let e ← rules .unary
  make (.assertion .asType e type) pos

/-- An expression with the operators before it. -/
def unaryBody (rules : Rules) : Reader (Option NodeId) := do
  let pos ← tokenPos
  match ← kind with
  | .plus | .minus | .tilde | .exclamation | .plusPlus | .minusMinus =>
    let operator ← kind
    advance
    let operand ← rules .unary
    make (.prefixed operator operand) pos
  | .typeofKeyword => wordOperator rules .typeof
  | .voidKeyword => wordOperator rules .void
  | .deleteKeyword => wordOperator rules .delete
  | .awaitKeyword =>
    if (← get).context.awaits then wordOperator rules .await else suffixedExpression rules
  | .lessThan => typeAssertion rules
  | _ => suffixedExpression rules

/-- Whether an operator of a level binds its left side where `level` is asked for. A power is
grouped from the right. -/
def binds (operator : Kind) (level : Nat) : Bool :=
  if operator = .power then bindingLevel operator ≥ level else bindingLevel operator > level

/-- One operator and its right side after an expression that starts at `pos`. -/
def binaryStep (rules : Rules) (level pos : Nat) (left : Option NodeId) :
    Reader (Turn (Option NodeId)) := do
  joinGreater
  let operator ← kind
  if bindingLevel operator = 0 then return .done left
  else if operator = .inKeyword && (← get).context.noIn then return .done left
  else if !binds operator level then return .done left
  else if operator = .asKeyword || operator = .satisfiesKeyword then
    if ← lineBreakBefore then return .done left
    else
      advance
      let type ← typeNode rules
      let k := if operator = .asKeyword then .asType else .satisfiesType
      return .again (← make (.assertion k left type) pos)
  else
    advance
    let right ← rules (.binary (bindingLevel operator))
    return .again (← make (.binary left operator right) pos)

/-- Operators that bind tighter than a level. -/
def binaryBody (rules : Rules) (level : Nat) : Reader (Option NodeId) := do
  let pos ← tokenPos
  let left ← rules .unary
  repeating left (binaryStep rules level pos)

/-! ## Arrows -/

/-- Reads over the head of an arrow with parentheses, and tells whether it was one. -/
def skipArrowHead (rules : Rules) : Reader Bool := do
  let before ← errorCount
  if ← at? .lessThan then skipBalanced rules .lessThan .greaterThan
  if (← errorCount) ≠ before then return false
  else if !(← at? .openParen) then return false
  else
    skipParenthesized rules
    let before ← errorCount
    if ← accept .colon then skipType rules
    if (← errorCount) ≠ before then return false
    else return (← at? .arrow) && !(← lineBreakBefore)

/-- Whether `async` and the head of an arrow stand here. -/
def atAsyncArrow? (rules : Rules) : Reader Bool := lookAhead do
  advance
  if ← lineBreakBefore then return false
  else if (← kind).isIdentifierLike then
    advance
    at? .arrow
  else skipArrowHead rules

/-- Whether an arrow starts here, and whether it is asynchronous. -/
def arrowHere? (rules : Rules) : Reader (Option Bool) := do
  match ← kind with
  | .asyncKeyword =>
    if ← atAsyncArrow? rules then return some true
    else if ← nextIs .arrow then return some false
    else return none
  | .openParen | .lessThan =>
    return if ← lookAhead (skipArrowHead rules) then some false else none
  | _ =>
    if ← atIdentifier? then
      return if ← nextOnLine (· = .arrow) then some false else none
    else return none

/-- The one parameter of an arrow without parentheses. -/
def arrowParameter : Reader NodeList := do
  let pos ← tokenPos
  let name ← identifier
  let stop ← lastStop
  let node ← makeBetween (.parameter { name }) pos stop {}
  return { nodes := node.toList, pos, stop }

/-- An arrow that starts at `pos`, after its parameters. -/
def arrowRest (rules : Rules) (isAsync : Bool) (pos : Nat) (typeParameters : Option NodeId)
    (parenthesized : Bool) (parameters : NodeList) : Reader (Option NodeId) := do
  let declaredType ← resultType rules
  let _ ← expect .arrow
  let body ← do
    if ← at? .openBrace then functionBlock rules isAsync false
    else inFunction isAsync false (rules .assignment)
  makeFlagged (.function .arrow { isAsync, typeParameters, parameters, declaredType, body }) pos
    { parenthesizedParameters := parenthesized }

/-- An arrow. -/
def arrowFunction (rules : Rules) (isAsync : Bool) : Reader (Option NodeId) := do
  let pos ← tokenPos
  if isAsync then advance
  let typeParameters ← typeParameters rules
  let parenthesized ← at? .openParen
  let parameters ← do
    if parenthesized then inFunction isAsync false (parameterList rules) else arrowParameter
  arrowRest rules isAsync pos typeParameters parenthesized parameters

/-! ## Assignments and commas -/

/-- `yield x` and `yield* x`. -/
def yieldExpression (rules : Rules) : Reader (Option NodeId) := do
  let pos ← tokenPos
  advance
  let delegates ← if ← lineBreakBefore then pure false else accept .asterisk
  let e ← do
    if !(← lineBreakBefore) && startsExpression (← kind) then rules .assignment else pure none
  make (.unary (.yield delegates) e) pos

/-- What can follow a binary expression that starts at `pos`: an assignment or a condition. -/
def assignmentRest (rules : Rules) (pos : Nat) (left : Option NodeId) :
    Reader (Option NodeId) := do
  joinGreater
  let operator ← kind
  if operator.isAssignment then
    advance
    let right ← rules .assignment
    make (.binary left operator right) pos
  else if operator = .question then
    advance
    let whenTrue ← assignmentAllowingIn rules
    let _ ← expect .colon
    let whenFalse ← rules .assignment
    make (.conditional left whenTrue whenFalse) pos
  else return left

/-- An expression without commas. -/
def assignmentBody (rules : Rules) : Reader (Option NodeId) := do
  if (← at? .yieldKeyword) && (← get).context.yields then yieldExpression rules
  else
    match ← arrowHere? rules with
    | some isAsync => arrowFunction rules isAsync
    | none =>
      let pos ← tokenPos
      let left ← rules (.binary 0)
      assignmentRest rules pos left

/-- One comma and the expression after it. -/
def commaStep (rules : Rules) (pos : Nat) (left : Option NodeId) :
    Reader (Turn (Option NodeId)) := do
  if ← accept .comma then
    match ← rules .assignment with
    | none =>
      errorHere .expressionExpected
      return .done left
    | right => return .again (← make (.binary left .comma right) pos)
  else return .done left

/-- An expression with commas. -/
def expressionBody (rules : Rules) : Reader (Option NodeId) := do
  let pos ← tokenPos
  let left ← rules .assignment
  repeating left (commaStep rules pos)

end Unchain.Grammar

import Unchain.Grammar.Expressions

/-!
# Statements

Statements, declarations and modules. Declarations that no conversion looks into (imports, types,
enumerations, name spaces) are read over and keep their text.
-/

namespace Unchain.Grammar

open Syntax (ClauseKind Flags IterationKind JumpKind LeaveKind NodeId NodeList VerbatimKind)
open Token (Kind)

/-- Reads one statement into a list. A token that starts none is reported and passed over. -/
def statementInto (rules : Rules) (nodes : Array NodeId) : Reader (Array NodeId) := do
  let before ← tokenPos
  let nodes := pushOption nodes (← rules .statement)
  if (← tokenPos) = before && !(← at? .endOfFile) then
    errorHere .statementExpected
    advance
  return nodes

/-- Statements up to a token of one of the kinds. -/
def statementsUntil (rules : Rules) (closing : List Kind) : Reader (Array NodeId) :=
  repeating #[] fun nodes => do
    if ← atAny? closing then return .done nodes
    else return .again (← statementInto rules nodes)

/-- Statements in braces. -/
def blockBody (rules : Rules) : Reader (Option NodeId) := do
  let pos ← tokenPos
  let _ ← expect .openBrace
  let multiLine ← lineBreakBefore
  let listPos ← tokenPos
  let nodes ← statementsUntil rules [.closeBrace, .endOfFile]
  let listStop ← tokenPos
  let _ ← expect .closeBrace
  make (.block .block (listOf nodes listPos listStop false) multiLine) pos

/-- An expression as a statement. -/
def expressionStatement (rules : Rules) : Reader (Option NodeId) := do
  let pos ← tokenPos
  match ← expressionAllowingIn rules with
  | none => return none
  | e =>
    endStatement
    make (.expressionStatement .statement e) pos

/-- A statement with a label. -/
def labeledStatement (rules : Rules) : Reader (Option NodeId) := do
  let pos ← tokenPos
  let label ← identifier
  let _ ← expect .colon
  let statement ← rules .statement
  make (.labeled label statement) pos

/-! ## Variables -/

/-- Whether the word `let` here declares variables. -/
def atLetDeclaration? : Reader Bool := lookAhead do
  advance
  let k ← kind
  return k.isIdentifierLike || k = .openBrace || k = .openBracket

/-- A variable that is declared. -/
def variableDeclaration (rules : Rules) : Reader (Option NodeId × Bool) := do
  let pos ← tokenPos
  let name ← rules .bindingName
  let isDefinite ← accept .exclamation
  let type ← declaredType rules
  let initializer ← if ← accept .equals then rules .assignment else pure none
  return (← make (.variableDeclaration name isDefinite type initializer) pos, name.isSome)

/-- Variables from `var`, `let` or `const` on, and the marks for that word. -/
def variableDeclarations (rules : Rules) : Reader (Flags × NodeList) := do
  let k ← kind
  let flags : Flags := { isLet := k = .letKeyword, isConst := k = .constKeyword }
  advance
  let pos ← tokenPos
  let nodes ← repeating #[] fun nodes => do
    let (node, named) ← variableDeclaration rules
    let nodes := pushOption nodes node
    if named then
      return if ← accept .comma then .again nodes else .done nodes
    else return .done nodes
  return (flags, listOf nodes pos (← lastStop) false)

/-- A statement that declares variables. -/
def variableStatement (rules : Rules) (pos : Nat) (modifiers : Option NodeList) :
    Reader (Option NodeId) := do
  let (flags, declarations) ← variableDeclarations rules
  endStatement
  makeFlagged (.variableList .statement modifiers declarations) pos flags

/-! ## Functions and classes -/

/-- A function declaration. -/
def functionDeclaration (rules : Rules) (pos : Nat) (modifiers : Option NodeList) :
    Reader (Option NodeId) := do
  let isAsync ← accept .asyncKeyword
  let _ ← expect .functionKeyword
  let isGenerator ← accept .asterisk
  let name ← if ← atIdentifier? then identifier else pure none
  functionRest rules .declaration pos modifiers isAsync isGenerator name

/-- The word `abstract`, if it stands here. -/
def optionalAbstract (nodes : Array NodeId) : Reader (Array NodeId) := do
  if ← at? .abstractKeyword then return pushOption nodes (← tokenNode) else return nodes

/-! ## Control flow -/

/-- A condition in parentheses. -/
def parenthesizedCondition (rules : Rules) : Reader (Option NodeId) := do
  let _ ← expect .openParen
  let e ← expressionAllowingIn rules
  let _ ← expect .closeParen
  return e

/-- A conditional statement. -/
def ifStatement (rules : Rules) : Reader (Option NodeId) := do
  let pos ← tokenPos
  advance
  let condition ← parenthesizedCondition rules
  let thenStatement ← rules .statement
  let elseStatement ← if ← accept .elseKeyword then rules .statement else pure none
  make (.ifStatement condition thenStatement elseStatement) pos

/-- A loop with its condition after it. -/
def doStatement (rules : Rules) : Reader (Option NodeId) := do
  let pos ← tokenPos
  advance
  let statement ← rules .statement
  let _ ← expect .whileKeyword
  let condition ← parenthesizedCondition rules
  let _ ← accept .semicolon
  make (.loop .doLoop { condition, statement }) pos

/-- A loop with its condition before it. -/
def whileStatement (rules : Rules) : Reader (Option NodeId) := do
  let pos ← tokenPos
  advance
  let condition ← parenthesizedCondition rules
  let statement ← rules .statement
  make (.loop .whileLoop { condition, statement }) pos

/-- Whether the head of a loop declares variables here. -/
def atLoopVariables? : Reader Bool := do
  if ← atAny? [.varKeyword, .constKeyword] then return true
  else if ← at? .letKeyword then atLetDeclaration?
  else return false

/-- What stands first in the head of a loop. -/
def loopInitializer (rules : Rules) : Reader (Option NodeId) := do
  if ← at? .semicolon then return none
  else if ← atLoopVariables? then
    let pos ← tokenPos
    let (flags, declarations) ← withoutIn (variableDeclarations rules)
    makeFlagged (.variableList .list none declarations) pos flags
  else withoutIn (rules .expression)

/-- A part of the head of a loop, unless the token that ends it stands here. -/
def loopPart (rules : Rules) (closing : Kind) : Reader (Option NodeId) := do
  if ← at? closing then return none else expressionAllowingIn rules

/-- What a loop goes over, by the word in its head. -/
def iterationHere? : Reader (Option IterationKind) := do
  match ← kind with
  | .ofKeyword => return some .elements
  | .inKeyword => return some .keys
  | _ => return none

/-- A loop with a head in parentheses. -/
def forStatement (rules : Rules) : Reader (Option NodeId) := do
  let pos ← tokenPos
  advance
  let awaits ← accept .awaitKeyword
  let _ ← expect .openParen
  let initializer ← loopInitializer rules
  match ← iterationHere? with
  | some k =>
    advance
    let e ← if k = .elements then assignmentAllowingIn rules else expressionAllowingIn rules
    let _ ← expect .closeParen
    let statement ← rules .statement
    make (.iteration k awaits initializer e statement) pos
  | none =>
    let _ ← expect .semicolon
    let condition ← loopPart rules .semicolon
    let _ ← expect .semicolon
    let incrementor ← loopPart rules .closeParen
    let _ ← expect .closeParen
    let statement ← rules .statement
    make (.loop .forLoop { initializer, condition, incrementor, statement }) pos

/-- `break` or `continue`. -/
def jumpStatement (k : JumpKind) : Reader (Option NodeId) := do
  let pos ← tokenPos
  advance
  let label ← do
    if !(← canEndStatement) && (← atIdentifier?) then identifier else pure none
  endStatement
  make (.jump k label) pos

/-- `return` or `throw`. -/
def leaveStatement (rules : Rules) (k : LeaveKind) : Reader (Option NodeId) := do
  let pos ← tokenPos
  advance
  let e ← if ← canEndStatement then pure none else expressionAllowingIn rules
  endStatement
  make (.leave k e) pos

/-- A clause of a switch. -/
def switchClause (rules : Rules) : Reader (Option NodeId) := do
  let pos ← tokenPos
  let (k, e) ← do
    if ← accept .caseKeyword then pure (ClauseKind.caseClause, ← expressionAllowingIn rules)
    else
      advance
      pure (ClauseKind.defaultClause, none)
  let _ ← expect .colon
  let listPos ← tokenPos
  let nodes ← statementsUntil rules [.caseKeyword, .defaultKeyword, .closeBrace, .endOfFile]
  let listStop ← tokenPos
  make (.clause k e (listOf nodes listPos listStop false)) pos

/-- A switch. -/
def switchStatement (rules : Rules) : Reader (Option NodeId) := do
  let pos ← tokenPos
  advance
  let e ← parenthesizedCondition rules
  let blockPos ← tokenPos
  let _ ← expect .openBrace
  let multiLine ← lineBreakBefore
  let listPos ← tokenPos
  let nodes ← repeating #[] fun nodes => do
    if ← atAny? [.caseKeyword, .defaultKeyword] then
      return .again (pushOption nodes (← switchClause rules))
    else return .done nodes
  let listStop ← tokenPos
  let _ ← expect .closeBrace
  let cases ← make (.block .cases (listOf nodes listPos listStop false) multiLine) blockPos
  make (.switch e cases) pos

/-- The name that a catch clause binds. -/
def catchBinding (rules : Rules) : Reader (Option NodeId) := do
  if ← accept .openParen then
    let pos ← tokenPos
    let name ← rules .bindingName
    let type ← declaredType rules
    let stop ← lastStop
    let _ ← expect .closeParen
    makeBetween (.variableDeclaration name false type none) pos stop {}
  else return none

/-- A catch clause, if there is one. -/
def catchClause (rules : Rules) : Reader (Option NodeId) := do
  if ← at? .catchKeyword then
    let pos ← tokenPos
    advance
    let binding ← catchBinding rules
    let block ← rules .block
    make (.catchClause binding block) pos
  else return none

/-- A try statement. It needs a catch clause or a finally block. -/
def tryStatement (rules : Rules) : Reader (Option NodeId) := do
  let pos ← tokenPos
  advance
  let block ← rules .block
  let handler ← catchClause rules
  let finallyBlock ← if ← accept .finallyKeyword then rules .block else pure none
  if handler.isNone && finallyBlock.isNone then
    let _ ← expect .catchKeyword
  make (.tryStatement block handler finallyBlock) pos

/-! ## Declarations that are kept as text -/

/-- A token that joins a declaration over the end of a line before it. -/
def continuesBefore (k : Kind) : Bool :=
  [.bar, .ampersand, .dot, .equals, .arrow, .comma, .question, .colon, .lessThan, .greaterThan,
    .extendsKeyword, .implementsKeyword, .fromKeyword, .asKeyword].contains k

/-- A token after which a declaration goes on in the next line. -/
def continuesAfter (k : Kind) : Bool :=
  continuesBefore k ||
    [.keyofKeyword, .typeofKeyword, .importKeyword, .exportKeyword, .interfaceKeyword,
      .typeKeyword, .enumKeyword, .namespaceKeyword, .moduleKeyword, .declareKeyword,
      .constKeyword, .defaultKeyword].contains k

/-- The next part of a declaration that is kept as text; `previous` is the kind of the token
before, if there is one. -/
def verbatimStep (rules : Rules) (previous : Option Kind) : Reader (Turn (Option Kind)) := do
  let k ← kind
  let ended ← do
    match previous with
    | some previous =>
      pure ((← lineBreakBefore) && !continuesAfter previous && !continuesBefore k)
    | none => pure false
  if ended then return .done previous
  else
    match k with
    | .endOfFile | .closeBrace => return .done previous
    | .semicolon =>
      advance
      return .done previous
    | .openBrace =>
      skipBalanced rules .openBrace .closeBrace
      return .again (some .closeBrace)
    | .openParen =>
      skipParenthesized rules
      return .again (some .closeParen)
    | .openBracket =>
      skipBalanced rules .openBracket .closeBracket
      return .again (some .closeBracket)
    | .templateHead =>
      let _ ← rules .templateRest
      return .again (some .templateTail)
    | _ =>
      advance
      return .again (if k = .unknown then none else some k)

/-- A declaration that is kept as text. -/
def verbatimStatement (rules : Rules) (k : VerbatimKind) (pos : Nat) : Reader (Option NodeId) := do
  let _ ← repeating none (verbatimStep rules)
  makeVerbatim k pos

/-! ## Modules -/

/-- Whether a declaration follows `export`, or `export default` if `isDefault`. -/
def declarationFollows (isDefault : Bool) : Reader Bool := do
  let afterWords (step : Reader Bool) : Reader Bool := lookAhead do
    advance
    if isDefault then advance
    step
  let next ← lookAhead do
    advance
    if isDefault then advance
    kind
  match next with
  | .varKeyword | .letKeyword | .functionKeyword | .classKeyword | .abstractKeyword => return true
  | .constKeyword =>
    return !(← lookAhead do
      advance
      advance
      at? .enumKeyword)
  | .asyncKeyword => afterWords do
    advance
    return (← at? .functionKeyword) && !(← lineBreakBefore)
  | _ => return false

/-- A declaration with the modifiers before it. -/
def exportedDeclaration (rules : Rules) (pos : Nat) (modifiers : Array NodeId) :
    Reader (Option NodeId) := do
  let modifiers := some { nodes := modifiers.toList }
  match ← kind with
  | .varKeyword | .letKeyword | .constKeyword => variableStatement rules pos modifiers
  | .classKeyword => classRest rules .declaration pos modifiers
  | _ => functionDeclaration rules pos modifiers

/-- A statement that starts with `export`. -/
def exportStatement (rules : Rules) (pos : Nat) (decorators : Array NodeId) :
    Reader (Option NodeId) := do
  let isDefault ← nextIs .defaultKeyword
  if ← declarationFollows isDefault then
    let nodes := pushOption decorators (← tokenNode)
    let nodes ← if isDefault then do pure (pushOption nodes (← tokenNode)) else pure nodes
    exportedDeclaration rules pos (← optionalAbstract nodes)
  else if isDefault then
    advance
    advance
    let e ← assignmentAllowingIn rules
    endStatement
    make (.expressionStatement .exportDefault e) pos
  else verbatimStatement rules .exportDeclaration pos

/-! ## Any statement -/

/-- A statement that no keyword announces: a label or an expression. -/
def plainStatement (rules : Rules) : Reader (Option NodeId) := do
  let isLabel ← if ← atIdentifier? then nextIs .colon else pure false
  if isLabel then labeledStatement rules else expressionStatement rules

/-- A declaration that is kept as text if the next word says so, else a plain statement. -/
def verbatimIf (rules : Rules) (pos : Nat) (k : VerbatimKind) (p : Kind → Bool) :
    Reader (Option NodeId) := do
  if ← nextOnLine p then verbatimStatement rules k pos else plainStatement rules

/-- A class or an exported declaration after decorators. -/
def decoratedStatement (rules : Rules) (pos : Nat) : Reader (Option NodeId) := do
  let nodes ← optionalAbstract (← decorators rules)
  if ← at? .exportKeyword then exportStatement rules pos nodes
  else classRest rules .declaration pos (modifierList nodes)

/-- A statement. -/
def statementBody (rules : Rules) : Reader (Option NodeId) := do
  let pos ← tokenPos
  match ← kind with
  | .openBrace => rules .block
  | .semicolon =>
    advance
    make .emptyStatement pos
  | .varKeyword => variableStatement rules pos none
  | .letKeyword =>
    if ← atLetDeclaration? then variableStatement rules pos none else plainStatement rules
  | .constKeyword =>
    if ← nextIs .enumKeyword then verbatimStatement rules .enumeration pos
    else variableStatement rules pos none
  | .functionKeyword => functionDeclaration rules pos none
  | .asyncKeyword =>
    if ← nextOnLine (· = .functionKeyword) then functionDeclaration rules pos none
    else plainStatement rules
  | .classKeyword => classRest rules .declaration pos none
  | .abstractKeyword =>
    if ← nextOnLine (· = .classKeyword) then
      classRest rules .declaration pos (modifierList (← optionalAbstract #[]))
    else plainStatement rules
  | .atSign => decoratedStatement rules pos
  | .ifKeyword => ifStatement rules
  | .doKeyword => doStatement rules
  | .whileKeyword => whileStatement rules
  | .forKeyword => forStatement rules
  | .continueKeyword => jumpStatement .continues
  | .breakKeyword => jumpStatement .breaks
  | .returnKeyword => leaveStatement rules .returns
  | .throwKeyword => leaveStatement rules .throws
  | .switchKeyword => switchStatement rules
  | .tryKeyword => tryStatement rules
  | .debuggerKeyword =>
    advance
    endStatement
    make .debuggerStatement pos
  | .importKeyword =>
    if ← lookAhead (do advance; atAny? [.openParen, .dot]) then plainStatement rules
    else verbatimStatement rules .importDeclaration pos
  | .exportKeyword => exportStatement rules pos #[]
  | .interfaceKeyword => verbatimIf rules pos .interface Kind.isIdentifierLike
  | .typeKeyword => verbatimIf rules pos .typeAlias Kind.isIdentifierLike
  | .enumKeyword => verbatimStatement rules .enumeration pos
  | .namespaceKeyword | .moduleKeyword =>
    verbatimIf rules pos .moduleDeclaration fun k => k.isIdentifierLike || k = .string
  | .declareKeyword =>
    verbatimIf rules pos .moduleDeclaration fun k => k.isKeyword || k = .identifier
  | _ => plainStatement rules

end Unchain.Grammar

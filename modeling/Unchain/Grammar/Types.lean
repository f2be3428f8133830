import Unchain.Grammar.State

/-!
# Types

Types have no influence on a conversion. They are read over token by token, and where a node is
needed it keeps their text.
-/

namespace Unchain.Grammar

open Syntax (NodeId)
open Token (Kind)

/-- Reads over a template after its first part, up to its end. -/
def skipTemplate (rules : Rules) : Reader Unit := do
  advance
  let _ ← repeating 0 fun depth => do
    match ← kind with
    | .endOfFile => return .done depth
    | .templateHead =>
      let _ ← rules .templateRest
      return .again depth
    | .openBrace =>
      advance
      return .again (depth + 1)
    | .closeBrace =>
      if depth = 0 then
        rescan .rescanTemplate
        let last ← at? .templateTail
        advance
        return if last then .done 0 else .again 0
      else
        advance
        return .again (depth - 1)
    | _ =>
      advance
      return .again depth

/-- Reads over everything from an opening token to the closing token that belongs to it. -/
def skipBalanced (rules : Rules) (opening closing : Kind) : Reader Unit := do
  if ← expect opening then
    let _ ← repeating 1 fun depth => do
      let k ← kind
      if k = .endOfFile then
        let _ ← expect closing
        return .done depth
      else if k = .templateHead then
        let _ ← rules .templateRest
        return .again depth
      else if k = opening then
        advance
        return .again (depth + 1)
      else if k = closing then
        advance
        return if depth = 1 then .done 0 else .again (depth - 1)
      else
        advance
        return .again depth

/-- Parentheses and everything in them. -/
def skipParenthesized (rules : Rules) : Reader Unit := skipBalanced rules .openParen .closeParen

/-- Reads over a type. -/
def skipType (rules : Rules) : Reader Unit := do
  let _ ← rules .type

/-- Reads over types in `<` and `>`. -/
def skipTypeArguments (rules : Rules) : Reader Unit := do
  let _ ← rules .typeArguments

/-- Reads over types with `|` and `&` between them. -/
def skipUnion (rules : Rules) : Reader Unit := do
  let _ ← rules .union

/-- Whether a type of a function starts here. -/
def atFunctionType? (rules : Rules) : Reader Bool := do
  match ← kind with
  | .lessThan | .newKeyword => return true
  | .abstractKeyword => nextIs .newKeyword
  | .openParen => lookAhead do
    skipParenthesized rules
    at? .arrow
  | _ => return false

/-- A type of a function from its parameters on. -/
def functionTypeRest (rules : Rules) : Reader Unit := do
  if ← at? .lessThan then skipTypeArguments rules
  skipParenthesized rules
  let _ ← expect .arrow
  let _ ← rules .resultType

/-- A type of a function. -/
def functionTypeBody (rules : Rules) : Reader Unit := do
  let _ ← accept .abstractKeyword
  let _ ← accept .newKeyword
  functionTypeRest rules

/-- A type: of a function, or a union that a condition may follow. -/
def typeBody (rules : Rules) : Reader (Option NodeId) := do
  if ← atFunctionType? rules then functionTypeBody rules
  else
    skipUnion rules
    if (← at? .extendsKeyword) && !(← lineBreakBefore) then
      advance
      skipUnion rules
      if ← expect .question then
        skipType rules
        let _ ← expect .colon
        skipType rules
  return none

/-- What a function returns: a type, or what it asserts of a parameter. -/
def resultTypeBody (rules : Rules) : Reader (Option NodeId) := do
  let asserts ← do
    if ← atWord? "asserts" then nextOnLine fun k => k.isIdentifierLike || k = .thisKeyword
    else pure false
  if asserts then
    advance
    advance
    if ← atWord? "is" then
      advance
      skipType rules
  else skipType rules
  return none

/-- Type arguments on the same line. -/
def optionalTypeArguments (rules : Rules) : Reader Unit := do
  if (← at? .lessThan) && !(← lineBreakBefore) then skipTypeArguments rules

/-- A name with points in it and type arguments. -/
def entityName (rules : Rules) : Reader Unit := do
  advance
  repeating () fun _ => do
    if ← at? .dot then
      advance
      advance
      return .again ()
    else return .done ()
  optionalTypeArguments rules

/-- A type without operators. -/
def primaryType (rules : Rules) : Reader Unit := do
  let k ← kind
  match k with
  | .openParen =>
    advance
    skipType rules
    let _ ← expect .closeParen
  | .openBrace => skipBalanced rules .openBrace .closeBrace
  | .openBracket => skipBalanced rules .openBracket .closeBracket
  | .typeofKeyword =>
    advance
    entityName rules
  | .importKeyword =>
    advance
    skipParenthesized rules
    repeating () fun _ => do
      if ← accept .dot then
        advance
        return .again ()
      else return .done ()
    optionalTypeArguments rules
  | .minus =>
    advance
    advance
  | .templateHead =>
    let _ ← rules .templateRest
  | .string | .number | .bigInt | .template | .trueKeyword | .falseKeyword | .nullKeyword
  | .voidKeyword | .thisKeyword | .asterisk | .question => advance
  | _ =>
    if k = .identifier || k.isKeyword then entityName rules else errorHere .typeExpected

/-- A type with the brackets and predicates after it. -/
def postfixType (rules : Rules) : Reader Unit := do
  primaryType rules
  repeating () fun _ => do
    if (← at? .openBracket) && !(← lineBreakBefore) then
      advance
      if !(← at? .closeBracket) then skipType rules
      let _ ← expect .closeBracket
      return .again ()
    else if (← atWord? "is") && !(← lineBreakBefore) then
      advance
      skipType rules
      return .again ()
    else return .done ()

/-- The constraint of an inferred type, unless it belongs to the condition around it. -/
def inferredConstraint (rules : Rules) : Reader Unit := do
  if ← at? .extendsKeyword then
    let constrains ← lookAhead do
      advance
      skipUnion rules
      return !(← at? .question)
    if constrains then
      advance
      skipUnion rules

/-- A type with the operators before it. -/
def typeOperator (rules : Rules) : Reader Unit := do
  let inferred ← repeating false fun _ => do
    if ← atAny? [.keyofKeyword, .readonlyKeyword] then
      advance
      return .again false
    else if ← atWord? "unique" then
      advance
      return .again false
    else if ← atWord? "infer" then
      advance
      advance
      inferredConstraint rules
      return .done true
    else return .done false
  if !inferred then postfixType rules

/-- Types with `|` and `&` between them; one may stand in front. -/
def unionBody (rules : Rules) : Reader (Option NodeId) := do
  if !(← accept .bar) then
    let _ ← accept .ampersand
  repeating () fun _ => do
    typeOperator rules
    if ← accept .bar then return .again ()
    else if ← accept .ampersand then return .again ()
    else return .done ()
  return none

/-- The words before a type parameter. -/
def typeParameterModifiers : Reader Unit :=
  repeating () fun _ => do
    let isModifier ← do
      if ← atAny? [.constKeyword, .inKeyword] then pure true
      else if ← atWord? "out" then nextOnLine Kind.isIdentifierLike
      else pure false
    if isModifier then
      advance
      return .again ()
    else return .done ()

/-- Type arguments or type parameters in `<` and `>`. -/
def typeArgumentsBody (rules : Rules) : Reader (Option NodeId) := do
  if ← expect .lessThan then
    repeating () fun _ => do
      if ← atAny? [.greaterThan, .endOfFile] then return .done ()
      else
        let before ← tokenPos
        typeParameterModifiers
        skipType rules
        if ← accept .extendsKeyword then skipType rules
        if ← accept .equals then skipType rules
        if !(← accept .comma) then return .done ()
        else if (← tokenPos) = before then return .done ()
        else return .again ()
    let _ ← expect .greaterThan
  return none

/-- Makes a node of the type text from `pos` to the last accepted token. -/
def typeNodeFrom (pos : Nat) : Reader (Option NodeId) := do
  let stop := max (← lastStop) pos
  let text ← sourceText pos stop
  makeBetween (.verbatim .type text) pos stop {}

/-- A type as a node. -/
def typeNode (rules : Rules) : Reader (Option NodeId) := do
  let pos ← tokenPos
  skipType rules
  typeNodeFrom pos

/-- A type after a colon, if there is one. -/
def declaredType (rules : Rules) : Reader (Option NodeId) := do
  if ← accept .colon then typeNode rules else return none

/-- The type that a function returns, if it is given. -/
def resultType (rules : Rules) : Reader (Option NodeId) := do
  if ← accept .colon then
    let pos ← tokenPos
    let _ ← rules .resultType
    typeNodeFrom pos
  else return none

/-- Type arguments as a node. -/
def typeArguments (rules : Rules) : Reader (Option NodeId) := do
  let pos ← tokenPos
  skipTypeArguments rules
  typeNodeFrom pos

/-- Type parameters, if there are any. -/
def typeParameters (rules : Rules) : Reader (Option NodeId) := do
  if ← at? .lessThan then typeArguments rules else return none

/-- Whether the `<` here starts the type arguments of a call. -/
def atCallTypeArguments? (rules : Rules) : Reader Bool := do
  if ← at? .lessThan then
    lookAhead do
      let before ← errorCount
      skipTypeArguments rules
      return (← errorCount) = before && (← atAny? [.openParen, .template, .templateHead])
  else return false

end Unchain.Grammar

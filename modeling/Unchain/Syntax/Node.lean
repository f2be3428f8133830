import Unchain.Token.Kind

/-!
# Syntax nodes

What the nodes of a syntax tree hold. A node refers to its parts by number; `Syntax.Tree` says
which node a number stands for. Every part of a construct may be absent, since text with errors
has a tree too.

Constructs that share their parts share a constructor, and a small enumeration tells them apart:
all functions are `Data.function`, whether declarations, arrows or methods.
-/

namespace Unchain.Syntax

/-- The number of a node: how many nodes were made before it. -/
abbrev NodeId := Nat

/-- Parts of one kind in their order. -/
structure NodeList where
  nodes : List NodeId := []
  pos : Nat := 0
  stop : Nat := 0
  trailingComma : Bool := false
  deriving DecidableEq, Repr, Inhabited

/-- Marks of a node that change how it is printed or read. -/
structure Flags where
  /-- Variables declared with `let`. -/
  isLet : Bool := false
  /-- Variables declared with `const`. -/
  isConst : Bool := false
  /-- An access or call after `?.`. -/
  optionalChain : Bool := false
  /-- Made by a conversion. -/
  synthesized : Bool := false
  /-- An arrow whose parameters stand in parentheses. -/
  parenthesizedParameters : Bool := false
  deriving DecidableEq, Repr, Inhabited

/-- Expressions that put one word or sign on an operand. -/
inductive UnaryKind where
  | await
  | typeof
  | void
  | delete
  /-- `...x` among arguments or array elements. -/
  | spread
  /-- `...x` in an object. -/
  | spreadProperty
  /-- `x!`. -/
  | nonNull
  /-- `yield x`, or `yield* x` if it delegates. -/
  | yield (delegates : Bool)
  deriving DecidableEq, Repr, Inhabited

/-- Calls and constructions. -/
inductive CallKind where
  | call
  | new
  deriving DecidableEq, Repr, Inhabited

/-- `x.name` and `x[index]`. -/
inductive AccessKind where
  | property
  | element
  deriving DecidableEq, Repr, Inhabited

/-- Arrays and objects, as literals and as binding patterns. -/
inductive CollectionKind where
  | array
  | object
  deriving DecidableEq, Repr, Inhabited

/-- Type assertions. -/
inductive AssertionKind where
  /-- `x as T`, or `<T>x`. -/
  | asType
  /-- `x satisfies T`. -/
  | satisfiesType
  deriving DecidableEq, Repr, Inhabited

/-- Constructs with parameters and a body. -/
inductive FunctionKind where
  | declaration
  | expression
  | arrow
  | method
  | classConstructor
  | getter
  | setter
  deriving DecidableEq, Repr, Inhabited

/-- Classes as statements and as values. -/
inductive ClassKind where
  | declaration
  | expression
  deriving DecidableEq, Repr, Inhabited

/-- Named members of an object. -/
inductive PropertyKind where
  /-- `name: value`. -/
  | assigned
  /-- `name`, or `name = default` in a pattern. -/
  | shorthand
  deriving DecidableEq, Repr, Inhabited

/-- Text that is kept as written. -/
inductive VerbatimKind where
  | type
  | interface
  | typeAlias
  | enumeration
  | moduleDeclaration
  | importDeclaration
  | exportDeclaration
  deriving DecidableEq, Repr, Inhabited

/-- Statement lists in braces. -/
inductive BlockKind where
  | block
  | cases
  deriving DecidableEq, Repr, Inhabited

/-- Variables as a statement and in the head of a loop. -/
inductive VariablesKind where
  | statement
  | list
  deriving DecidableEq, Repr, Inhabited

/-- Statements that are one expression. -/
inductive ExpressionKind where
  | statement
  /-- `export default x`. -/
  | exportDefault
  deriving DecidableEq, Repr, Inhabited

/-- Statements that leave the function. -/
inductive LeaveKind where
  | returns
  | throws
  deriving DecidableEq, Repr, Inhabited

/-- Loops with a condition. -/
inductive LoopKind where
  | forLoop
  | whileLoop
  | doLoop
  deriving DecidableEq, Repr, Inhabited

/-- Loops over the keys or the elements of a value. -/
inductive IterationKind where
  /-- `for (k in x)`. -/
  | keys
  /-- `for (v of x)`. -/
  | elements
  deriving DecidableEq, Repr, Inhabited

/-- Clauses of a switch. -/
inductive ClauseKind where
  | caseClause
  | defaultClause
  deriving DecidableEq, Repr, Inhabited

/-- Statements that go to another place of a loop. -/
inductive JumpKind where
  | breaks
  | continues
  deriving DecidableEq, Repr, Inhabited

/-- The parts of a function. -/
structure Function where
  modifiers : Option NodeList := none
  isAsync : Bool := false
  isGenerator : Bool := false
  name : Option NodeId := none
  typeParameters : Option NodeId := none
  parameters : NodeList := {}
  declaredType : Option NodeId := none
  body : Option NodeId := none
  deriving DecidableEq, Repr, Inhabited

/-- The parts of a class. What it extends and implements is kept as text. -/
structure ClassParts where
  modifiers : Option NodeList := none
  name : Option NodeId := none
  typeParameters : Option NodeId := none
  heritage : Option NodeId := none
  members : NodeList := {}
  deriving DecidableEq, Repr, Inhabited

/-- The parts of a parameter. -/
structure Parameter where
  modifiers : Option NodeList := none
  isRest : Bool := false
  name : Option NodeId := none
  isOptional : Bool := false
  declaredType : Option NodeId := none
  initializer : Option NodeId := none
  deriving DecidableEq, Repr, Inhabited

/-- The parts of a property of a class. -/
structure PropertyDeclaration where
  modifiers : Option NodeList := none
  name : Option NodeId := none
  isOptional : Bool := false
  isDefinite : Bool := false
  declaredType : Option NodeId := none
  initializer : Option NodeId := none
  deriving DecidableEq, Repr, Inhabited

/-- The parts of a loop with a condition. -/
structure Loop where
  initializer : Option NodeId := none
  condition : Option NodeId := none
  incrementor : Option NodeId := none
  statement : Option NodeId := none
  deriving DecidableEq, Repr, Inhabited

/-- What a node is and which parts it has. -/
inductive Data where
  /-- A keyword or another token with no text of its own. -/
  | token (kind : Token.Kind)
  /-- A hole in an array or an array pattern. -/
  | omitted
  | emptyStatement
  | debuggerStatement
  /-- A semicolon among the members of a class. -/
  | semicolonMember
  | identifier (text : String)
  | privateIdentifier (text : String)
  /-- A literal or a part of a template: its value, and its text if it has one. -/
  | literal (kind : Token.Kind) (text : String) (raw : Option String)
  /-- `[expression]` as a property name. -/
  | computedName (expression : Option NodeId)
  | binary (left : Option NodeId) (operator : Token.Kind) (right : Option NodeId)
  | prefixed (operator : Token.Kind) (operand : Option NodeId)
  | suffixed (operator : Token.Kind) (operand : Option NodeId)
  | unary (kind : UnaryKind) (expression : Option NodeId)
  /-- A call; `new X` without parentheses has no argument list. -/
  | call (kind : CallKind) (callee : Option NodeId) (typeArguments : Option NodeId)
      (arguments : Option NodeList)
  | access (kind : AccessKind) (expression : Option NodeId) (member : Option NodeId)
      (questionDot : Bool)
  | conditional (condition whenTrue whenFalse : Option NodeId)
  | collection (kind : CollectionKind) (elements : NodeList) (multiLine : Bool)
  | parenthesized (expression : Option NodeId)
  | assertion (kind : AssertionKind) (expression : Option NodeId) (type : Option NodeId)
  | template (head : Option NodeId) (spans : NodeList)
  | templateSpan (expression : Option NodeId) (literal : Option NodeId)
  | taggedTemplate (tag : Option NodeId) (template : Option NodeId)
  | function (kind : FunctionKind) (parts : Function)
  | classLike (kind : ClassKind) (parts : ClassParts)
  | parameter (parts : Parameter)
  | propertyDeclaration (parts : PropertyDeclaration)
  | property (kind : PropertyKind) (name : Option NodeId) (initializer : Option NodeId)
  | verbatim (kind : VerbatimKind) (text : String)
  | block (kind : BlockKind) (statements : NodeList) (multiLine : Bool)
  | variableList (kind : VariablesKind) (modifiers : Option NodeList) (declarations : NodeList)
  | variableDeclaration (name : Option NodeId) (isDefinite : Bool)
      (declaredType : Option NodeId) (initializer : Option NodeId)
  | bindingPattern (kind : CollectionKind) (elements : NodeList)
  | bindingElement (isRest : Bool) (propertyName : Option NodeId) (name : Option NodeId)
      (initializer : Option NodeId)
  | expressionStatement (kind : ExpressionKind) (expression : Option NodeId)
  | leave (kind : LeaveKind) (expression : Option NodeId)
  | ifStatement (condition : Option NodeId) (thenStatement : Option NodeId)
      (elseStatement : Option NodeId)
  | loop (kind : LoopKind) (parts : Loop)
  | iteration (kind : IterationKind) (awaits : Bool) (initializer : Option NodeId)
      (expression : Option NodeId) (statement : Option NodeId)
  | tryStatement (block : Option NodeId) (catchClause : Option NodeId)
      (finallyBlock : Option NodeId)
  | catchClause (binding : Option NodeId) (block : Option NodeId)
  | switch (expression : Option NodeId) (cases : Option NodeId)
  | clause (kind : ClauseKind) (expression : Option NodeId) (statements : NodeList)
  | labeled (label : Option NodeId) (statement : Option NodeId)
  | jump (kind : JumpKind) (label : Option NodeId)
  | sourceFile (fileName : String) (statements : NodeList) (endOfFile : Option NodeId)
  deriving DecidableEq, Repr, Inhabited

namespace Data

/-- The parts of a list that may be absent. -/
def listNodes (list : Option NodeList) : List NodeId := (list.map NodeList.nodes).getD []

/-- The parts of a node in the order in which they stand in the text; the end of file is left
out. -/
def children : Data → List NodeId
  | computedName e => e.toList
  | binary left _ right => left.toList ++ right.toList
  | prefixed _ operand | suffixed _ operand => operand.toList
  | unary _ e => e.toList
  | call _ callee types arguments => callee.toList ++ types.toList ++ listNodes arguments
  | access _ e member _ => e.toList ++ member.toList
  | conditional c t f => c.toList ++ t.toList ++ f.toList
  | collection _ elements _ => elements.nodes
  | parenthesized e => e.toList
  | assertion _ e type => e.toList ++ type.toList
  | template head spans => head.toList ++ spans.nodes
  | templateSpan e tail => e.toList ++ tail.toList
  | taggedTemplate tag text => tag.toList ++ text.toList
  | function _ f =>
    listNodes f.modifiers ++ f.name.toList ++ f.typeParameters.toList ++ f.parameters.nodes ++
      f.declaredType.toList ++ f.body.toList
  | classLike _ c =>
    listNodes c.modifiers ++ c.name.toList ++ c.typeParameters.toList ++ c.heritage.toList ++
      c.members.nodes
  | parameter p =>
    listNodes p.modifiers ++ p.name.toList ++ p.declaredType.toList ++ p.initializer.toList
  | propertyDeclaration p =>
    listNodes p.modifiers ++ p.name.toList ++ p.declaredType.toList ++ p.initializer.toList
  | property _ name initializer => name.toList ++ initializer.toList
  | block _ statements _ => statements.nodes
  | variableList _ modifiers declarations => listNodes modifiers ++ declarations.nodes
  | variableDeclaration name _ type initializer =>
    name.toList ++ type.toList ++ initializer.toList
  | bindingPattern _ elements => elements.nodes
  | bindingElement _ propertyName name initializer =>
    propertyName.toList ++ name.toList ++ initializer.toList
  | expressionStatement _ e => e.toList
  | leave _ e => e.toList
  | ifStatement c t e => c.toList ++ t.toList ++ e.toList
  | loop .doLoop l => l.statement.toList ++ l.condition.toList
  | loop _ l =>
    l.initializer.toList ++ l.condition.toList ++ l.incrementor.toList ++ l.statement.toList
  | iteration _ _ initializer e statement =>
    initializer.toList ++ e.toList ++ statement.toList
  | tryStatement tried handler last => tried.toList ++ handler.toList ++ last.toList
  | catchClause binding body => binding.toList ++ body.toList
  | switch e cases => e.toList ++ cases.toList
  | clause _ e statements => e.toList ++ statements.nodes
  | labeled label statement => label.toList ++ statement.toList
  | jump _ label => label.toList
  | sourceFile _ statements _ => statements.nodes
  | token _ | omitted | emptyStatement | debuggerStatement | semicolonMember | identifier _
  | privateIdentifier _ | literal .. | verbatim .. => []

/-- All nodes that a node refers to. -/
def parts : Data → List NodeId
  | sourceFile _ statements endOfFile => statements.nodes ++ endOfFile.toList
  | data => data.children

/-- A construct with parameters and a body. -/
def isFunction : Data → Bool
  | function .. => true
  | _ => false

/-- A class. -/
def isClass : Data → Bool
  | classLike .. => true
  | _ => false

/-- A name that can be bound or referred to. -/
def isIdentifier : Data → Bool
  | identifier _ => true
  | _ => false

end Data

/-- A node: its parts, its place in the text, the node that it is part of, and the node that it
was made from. -/
structure Node where
  data : Data
  flags : Flags := {}
  pos : Nat := 0
  stop : Nat := 0
  parent : Option NodeId := none
  origin : Option NodeId := none
  deriving DecidableEq, Repr, Inhabited

end Unchain.Syntax

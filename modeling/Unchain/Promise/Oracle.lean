import Unchain.Binding.Resolve
import Unchain.Promise.TypeText
import Unchain.Syntax.Scope

/-!
# The promise oracle

Which expressions give a promise, what a name refers to, and what the first parameter of a
function is called. `Oracle` is what a conversion needs to know; `Oracle.ofFile` answers from the
declarations of the file and from the names of promises.

There are no types behind the answers. An expression gives a promise if its form says so (a chain
on a promise, `new Promise`), or the declaration behind it does (an `async` function, a type, a
function that returns a promise wherever it returns). Declarations can refer to each other in a
circle: a question that comes up while it is being answered has the answer no.
-/

namespace Unchain.Promise

open Syntax (Data Function NodeId Tree)

/-- What a conversion asks about the nodes of a file. -/
structure Oracle where
  /-- Whether an expression gives a promise. -/
  isPromise : NodeId → Bool
  /-- The symbol that a name declares or refers to. -/
  symbolAt? : NodeId → Option Binding.SymbolId
  /-- What the first parameter of a function, or of the function that a name refers to, is
  called. -/
  firstParameter? : NodeId → Option String

/-- A question about a node that may lead back to itself. -/
inductive Question where
  /-- Does the expression give a promise? -/
  | value (node : NodeId)
  /-- Does a call of the function give a promise? -/
  | result (function : NodeId)
  /-- Does a call of what the variable was set to give a promise? -/
  | variableResult (declaration : NodeId)
  deriving DecidableEq, Repr

/-- The node that a question is about. -/
def Question.node : Question → NodeId
  | value node => node
  | result function => function
  | variableResult declaration => declaration

/-- The text of a type. -/
def typeText? (t : Tree) (type : Option NodeId) : Option (List Char) :=
  match t.partData? type with
  | some (.verbatim .type text) => some text.toList
  | _ => none

/-- Whether both hold; the second is asked for only if the first holds. -/
def both {m : Type → Type} [Monad m] (first second : m Bool) : m Bool := do
  if ← first then second else return false

namespace Rules

variable {m : Type → Type} [Monad m]
variable (t : Tree) (b : Binding.Table) (names : Names) (ask : Question → m Bool)

/-- Asks about a part that may be absent. -/
def askValue (id : Option NodeId) : m Bool :=
  match id with
  | some id => ask (.value id)
  | none => return false

/-- Asks about parts until one gives no promise. -/
def askAll : List (Option NodeId) → m Bool
  | [] => return true
  | id :: rest => both (askValue ask id) (askAll rest)

/-- Whether a name is that of a promise class and not declared in the file. -/
def isPromiseClass (id : Option NodeId) : Bool :=
  (t.identifierText? id).any names.types.contains && (id.bind b.symbolAt?).isNone

/-- Whether a type annotation is a promise type. -/
def isPromiseType (type : Option NodeId) : Bool := (typeText? t type).any names.isPromiseType

/-- What the returns of a function return. -/
def returnedBy (function : NodeId) : List (Option NodeId) :=
  let isReturn : Data → Bool
    | .leave .returns _ => true
    | _ => false
  (t.scopeNodes (fun node => !isReturn node.data) function).filterMap fun id =>
    match t.data? id with
    | some (.leave .returns e) => some e
    | _ => none

/-- Whether every return of a function gives a promise, and there is one. -/
def returnsPromises (function : NodeId) : m Bool :=
  both (return !(returnedBy t function).isEmpty) (askAll ask (returnedBy t function))

/-- Whether a call of a function gives a promise: it is async, has a promise as its result type,
or has no result type and gives promises only. -/
def isPromiseFunction (id : NodeId) : m Bool :=
  match t.data? id with
  | some (.function _ f) =>
    if f.isAsync && !f.isGenerator then return true
    else if f.declaredType.isSome then return isPromiseType t names f.declaredType
    else
      match t.partData? f.body with
      | none => return false
      | some (.block .block ..) => returnsPromises t ask id
      | some _ => askValue ask f.body
  | _ => return false

/-- Whether a call of a declared name gives a promise. -/
def isPromiseDeclaration (declaration : NodeId) : m Bool :=
  match t.data? declaration with
  | some (.function .declaration _) => ask (.result declaration)
  | some (.variableDeclaration _ _ type _) =>
    match typeText? t type with
    | some text => return names.isPromiseFunctionType text
    | none => ask (.variableResult declaration)
  | some (.parameter p) => return (typeText? t p.declaredType).any names.isPromiseFunctionType
  | _ => return false

/-- Whether a call of an expression gives a promise: a function, or a name for one. -/
def isPromiseCallee (callee : Option NodeId) : m Bool :=
  match callee with
  | none => return false
  | some id =>
    match t.data? id with
    | some (.function .expression _) | some (.function .arrow _) => ask (.result id)
    | some (.identifier text) | some (.privateIdentifier text) =>
      match b.symbolOf? id with
      | some symbol => isPromiseDeclaration t names ask symbol.declaration
      | none => return names.globals.contains text
    | _ => return false

/-- The class that `this` at a node is an object of. Only arrows share the `this` of the code
around them, so the first other function around must be a member. -/
def classOfThis? (id : NodeId) : Option NodeId :=
  let around := t.ancestors id
  let binds (id : NodeId) : Bool :=
    match t.data? id with
    | some (.function .arrow _) => false
    | some (.function ..) | some (.classLike ..) => true
    | _ => false
  (around.find? binds).bind fun id => if t.isClass id then some id else t.parent? id

/-- Whether a member can be called as `this.name`. -/
def isMemberNamed (name : String) (member : NodeId) : Bool :=
  match t.data? member with
  | some (.function .method f) => t.identifierText? f.name = some name
  | some (.propertyDeclaration p) => t.identifierText? p.name = some name
  | _ => false

/-- The member that `this.name` at a node refers to: the first one of that name. -/
def memberOfThis? (id : NodeId) (name : String) : Option NodeId :=
  match (classOfThis? t id).bind t.data? with
  | some (.classLike _ c) => c.members.nodes.find? (isMemberNamed t name)
  | _ => none

/-- Whether a call of a member gives a promise. -/
def isPromiseMember (member : NodeId) : m Bool :=
  match t.data? member with
  | some (.function .method _) => ask (.result member)
  | some (.propertyDeclaration p) =>
    match typeText? t p.declaredType with
    | some text => return names.isPromiseFunctionType text
    | none => isPromiseCallee t b names ask (t.skipParentheses p.initializer)
  | _ => return false

/-- Whether a call of `receiver.name` gives a promise; `id` is the node of the access. -/
def isPromiseMethod (id : NodeId) (receiver : Option NodeId) (name : String) : m Bool :=
  if Names.links.contains name then askValue ask receiver
  else if Names.statics.contains name && isPromiseClass t b names receiver then return true
  else if names.members.contains name then return true
  else
    match t.partData? receiver with
    | some (.token .thisKeyword) =>
      match memberOfThis? t id name with
      | some member => isPromiseMember t b names ask member
      | none => return false
    | _ => return false

/-- Whether a call gives a promise. -/
def isPromiseCall (callee : Option NodeId) : m Bool :=
  let callee := t.skipParentheses callee
  match callee, t.partData? callee with
  | some id, some (.access .property receiver member _) =>
    match t.identifierText? member with
    | none => return false
    | some name => isPromiseMethod t b names ask id receiver name
  | _, _ => isPromiseCallee t b names ask callee

/-- Whether a name stands for a promise: a variable with a promise type or value, or a parameter
with a promise type. A name bound by a pattern has no type. -/
def isPromiseName (id : NodeId) : m Bool :=
  match b.symbolOf? id with
  | none => return false
  | some symbol =>
    match t.data? symbol.declaration with
    | some (.variableDeclaration name _ type initializer) =>
      if name ≠ some symbol.nameNode then return false
      else if type.isSome then return isPromiseType t names type
      else askValue ask initializer
    | some (.parameter p) => return isPromiseType t names p.declaredType
    | _ => return false

/-- Whether an expression gives a promise. -/
def isPromiseValue (id : NodeId) : m Bool :=
  match t.data? id with
  | some (.parenthesized e) | some (.unary .nonNull e) | some (.assertion .satisfiesType e _) =>
    askValue ask e
  | some (.assertion .asType _ type) => return isPromiseType t names type
  | some (.call .call callee _ _) => isPromiseCall t b names ask callee
  | some (.call .new callee _ _) => return isPromiseClass t b names callee
  | some (.conditional _ whenTrue whenFalse) =>
    both (askValue ask whenTrue) (askValue ask whenFalse)
  | some (.binary _ .comma right) => askValue ask right
  | some (.identifier _) => isPromiseName t b names ask id
  | _ => return false

/-- Whether a call of what a variable was set to gives a promise. -/
def isPromiseVariable (declaration : NodeId) : m Bool :=
  match t.data? declaration with
  | some (.variableDeclaration _ _ _ initializer) =>
    isPromiseCallee t b names ask (t.skipParentheses initializer)
  | _ => return false

/-- The answer to a question, by the answers to the questions that it leads to. -/
def answer : Question → m Bool
  | .value id => isPromiseValue t b names ask id
  | .result function => isPromiseFunction t names ask function
  | .variableResult declaration => isPromiseVariable t b names ask declaration

end Rules

/-- A search for an answer. It keeps the nodes that are asked about at the moment, and it gives no
answer if it runs out of fuel. -/
abbrev Search := StateT (List NodeId) Option

/-- Answers a question about a node. The node counts as asked about until then, and while it does,
the answer to any question about it is no. -/
def guarded (node : NodeId) (search : Search Bool) : Search Bool := do
  if (← get).contains node then return false
  else
    modify (node :: ·)
    let answer ← search
    modify (·.erase node)
    return answer

/-- Searches for the answer to a question. The nodes that are asked about at one moment are
different ones, so there are no more of them than nodes. -/
def searchUpTo (t : Tree) (b : Binding.Table) (names : Names) : Nat → Question → Search Bool
  | 0, _ => failure
  | fuel + 1, q => guarded q.node (Rules.answer t b names (searchUpTo t b names fuel) q)

/-- Searches for the answer to a question. -/
def search (t : Tree) (b : Binding.Table) (names : Names) (q : Question) : Search Bool :=
  searchUpTo t b names (t.size + 1) q

/-- Answers a question. -/
def decides (t : Tree) (b : Binding.Table) (names : Names) (q : Question) : Bool :=
  (((search t b names q).run []).map Prod.fst).getD false

/-- The name of the first parameter of a function, unless it is a pattern. -/
def functionParameter? (t : Tree) (function : NodeId) : Option String :=
  match t.data? function with
  | some (.function _ f) =>
    match f.parameters.nodes.head?.bind t.data? with
    | some (.parameter p) => t.identifierText? p.name
    | _ => none
  | _ => none

/-- The name of the first parameter of a function, or of the function that a name refers to. -/
def firstParameterOf? (t : Tree) (b : Binding.Table) (id : NodeId) : Option String := do
  let id ← t.skipParentheses (some id)
  if t.isFunction id then functionParameter? t id
  else
    let symbol ← b.symbolOf? id
    match t.data? symbol.declaration with
    | some (.function .declaration _) => functionParameter? t symbol.declaration
    | some (.variableDeclaration _ _ _ initializer) =>
      let value ← t.skipParentheses initializer
      match t.data? value with
      | some (.function .expression _) | some (.function .arrow _) => functionParameter? t value
      | _ => none
    | _ => none

/-- Answers from the declarations of a file. The answer for an expression is found when it is first
asked for. -/
def Oracle.ofFile (s : SourceFile) (names : Names) : Oracle :=
  let answers := (Array.range s.tree.size).map fun id =>
    Thunk.mk fun _ => decides s.tree s.bindings names (.value id)
  { isPromise := fun id => answers[id]?.any Thunk.get
    symbolAt? := s.bindings.symbolAt?
    firstParameter? := firstParameterOf? s.tree s.bindings }

/-- Whether a call of a function of the file gives a promise. -/
def returnsPromise (s : SourceFile) (names : Names) (function : NodeId) : Bool :=
  decides s.tree s.bindings names (.result function)

/-- The result type of a function as written. -/
def resultType? (t : Tree) (function : NodeId) : Option String :=
  match t.data? function with
  | some (.function _ f) => (typeText? t f.declaredType).map String.ofList
  | _ => none

end Unchain.Promise

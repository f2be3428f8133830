import Unchain.Syntax.Tree

/-!
# Bindings

The names of a source file: a symbol for every binding, a scope for every stretch of code that can
hold bindings, and which symbol each name in the tree declares or refers to.

Symbols and scopes are numbered in the order in which they were made. A name that refers to
nothing in the file (a global, an import) is unresolved.
-/

namespace Unchain.Binding

open Syntax (NodeId Tree)

/-- The number of a symbol. -/
abbrev SymbolId := Nat

/-- The number of a scope. -/
abbrev ScopeId := Nat

/-- How a name is bound. -/
inductive SymbolKind where
  /-- `var`: bound in the whole function. -/
  | functionVariable
  /-- `let`. -/
  | blockVariable
  | constVariable
  | parameter
  | function
  | classLike
  | catchVariable
  deriving DecidableEq, Repr, Inhabited

/-- A binding. -/
structure Symbol where
  kind : SymbolKind
  name : String
  /-- The name that introduces the binding. -/
  nameNode : NodeId
  /-- The variable, parameter, element, function or class that the name belongs to. -/
  declaration : NodeId
  scope : ScopeId
  deriving DecidableEq, Repr, Inhabited

/-- What a scope belongs to. -/
inductive ScopeKind where
  | sourceFile
  | function
  | block
  | classLike
  deriving DecidableEq, Repr, Inhabited

/-- A stretch of code that can hold bindings. -/
structure Scope where
  parent : Option ScopeId
  kind : ScopeKind
  container : NodeId
  /-- The names bound here, in the order in which they were declared. -/
  names : List (String × SymbolId) := []
  deriving DecidableEq, Repr, Inhabited

namespace Scope

/-- Whether `var` variables can live here. -/
def isFunctionScope (s : Scope) : Bool := s.kind = .sourceFile || s.kind = .function

/-- The symbol that is bound here to a name. -/
def lookup (s : Scope) (name : String) : Option SymbolId := s.names.lookup name

end Scope

/-- All bindings of a source file. -/
structure Table where
  symbols : Array Symbol := #[]
  scopes : Array Scope := #[]
  /-- For each node the symbol that it declares or refers to. -/
  nodeSymbols : Array (Option SymbolId) := #[]
  /-- For each node the scope that it opens. -/
  nodeScopes : Array (Option ScopeId) := #[]
  /-- For each symbol the names that refer to it, in the order of the text. -/
  references : Array (List NodeId) := #[]
  /-- The names that refer to nothing, in the order of the text. -/
  unresolved : List (NodeId × String) := []
  deriving Repr, Inhabited

namespace Table

/-- The symbol with a number. -/
def symbol? (b : Table) (id : SymbolId) : Option Symbol := b.symbols[id]?

/-- The scope with a number. -/
def scope? (b : Table) (id : ScopeId) : Option Scope := b.scopes[id]?

/-- The number of the symbol that a name declares or refers to. -/
def symbolAt? (b : Table) (node : NodeId) : Option SymbolId := (b.nodeSymbols[node]?).join

/-- The symbol that a name declares or refers to. -/
def symbolOf? (b : Table) (node : NodeId) : Option Symbol := (b.symbolAt? node).bind b.symbol?

/-- The scope that a node opens. -/
def scopeAt? (b : Table) (node : NodeId) : Option ScopeId := (b.nodeScopes[node]?).join

/-- The names that refer to a symbol, in the order of the text. -/
def referencesOf (b : Table) (id : SymbolId) : List NodeId := (b.references[id]?).getD []

/-- Whether a name refers to nothing. -/
def isUnresolved (b : Table) (node : NodeId) : Bool := b.unresolved.any (·.1 = node)

/-- Whether the file uses a name somewhere where it refers to nothing. -/
def hasUnresolvedName (b : Table) (name : String) : Bool := b.unresolved.any (·.2 = name)

/-- The symbol that a name has in a scope: the one that is bound innermost. -/
def resolve? (b : Table) (name : String) (scope : ScopeId) : Option SymbolId :=
  go (b.scopes.size + 1) (some scope)
where
  go : Nat → Option ScopeId → Option SymbolId
    | 0, _ => none
    | fuel + 1, scope => do
      let s ← b.scope? (← scope)
      match s.lookup name with
      | some id => some id
      | none => go fuel s.parent

/-- The nearest scope around that `var` variables live in. -/
def functionScopeOf (b : Table) (scope : ScopeId) : ScopeId :=
  go (b.scopes.size + 1) scope
where
  go : Nat → ScopeId → ScopeId
    | 0, scope => scope
    | fuel + 1, scope =>
      match b.scope? scope with
      | some s => if s.isFunctionScope then scope else (s.parent.map (go fuel)).getD scope
      | none => scope

/-- The symbols that are introduced by a name between two positions. -/
def declaredBetween (b : Table) (t : Tree) (pos stop : Nat) : List SymbolId :=
  (List.range b.symbols.size).filter fun id =>
    ((b.symbol? id).bind fun s => t.node? s.nameNode).any fun node =>
      pos ≤ node.pos && node.stop ≤ stop

end Table

end Unchain.Binding

import Unchain.Binding.Table

/-!
# Declaring names

The first walk over a source file opens the scopes and declares every name. References are
resolved only afterwards, so that a function or a `var` variable is known in its whole scope.
-/

namespace Unchain.Binding

open Syntax (Data NodeId Tree)

/-- A step that makes symbols and scopes. -/
abbrev Binder := StateM Table

/-- Opens a scope for a node. -/
def openScope (kind : ScopeKind) (node : NodeId) (parent : Option ScopeId) : Binder ScopeId := do
  let b ← get
  let id := b.scopes.size
  set { b with
    scopes := b.scopes.push { parent, kind, container := node }
    nodeScopes := b.nodeScopes.setIfInBounds node (some id) }
  return id

/-- Lets a node share a scope that another node opened. -/
def shareScope (node : NodeId) (scope : ScopeId) : Binder Unit :=
  modify fun b => { b with nodeScopes := b.nodeScopes.setIfInBounds node (some scope) }

/-- Declares a name in a scope. Declaring it there again gives the symbol that it has. -/
def declareName (scope : ScopeId) (kind : SymbolKind) (name : String)
    (nameNode declaration : NodeId) : Binder Unit :=
  modify fun b =>
    match (b.scope? scope).bind (·.lookup name) with
    | some id => { b with nodeSymbols := b.nodeSymbols.setIfInBounds nameNode (some id) }
    | none =>
      let id := b.symbols.size
      { b with
        symbols := b.symbols.push { kind, name, nameNode, declaration, scope }
        references := b.references.push []
        scopes := b.scopes.modify scope fun s => { s with names := s.names ++ [(name, id)] }
        nodeSymbols := b.nodeSymbols.setIfInBounds nameNode (some id) }

/-- A part of a name or pattern that is bound. -/
inductive BindingPart where
  /-- A name, and the node that it is declared by. -/
  | name (text : String) (node declaration : NodeId)
  /-- An expression in a pattern: a default value or a key in brackets. -/
  | expression (node : NodeId)

/-- The parts of a name or a pattern in the order of the text. -/
def bindingPartsUpTo (t : Tree) : Nat → NodeId → Option NodeId → List BindingPart
  | 0, _, _ => []
  | fuel + 1, declaration, name =>
    match name.bind fun id => (t.data? id).map (id, ·) with
    | some (id, .identifier text) | some (id, .privateIdentifier text) =>
      [.name text id declaration]
    | some (_, .bindingPattern _ elements) =>
      elements.nodes.flatMap fun element =>
        match t.data? element with
        | some (.bindingElement _ key name initializer) =>
          let keys := match t.partData? key with
            | some (.computedName _) => key.toList.map .expression
            | _ => []
          keys ++ bindingPartsUpTo t fuel element name ++ initializer.toList.map .expression
        | _ => []
    | _ => []

/-- The parts of a name or a pattern that `declaration` binds. -/
def bindingParts (t : Tree) (declaration : NodeId) (name : Option NodeId) : List BindingPart :=
  bindingPartsUpTo t (t.size + 1) declaration name

/-- Declares the names of a pattern in the scope `target`; `visit` sees its expressions. -/
def declarePattern (t : Tree) (visit : NodeId → Binder Unit) (target : ScopeId)
    (kind : SymbolKind) (declaration : NodeId) (name : Option NodeId) : Binder Unit :=
  (bindingParts t declaration name).forM fun
    | .name text node declaration => declareName target kind text node declaration
    | .expression node => visit node

/-- Whether a part is a key in brackets. -/
def isComputedName (t : Tree) (id : Option NodeId) : Bool :=
  match t.partData? id with
  | some (.computedName _) => true
  | _ => false

/-- How a variable is bound, by the marks of its statement. -/
def variableKind (flags : Syntax.Flags) : SymbolKind :=
  if flags.isConst then .constVariable
  else if flags.isLet then .blockVariable
  else .functionVariable

/-- Declares everything below a node that stands in a scope. -/
def declareUpTo (t : Tree) : Nat → ScopeId → NodeId → Binder Unit
  | 0, _, _ => pure ()
  | fuel + 1, scope, id => do
    let visit := declareUpTo t fuel
    let visitPart (scope : ScopeId) (part : Option NodeId) : Binder Unit :=
      part.toList.forM (visit scope)
    let some node := t.node? id | return
    match node.data with
    | .function kind f =>
      if kind = .declaration then declarePattern t (visit scope) scope .function id f.name
      let inner ← openScope .function id (some scope)
      if kind = .expression then declarePattern t (visit inner) inner .function id f.name
      if isComputedName t f.name then visitPart scope f.name
      f.parameters.nodes.forM fun parameter =>
        match t.data? parameter with
        | some (.parameter p) => do
          if t.identifierText? p.name ≠ some "this" then
            declarePattern t (visit inner) inner .parameter parameter p.name
          visitPart inner p.initializer
        | _ => pure ()
      match t.partData? f.body with
      | some (.block .block statements _) =>
        f.body.toList.forM (shareScope · inner)
        statements.nodes.forM (visit inner)
      | _ => visitPart inner f.body
    | .classLike kind c =>
      if kind = .declaration then declarePattern t (visit scope) scope .classLike id c.name
      let inner ← openScope .classLike id (some scope)
      if kind = .expression then declarePattern t (visit inner) inner .classLike id c.name
      c.members.nodes.forM (visit inner)
    | .block .. | .loop .forLoop _ | .iteration .. =>
      let inner ← openScope .block id (some scope)
      node.data.children.forM (visit inner)
    | .catchClause binding block =>
      let inner ← openScope .block id (some scope)
      match binding, t.partData? binding with
      | some declaration, some (.variableDeclaration name ..) =>
        declarePattern t (visit inner) inner .catchVariable declaration name
      | _, _ => pure ()
      visitPart inner block
    | .variableList _ _ declarations =>
      declarations.nodes.forM fun declaration =>
        match t.data? declaration with
        | some (.variableDeclaration name _ _ initializer) => do
          let kind := variableKind node.flags
          let b ← get
          let target := if kind = .functionVariable then b.functionScopeOf scope else scope
          declarePattern t (visit scope) target kind declaration name
          visitPart scope initializer
        | _ => pure ()
    | data => data.children.forM (visit scope)

/-- Opens the scope of a source file and declares everything in it. -/
def declareAll (t : Tree) (root : NodeId) : Binder ScopeId := do
  let scope ← openScope .sourceFile root none
  (t.children root).forM (declareUpTo t (t.size + 1) scope)
  return scope

end Unchain.Binding

import Unchain.Binding.Declare
import Unchain.Grammar.SourceFile

/-!
# Resolving references

The second walk finds the symbol of every name that is used. Keys, member names and labels are no
references; a key in brackets is an expression like any other.
-/

namespace Unchain.Binding

open Syntax (Data NodeId Tree)

/-- Records what a name refers to, unless it declares something. -/
def resolveName (scope : ScopeId) (node : NodeId) (text : String) : Binder Unit :=
  modify fun b =>
    match b.symbolAt? node with
    | some _ => b
    | none =>
      match b.resolve? text scope with
      | some id =>
        { b with
          nodeSymbols := b.nodeSymbols.setIfInBounds node (some id)
          references := b.references.modify id (· ++ [node]) }
      | none => { b with unresolved := b.unresolved ++ [(node, text)] }

/-- The parts of a node in which names are references. -/
def referringParts (t : Tree) (data : Data) : List NodeId :=
  let key (name : Option NodeId) : List NodeId := if isComputedName t name then name.toList else []
  match data with
  | .access .property e _ _ => e.toList
  | .property .assigned name initializer => key name ++ initializer.toList
  | .propertyDeclaration p => key p.name ++ p.initializer.toList
  | .bindingElement _ propertyName name initializer =>
    key propertyName ++ name.toList ++ initializer.toList
  | .parameter p =>
    (if (t.partData? p.name).any Data.isIdentifier then [] else p.name.toList) ++
      p.initializer.toList
  | .labeled _ statement => statement.toList
  | .jump .. => []
  | .function _ f => f.parameters.nodes ++ f.body.toList
  | data => data.children

/-- The key in brackets of a method, which stands outside the scope of the method. -/
def outerKey (t : Tree) : Data → List NodeId
  | .function .declaration _ | .function .expression _ => []
  | .function _ f => if isComputedName t f.name then f.name.toList else []
  | _ => []

/-- Resolves every reference below a node that stands in a scope. -/
def resolveUpTo (t : Tree) : Nat → ScopeId → NodeId → Binder Unit
  | 0, _, _ => pure ()
  | fuel + 1, scope, id => do
    match t.data? id with
    | none => pure ()
    | some (.identifier text) => resolveName scope id text
    | some data =>
      (outerKey t data).forM (resolveUpTo t fuel scope)
      let inner := ((← get).scopeAt? id).getD scope
      (referringParts t data).forM (resolveUpTo t fuel inner)

/-- The bindings of a tree. -/
def Table.ofTree (t : Tree) (root : NodeId) : Table :=
  let start : Table :=
    { nodeSymbols := Array.replicate t.size none, nodeScopes := Array.replicate t.size none }
  let step : Binder Unit := do
    let scope ← declareAll t root
    resolveUpTo t (t.size + 1) scope root
  (step.run start).2

end Unchain.Binding

namespace Unchain

/-- A source file with its bindings. -/
structure SourceFile extends SourceTree where
  bindings : Binding.Table
  deriving Repr

/-- Reads a source file and binds its names. -/
def SourceFile.ofSource (fileName source : String) : SourceFile :=
  let s := SourceTree.ofSource fileName source
  { s with bindings := .ofTree s.tree s.root }

/-- Whether the source can be read without errors. -/
def SourceTree.isWellFormed (s : SourceTree) : Bool := s.errors.isEmpty

end Unchain

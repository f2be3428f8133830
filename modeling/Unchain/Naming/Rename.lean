import Unchain.Binding.Table
import Unchain.Syntax.Tree

/-!
# Renaming a binding

Gives a binding another name wherever it is introduced or referred to. A name in short form is an
object key too, so it gets its key written out: `{ x }` becomes `{ x: x_1 }`.
-/

namespace Unchain.Naming

open Syntax (Data Node NodeId Tree)

/-- Adds a name with the place of another node. -/
def addKey (t : Tree) (like : NodeId) (text : String) : NodeId × Tree :=
  let (pos, stop) := ((t.node? like).map fun node => (node.pos, node.stop)).getD (0, 0)
  t.add (.identifier text) pos stop {}

/-- Writes out the key of a name in short form. -/
def spellKey (t : Tree) (id : NodeId) (key : String) : Tree :=
  match t.parent? id with
  | none => t
  | some parent =>
    match t.data? parent with
    | some (.property .shorthand (some name) none) =>
      if name = id then
        let (key, t) := addKey t id key
        t.setData parent (.property .assigned (some key) (some id))
      else t
    | some (.bindingElement isRest none (some name) initializer) =>
      if name = id then
        let (key, t) := addKey t id key
        t.setData parent (.bindingElement isRest (some key) (some name) initializer)
      else t
    | _ => t

/-- Spells one name anew. -/
def respell (old new : String) (t : Tree) (id : NodeId) : Tree :=
  let t := spellKey t id old
  match t.data? id with
  | some (.identifier _) => t.setData id (.identifier new)
  | some (.privateIdentifier _) => t.setData id (.privateIdentifier new)
  | _ => t

/-- Spells a binding anew: the name that introduces it and the names that refer to it. -/
def rename (b : Binding.Table) (t : Tree) (id : Binding.SymbolId) (new : String) : Tree :=
  match b.symbol? id with
  | some symbol => (symbol.nameNode :: b.referencesOf id).foldl (respell symbol.name new) t
  | none => t

end Unchain.Naming

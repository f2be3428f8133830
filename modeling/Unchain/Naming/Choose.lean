import Unchain.Naming.Handlers
import Unchain.Naming.Rename
import Unchain.Text.Sorted

/-!
# Choosing names

The bindings of a function and of the handlers that are written into it come to stand in one
body. Each gets a name of its own, apart from all names that the body reads from outside and from
the names declared in functions that stay as they are. Values that had no binding get a name too:
that of the parameter that they are passed to, or `result`, or `e` for a reason for rejection.
-/

namespace Unchain.Naming

open Binding (Symbol SymbolId)
open Chain (Handler)
open Promise (Oracle)
open Syntax (Data Node NodeId Tree)

section

variable (source : Tree) (b : Binding.Table)

/-- Where a node starts. -/
def posOf (id : NodeId) : Nat := ((source.node? id).map Node.pos).getD 0

/-- Whether a node lies inside another one. -/
def isWithin (outer : Node) (id : NodeId) : Bool :=
  (source.node? id).any fun node => outer.pos ≤ node.pos && node.stop ≤ outer.stop

/-- The function that a binding belongs to. The name of a function declaration belongs to the
function around it. -/
def ownerOf? (symbol : Symbol) : Option NodeId :=
  match source.ancestors symbol.nameNode with
  | declaration :: rest =>
    match source.data? declaration with
    | some (.function .declaration _) => rest.find? source.isFunction
    | _ => (declaration :: rest).find? source.isFunction
  | [] => none

/-- The names inside a function that refer to nothing in the file. -/
def unresolvedWithin (outer : Node) : List String :=
  (b.unresolved.filter fun (id, _) => isWithin source outer id).map Prod.snd

/-- The names of bindings from outside that are used inside a function, in which the symbols
`inside` are declared. -/
def outerNamesWithin (outer : Node) (inside : List SymbolId) : List String :=
  (List.range b.symbols.size).filterMap fun id => do
    let symbol ← b.symbol? id
    if !inside.contains id && (b.referencesOf id).any (isWithin source outer) then
      some symbol.name
    else none

/-- Whether a binding belongs to one of these functions. -/
def belongsTo (owners : List NodeId) (id : SymbolId) : Bool :=
  (b.symbol? id).any fun symbol => (ownerOf? source symbol).any owners.contains

/-- Symbols in the order in which they are introduced in the text. -/
def inTextOrder (ids : List SymbolId) : List SymbolId :=
  let pos (id : SymbolId) : Nat := ((b.symbol? id).map fun s => posOf source s.nameNode).getD 0
  Text.stableSort (fun x y => pos x < pos y) ids

/-- The names that no binding may get: those that refer to nothing in the file, those of bindings
from outside, and those of bindings in functions that stay as they are. -/
def pinnedNames (outer : Node) (owners : List NodeId) : List String :=
  let inside := b.declaredBetween source outer.pos outer.stop
  let foreign := (inside.filter (!belongsTo source b owners ·)).filterMap fun id =>
    (b.symbol? id).map Symbol.name
  unresolvedWithin source b outer ++ outerNamesWithin source b outer inside ++ foreign

/-- The names chosen so far: the register, the tree with the new names, and the names of the
symbols. -/
structure Choice where
  register : Register
  tree : Tree
  names : List (SymbolId × String) := []
  deriving Repr

/-- Chooses the name of a binding: its own if that is free. -/
def chooseSymbol? (choice : Choice) (id : SymbolId) : Option Choice := do
  let symbol ← b.symbol? id
  let (name, register) ← choice.register.reserve? symbol.name
  let tree := if name = symbol.name then choice.tree else rename b choice.tree id name
  return ⟨register, tree, choice.names ++ [(id, name)]⟩

/-- Chooses the names of the bindings that belong to the owners, in the order of the text. -/
def chooseSymbols? (outer : Node) (owners : List NodeId) (t : Tree) : Option Choice :=
  let inside := b.declaredBetween source outer.pos outer.stop
  let start : Choice := ⟨(pinnedNames source b outer owners).foldl Register.pin {}, t, []⟩
  (inTextOrder source b (inside.filter (belongsTo source b owners))).foldlM (chooseSymbol? b) start

/-- The name from which the name of a value is made. -/
def baseName (o : Oracle) (handler : NodeId) (role : Role) : String :=
  let usual := match role with
    | .fulfillment => "result"
    | .rejection => "e"
  match source.data? handler with
  | some (.function .expression _) | some (.function .arrow _) => usual
  | _ => ((o.firstParameter? handler).filter (· ≠ "_")).getD usual

/-- Enters the binding that a handler reads its argument from. -/
def enterSite? (o : Oracle) (names : List (SymbolId × String)) (register : Register)
    (site : Site) : Option Register :=
  match siteKey? source b site with
  | some (.parameter symbol) =>
    match names.lookup symbol with
    | some name => some (register.insert (.parameter symbol) name)
    | none => some register
  | some (.minted handler) =>
    if (register.get? (.minted handler)).isSome then some register
    else do
      let (name, register) ← register.reserve? (baseName source o handler site.role)
      return register.insert (.minted handler) name
  | _ => some register

/-- The handlers that are converted along with chains in a function, in the order of the text. -/
def sitesInOrder (o : Oracle) (outer : Node) (chains : List NodeId) (t : Tree) : List Site :=
  let handlerPos (site : Site) : Nat :=
    ((site.handler.node?.bind source.node?).map Node.pos).getD outer.stop
  Text.stableSort (fun x y => handlerPos x < handlerPos y) (chains.flatMap (sitesOf t o))

/-- The functions whose bindings come to stand in one body: the function under conversion, and the
handlers that are written into it. -/
def ownersOf (function : NodeId) (sites : List Site) : List NodeId :=
  function :: sites.filterMap fun site =>
    match site.handler with
    | .literal id => some id
    | _ => none

/-- Chooses the names for the conversion of chains in a function: a register of them, and the
tree with the bindings renamed. No answer if there is no free name. -/
def choose? (o : Oracle) (function : NodeId) (chains : List NodeId) (t : Tree) :
    Option (Register × Tree) := do
  let outer ← source.node? function
  let sites := sitesInOrder source o outer chains t
  let choice ← chooseSymbols? source b outer (ownersOf function sites) t
  let register ← sites.foldlM (enterSite? source b o choice.names) choice.register
  return (register, choice.tree)

end

end Unchain.Naming

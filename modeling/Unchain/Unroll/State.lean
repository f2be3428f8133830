import Unchain.Chain.Successors
import Unchain.Naming.Handlers

/-!
# Unrolling chains

The state of a conversion that turns chains into statements: the tree that it adds nodes to, the
names of its bindings, and which links have a successor.

A step may meet code that it cannot convert. `attempt` then takes back the names of the step and
what it changed in returns, which it finds in the list `State.patched`. Nodes that were made stay
in the tree, where nothing refers to them, and what is known about successors stays too, since it
is true of the chain anyway.
-/

namespace Unchain.Unroll

open Chain (Successors)
open Naming (Key Register)
open Promise (Oracle)
open Syntax (Data Flags NodeId NodeList Tree)

/-- Where a value goes. -/
inductive Sink where
  /-- Out of the function. -/
  | returned
  /-- Into a binding. -/
  | binding (key : Key)
  /-- Nowhere. -/
  | discarded
  deriving DecidableEq, Repr, Inhabited

/-- Where the value of a link goes: to the next handler for values if there is one, or else where
the value of the whole chain goes. -/
structure Outlet where
  /-- The binding that the next handler reads, if it reads its argument. -/
  argument : Option Key := none
  final : Sink
  deriving DecidableEq, Repr, Inhabited

/-- The sink of a link with or without a successor. -/
def Outlet.sink (outlet : Outlet) (hasSuccessor : Bool) : Sink :=
  if hasSuccessor then (outlet.argument.map .binding).getD .discarded else outlet.final

/-- What a conversion changes. -/
structure State where
  tree : Tree
  register : Register
  successors : Successors := {}
  /-- The returns that came to return something else, each with the expression that it had before.
  The latest comes first. -/
  patched : List (NodeId × NodeId) := []
  deriving Repr

/-- What a conversion knows at some place of a chain. -/
structure Context where
  oracle : Oracle
  bindings : Binding.Table
  /-- Whether a `catch` can see failures here, so that promises must be awaited on return. -/
  inTry : Bool := false
  /-- How many more handlers with chains may be nested. -/
  nesting : Nat := Limits.handlerNesting

/-- A step that always succeeds. -/
abbrev Step := StateM State

/-- A step that may meet code that it cannot convert. -/
abbrev Attempt := OptionT Step

/-! ## Taking back -/

/-- Makes a return return the expression `e`. -/
def setReturned (t : Tree) (id e : NodeId) : Tree :=
  match t.data? id with
  | some (.leave .returns _) => t.setData id (.leave .returns (some e))
  | _ => t

/-- Gives returns back what they returned, in the order of the list. -/
def unpatch (patches : List (NodeId × NodeId)) (t : Tree) : Tree :=
  patches.foldl (fun t patch => setReturned t patch.1 patch.2) t

/-- Takes back what was done to returns since there were `mark` patches. -/
def State.unpatch (s : State) (mark : Nat) : State :=
  let count := s.patched.length - mark
  { s with tree := Unroll.unpatch (s.patched.take count) s.tree, patched := s.patched.drop count }

/-- Nothing is taken back if nothing was done. -/
theorem State.unpatch_length (s : State) : s.unpatch s.patched.length = s := by
  simp [State.unpatch, Unroll.unpatch]

/-- Makes an attempt. If it fails, its names and what it did to returns are taken back. -/
def attempt {α : Type} (a : Attempt α) : Step (Option α) := do
  let before ← get
  match ← a.run with
  | some result => return some result
  | none =>
    modify fun after => { after.unpatch before.patched.length with register := before.register }
    return none

/-- An attempt that succeeds keeps what it did. -/
theorem attempt_run_of_some {α : Type} {a : Attempt α} {before after : State} {result : α}
    (h : a.run.run before = (some result, after)) :
    (attempt a).run before = (some result, after) := by
  simp only [attempt, StateT.run_bind, StateT.run_get, pure_bind, h]
  rfl

/-- An attempt that fails leaves the names as they were, and takes its patches back. -/
theorem attempt_run_of_none {α : Type} {a : Attempt α} {before after : State}
    (h : a.run.run before = (none, after)) :
    (attempt a).run before =
      (none, { after.unpatch before.patched.length with register := before.register }) := by
  simp only [attempt, StateT.run_bind, StateT.run_get, pure_bind, h]
  rfl

/-- The result of an attempt that has one. -/
def orFail {α : Type} (result : Option α) : Attempt α := OptionT.mk (pure result)

/-! ## New nodes -/

/-- Adds a node that stands nowhere in the text. -/
def make (data : Data) (flags : Flags := {}) : Step NodeId := do
  let s ← get
  let (id, tree) := s.tree.add data 0 0 flags
  set { s with tree }
  return id

/-- A name. -/
def makeName (text : String) : Step NodeId := make (.identifier text)

/-- `await e`. -/
def makeAwait (e : Option NodeId) : Step NodeId := make (.unary .await e)

/-- `await e` for a promise and `e` for any other value. -/
def makeAwaited (isPromise : Bool) (e : Option NodeId) : Step (Option NodeId) :=
  if isPromise then some <$> makeAwait e else pure e

/-- `callee(arguments)`. -/
def makeCall (callee : NodeId) (arguments : List NodeId) : Step NodeId :=
  make (.call .call (some callee) none (some { nodes := arguments }))

/-- `return e;`. -/
def makeReturn (e : Option NodeId) : Step NodeId := make (.leave .returns e)

/-- `e;`. -/
def makeStatement (e : Option NodeId) : Step NodeId := make (.expressionStatement .statement e)

/-- `name = value;`. -/
def makeAssignment (name : String) (value : Option NodeId) : Step NodeId := do
  let target ← makeName name
  makeStatement (some (← make (.binary (some target) .equals value)))

/-- The declarator `name = value`. -/
def makeDeclarator (name : String) (value : Option NodeId) : Step NodeId := do
  make (.variableDeclaration (some (← makeName name)) false none value)

/-- `let name = value;` or `const name = value;`. -/
def makeVariable (name : String) (value : Option NodeId) (isLet : Bool) : Step NodeId := do
  let declarator ← makeDeclarator name value
  make (.variableList .statement none { nodes := [declarator] })
    { isLet, isConst := !isLet, synthesized := true }

/-- A block on lines of its own. -/
def makeBlock (statements : List NodeId) : Step NodeId :=
  make (.block .block { nodes := statements } true)

end Unchain.Unroll

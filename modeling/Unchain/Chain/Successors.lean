import Unchain.Chain.Link
import Unchain.Entries

/-!
# Successors

Which links have a successor: a later `then` of the same chain that does something with their
value. The value of such a link goes into a variable for that handler to read; the value of a link
without a successor is the value of the whole chain.

A `then` without a handler for values, and a `catch`, hand the value of their receiver on, so the
receiver has a successor if they have one. Entries are only ever raised (`get?_raise`).
-/

namespace Unchain.Chain

open Promise (Oracle)
open Syntax (NodeId Tree)

/-- For each link seen so far, whether it has a successor. -/
structure Successors where
  entries : List (NodeId × Bool) := []
  deriving DecidableEq, Repr, Inhabited

namespace Successors

/-- The entry of a link. -/
def get? (s : Successors) (link : NodeId) : Option Bool := s.entries.lookup link

/-- Whether a link is known to have a successor. -/
def has (s : Successors) (link : NodeId) : Bool := (s.get? link).getD false

/-- How many links have an entry. -/
def size (s : Successors) : Nat := s.entries.length

/-- Enters a link; an entry that is true stays true. -/
def raise (s : Successors) (link : NodeId) (value : Bool) : Successors :=
  ⟨Entries.put link (s.has link || value) s.entries⟩

/-- Entering a link changes the entry of that link alone. -/
theorem get?_raise (s : Successors) (link other : NodeId) (value : Bool) :
    (s.raise link value).get? other =
      if other = link then some (s.has link || value) else s.get? other := by
  simp [raise, get?, Entries.lookup_put]

/-- Enters the links of a spine. `consumed` says whether the value of the first one is used. -/
def markSpine (t : Tree) (o : Oracle) (consumed : Bool) (s : Successors) :
    List (Option NodeId × Link) → Successors
  | [] => s
  | (id, link) :: rest =>
    let entered := (id.map fun id => s.raise id consumed).getD s
    match link with
    | .thenCall _ _ onFulfilled _ =>
      markSpine t o (consumed || !(handlerOf t o onFulfilled).isAbsent) entered rest
    | .catchCall .. => markSpine t o consumed entered rest
    | .member _ => markSpine t o consumed s rest
    | .finallyCall _ | .promise => entered
    | .other => s

/-- Enters the links of a chain. -/
def mark (s : Successors) (t : Tree) (o : Oracle) (e : Option NodeId) (consumed : Bool) :
    Successors :=
  s.markSpine t o consumed (spine t o e)

end Successors

end Unchain.Chain

import Unchain.Syntax.Tree

/-!
# Binding levels

How tight an expression binds, from the comma to primary expressions. An expression is printed in
parentheses where something tighter is asked for.
-/

namespace Unchain.Printer

open Syntax (Data NodeId Tree)
open Token (Kind)

namespace Level

def comma : Nat := 0
def assignment : Nat := 1
def conditional : Nat := 2
def coalesce : Nat := 3
def relational : Nat := 10
def exponent : Nat := 14
def unary : Nat := 15
def suffix : Nat := 16
def leftHand : Nat := 17
def primary : Nat := 18

/-- The level of a binary operator. -/
def ofOperator (operator : Kind) : Nat :=
  if operator.isAssignment then assignment
  else
    match operator with
    | .comma => comma
    | .questionQuestion => coalesce
    | .orOr => 4
    | .andAnd => 5
    | .bar => 6
    | .caret => 7
    | .ampersand => 8
    | .equalsEquals | .notEquals | .strictEquals | .strictNotEquals => 9
    | .lessThan | .greaterThan | .lessEquals | .greaterEquals | .instanceofKeyword
    | .inKeyword => relational
    | .shiftLeft | .shiftRight | .shiftRightUnsigned => 11
    | .plus | .minus => 12
    | .asterisk | .slash | .percent => 13
    | .power => exponent
    | _ => primary

/-- The level of an expression. -/
def ofData : Data → Nat
  | .binary _ operator _ => ofOperator operator
  | .function .arrow _ | .unary (.yield _) _ | .unary .spread _ => assignment
  | .conditional .. => conditional
  | .assertion .. => relational
  | .prefixed .. | .unary .delete _ | .unary .typeof _ | .unary .void _ | .unary .await _ => unary
  | .suffixed .. => suffix
  | .call .new _ _ none => suffix
  | .call .. | .access .. | .taggedTemplate .. | .unary .nonNull _ => leftHand
  | _ => primary

end Level

/-- The part of an expression that its text starts with, if it is an expression too. -/
def leftPart : Data → Option NodeId
  | .call .call callee _ _ => callee
  | .access _ e _ _ => e
  | .binary left _ _ => left
  | .conditional condition _ _ => condition
  | .suffixed _ operand => operand
  | .unary .nonNull e => e
  | .assertion _ e _ => e
  | .taggedTemplate tag _ => tag
  | _ => none

/-- The expression that the text of an expression starts with. -/
def leftmost (t : Tree) (id : Option NodeId) : Option NodeId := go (t.size + 1) id
where
  go : Nat → Option NodeId → Option NodeId
    | 0, id => id
    | fuel + 1, id =>
      match (t.partData? id).bind leftPart with
      | some next => go fuel (some next)
      | none => id

/-- Whether a call stands at the left end of a chain of accesses. -/
def callOnLeft (t : Tree) (id : Option NodeId) : Bool := go (t.size + 1) id
where
  go : Nat → Option NodeId → Bool
    | 0, _ => false
    | fuel + 1, id =>
      match t.partData? id with
      | some (.call .call ..) => true
      | some (.access _ e _ _) => go fuel e
      | _ => false

end Unchain.Printer

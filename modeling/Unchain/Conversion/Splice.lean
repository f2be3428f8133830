import Unchain.Chain.Group
import Unchain.Printer.Print
import Unchain.Syntax.Scope
import Unchain.Text.Alphabet
import Unchain.Text.Edit
import Unchain.Text.Find
import Unchain.Unroll.Link

/-!
# Splicing statements into the text

The edits of a conversion. The statements of a group are replaced as one stretch, and the text
around them stays as it is. Statements that share a line with other code move to lines of their
own. The function gets the word `async` put in front of it.
-/

namespace Unchain.Conversion

open Chain (Group)
open Printer (Layout)
open Syntax (Data Node NodeId Tree)
open Text (Edit Span byteLength dropBytes? takeBytes? trimBlanks)
open Unroll (Unrolled)

section

variable (source : List Char)

/-- What stands before a position on its line. -/
def lineBefore (pos : Nat) : List Char :=
  (((takeBytes? pos source).getD []).reverse.takeWhile (· ≠ '\n')).reverse

/-- What stands after a position on its line. -/
def lineAfter (pos : Nat) : List Char :=
  ((dropBytes? pos source).getD []).takeWhile (· ≠ '\n')

/-- A character that lines are indented with. -/
def isIndent (c : Char) : Bool := c = ' ' || c = '\t'

/-- The indentation of the line that holds a position. -/
def indentOf (pos : Nat) : List Char :=
  (lineBefore source pos ++ lineAfter source pos).takeWhile isIndent

/-- Whether code stands before a position on its line. -/
def sharesLineBefore (pos : Nat) : Bool := !(trimBlanks (lineBefore source pos)).isEmpty

/-- Whether code stands after a position on its line; a line comment may stay there. -/
def sharesLineAfter (pos : Nat) : Bool :=
  let rest := trimBlanks (lineAfter source pos)
  !rest.isEmpty && !(['/', '/'].isPrefixOf rest)

/-- How many spaces and tabs stand right before a position. -/
def indentsBefore (pos : Nat) : Nat := ((lineBefore source pos).reverse.takeWhile isIndent).length

/-- How many spaces and tabs stand right after a position. -/
def indentsAfter (pos : Nat) : Nat := ((lineAfter source pos).takeWhile isIndent).length

/-- The edit that puts a block in place of an arrow's body. -/
def bodyEdit (layout : Layout) (t : Tree) (statements : List NodeId) (start stop : Nat) : Edit :=
  let (block, t) := t.add (.block .block { nodes := statements } true) 0 0 {}
  let layout := { layout with baseIndent := String.ofList (indentOf source start) }
  ⟨.ofBounds start stop, Printer.printNode t layout block⟩

/-- The edit that puts statements in place of a stretch of statements. -/
def statementsEdit (layout : Layout) (t : Tree) (statements : List NodeId) (start stop : Nat) :
    Edit :=
  let outer := String.ofList (indentOf source start)
  let isMoved := sharesLineBefore source start
  let base := if isMoved then outer ++ "".pushn ' ' layout.indentSize else outer
  let printed := Printer.printStatements t { layout with baseIndent := base } statements
  let opened := if isMoved then layout.newLine ++ base ++ printed else printed
  let start := if isMoved then start - indentsBefore source start else start
  if sharesLineAfter source stop then
    ⟨.ofBounds start (stop + indentsAfter source stop), opened ++ layout.newLine ++ outer⟩
  else ⟨.ofBounds start stop, opened⟩

/-- The edit that puts new statements in place of a group, where `t` holds the new statements and
`written` the group. A single statement that is kept as written needs no edit. -/
def groupEdit? (layout : Layout) (written t : Tree) (group : Group) (unrolled : Unrolled) :
    Option Edit := do
  if unrolled.isVerbatim ∧ group.statements.length = 1 then none
  else
    let first ← written.part? group.first?
    let last ← written.part? group.root?
    let edit := if group.kind = .arrowBody then bodyEdit else statementsEdit
    return edit source layout t unrolled.statements first.pos last.stop

/-- Where a word first stands between two positions. -/
def wordBetween? (word : String) (start stop : Nat) : Option Nat := do
  let text ← Text.slice? source start stop
  return start + byteLength (← Text.before? word.toList text)

/-- Where the word `async` has to stand for a function. -/
def asyncPosition? (t : Tree) (function : NodeId) : Option Nat := do
  let node ← t.node? function
  let .function kind f := node.data | none
  match kind with
  | .declaration | .expression =>
    let modifier := (Data.listNodes f.modifiers).getLast?.bind t.node?
    wordBetween? source "function" ((modifier.map Node.stop).getD node.pos) node.stop
  | .method => (t.part? f.name).map Node.pos
  | .arrow => some node.pos
  | _ => none

/-- The edit that makes a function async, unless it is. -/
def asyncEdit? (t : Tree) (function : NodeId) : Option Edit :=
  match t.data? function with
  | some (.function _ { isAsync := false, .. }) =>
    (asyncPosition? source t function).map fun pos => ⟨⟨pos, 0⟩, "async "⟩
  | _ => none

end

end Unchain.Conversion

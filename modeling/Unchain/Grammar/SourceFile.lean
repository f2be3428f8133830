import Unchain.Grammar.Statements
import Unchain.Text.Sorted

/-!
# Source files

Ties the rules together and reads a whole source file. A nested rule gets less fuel than the rule
around it, and a rule without fuel gives nothing; the fuel exceeds the nesting of any text.
-/

namespace Unchain.Grammar

open Syntax (NodeId NodeList Tree)

/-- Runs a rule whose nested rules may nest `fuel` times. -/
def run : Nat → Rules
  | 0, _ => failure
  | fuel + 1, rule =>
    let rules := run fuel
    match rule with
    | .expression => expressionBody rules
    | .assignment => nested (assignmentBody rules)
    | .binary level => binaryBody rules level
    | .unary => unaryBody rules
    | .leftHand => leftHandBody rules
    | .construction => constructionBody rules
    | .statement => nested (statementBody rules)
    | .block => blockBody rules
    | .bindingName => bindingNameBody rules
    | .type => nested (typeBody rules)
    | .union => unionBody rules
    | .resultType => resultTypeBody rules
    | .typeArguments => typeArgumentsBody rules
    | .templateRest => do
      skipTemplate rules
      return none

/-- Reads one statement at the top into a list. A closing brace is reported and passed over. -/
def topStatementInto (rules : Rules) (nodes : Array NodeId) : Reader (Array NodeId) := do
  if ← at? .closeBrace then
    errorHere .statementExpected
    advance
    return nodes
  else statementInto rules nodes

/-- Statements up to the end of the text. -/
def topLevel (rules : Rules) : Reader NodeList := do
  let pos ← tokenPos
  let nodes ← repeating #[] fun nodes => do
    if ← at? .endOfFile then return .done nodes
    else return .again (← topStatementInto rules nodes)
  return listOf nodes pos (← tokenPos) false

/-- Errors of the tokens and of the syntax, by position. -/
def allErrors (s : State) : List SourceError :=
  Text.stableSort (fun a b => a.start < b.start) (s.errors ++ s.scanner.errors).toList

/-- A source file. -/
def sourceFile (rules : Rules) (fileName : String) : Reader (Option NodeId) := do
  advance
  let statements ← topLevel rules
  let stop ← tokenStop
  let endOfFile ← makeBetween (.token .endOfFile) stop stop {}
  makeBetween (.sourceFile fileName statements endOfFile) 0 stop {}

/-- A reader before the first token of a text. -/
def State.ofText (text : List Char) : State :=
  { text, limit := text.length + 2, scanner := Token.Scanner.ofText text true }

/-- Fuel for a text: more than the rules that one token can open, for every token, and than the
guarded nesting. -/
def fuelFor (text : List Char) : Nat := 40 * (text.length + 50)

end Unchain.Grammar

namespace Unchain

open Syntax (NodeId Tree)

/-- A source file after reading: its tree and the errors in it. -/
structure SourceTree where
  fileName : String
  source : String
  tree : Tree
  root : NodeId
  errors : List SourceError
  deriving Repr

namespace SourceTree

/-- Reads a source file. -/
def ofSource (fileName source : String) : SourceTree :=
  let text := source.toList
  match (Grammar.sourceFile (Grammar.run (Grammar.fuelFor text)) fileName).run (.ofText text) with
  | some (root, s) =>
    { fileName, source, tree := s.tree, root := root.getD 0, errors := Grammar.allErrors s }
  | none => { fileName, source, tree := {}, root := 0, errors := [] }

/-- The statements at the top of the file. -/
def statements (s : SourceTree) : List NodeId :=
  ((s.tree.statements? s.root).map Syntax.NodeList.nodes).getD []

end SourceTree

end Unchain

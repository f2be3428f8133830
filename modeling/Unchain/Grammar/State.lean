import Unchain.Limits
import Unchain.Syntax.Tree
import Unchain.Token.Scanner

/-!
# Reading syntax

The state of a reader of source text and its elementary steps: look at a token, accept or demand
it, report an error, look ahead, make a node.

A reader stands on one token. Nodes end where the last accepted token ends. Of two errors in a row
at one position only the first is kept. Looking ahead returns to the token, and forgets the errors
found on the way; it makes no nodes.
-/

namespace Unchain.Grammar

open Syntax (Data Flags NodeId NodeList Tree)
open Token (Kind)

/-- Which words are operators at the current place. -/
structure Context where
  /-- `await` is an operator. -/
  awaits : Bool := true
  /-- `yield` is an operator. -/
  yields : Bool := false
  /-- `in` is no operator, as in the head of a loop. -/
  noIn : Bool := false
  deriving DecidableEq, Repr, Inhabited

/-- A reader of a source text. -/
structure State where
  text : List Char
  /-- More than the tokens that the text can have. -/
  limit : Nat
  scanner : Token.Scanner
  tree : Tree := {}
  /-- Where the last accepted token ends. -/
  lastStop : Nat := 0
  context : Context := {}
  /-- How many guarded rules are being read. -/
  depth : Nat := 0
  errors : Array SourceError := #[]
  deriving Repr

/-- A step of a reader. It gives nothing if a bound on nesting or repetition ends it. -/
abbrev Reader := StateT State Option

/-- How a repetition goes on. -/
inductive Turn (σ : Type) where
  | again (value : σ)
  | done (value : σ)

/-- Repeats a step until it is done, if there is fuel enough. -/
def repeatUpTo {σ : Type} (step : σ → Reader (Turn σ)) : Nat → σ → Reader σ
  | 0, _ => failure
  | fuel + 1, value => do
    match ← step value with
    | .again value => repeatUpTo step fuel value
    | .done value => pure value

/-- Repeats a step that accepts a token whenever it is not done. -/
def repeating {σ : Type} (value : σ) (step : σ → Reader (Turn σ)) : Reader σ := do
  repeatUpTo step (← get).limit value

/-! ## Tokens -/

/-- The kind of the current token. -/
def kind : Reader Kind := return (← get).scanner.cursor.kind

/-- Whether the current token is of a kind. -/
def at? (k : Kind) : Reader Bool := return (← kind) = k

/-- Whether the current token is of one of the kinds. -/
def atAny? (ks : List Kind) : Reader Bool := return ks.contains (← kind)

/-- Where the current token starts. -/
def tokenPos : Reader Nat := return (← get).scanner.cursor.start

/-- Where the current token ends. -/
def tokenStop : Reader Nat := return (← get).scanner.cursor.stop

/-- Where the last accepted token ends. -/
def lastStop : Reader Nat := return (← get).lastStop

/-- Whether a line ends before the current token. -/
def lineBreakBefore : Reader Bool := return (← get).scanner.cursor.lineBreakBefore

/-- The value of the current token. -/
def tokenValue : Reader String := return (← get).scanner.cursor.value

/-- Whether the current token is a name with this text. -/
def atWord? (word : String) : Reader Bool :=
  return (← kind) = .identifier && (← tokenValue) == word

/-- Accepts the current token. -/
def advance : Reader Unit :=
  modify fun s => { s with lastStop := s.scanner.cursor.stop, scanner := s.scanner.scan }

/-- Reads the current token in another way. -/
def rescan (f : Token.Scanner → Token.Scanner) : Reader Unit :=
  modify fun s => { s with scanner := f s.scanner }

/-! ## Errors -/

/-- Reports an error, unless the last one is at the same position. -/
def errorAt (start length : Nat) (notice : Notice) : Reader Unit :=
  modify fun s =>
    if s.errors.back?.any (·.start = start) then s
    else { s with errors := s.errors.push ⟨start, length, notice⟩ }

/-- Reports an error at the current token. -/
def errorHere (notice : Notice) : Reader Unit := do
  let start ← tokenPos
  errorAt start ((← tokenStop) - start) notice

/-- How many errors there are. -/
def errorCount : Reader Nat := return (← get).errors.size

/-! ## Accepting tokens -/

/-- Accepts the current token if it is of a kind. -/
def accept (k : Kind) : Reader Bool := do
  if ← at? k then
    advance
    return true
  else
    return false

/-- Accepts a token of a kind or reports that it is missing. -/
def expect (k : Kind) : Reader Bool := do
  if ← accept k then
    return true
  else
    errorHere (.tokenExpected (k.spelling?.getD "token"))
    return false

/-- Whether a statement may end before the current token. -/
def canEndStatement : Reader Bool :=
  return (← atAny? [.semicolon, .closeBrace, .endOfFile]) || (← lineBreakBefore)

/-- The end of a statement: a semicolon, or a place where one may be left out. -/
def endStatement : Reader Unit := do
  if !(← accept .semicolon) then
    if !(← canEndStatement) then
      let _ ← expect .semicolon

/-! ## Looking ahead -/

/-- Runs a step and returns to the current token; errors found by the step are forgotten. -/
def lookAhead {α : Type} (step : Reader α) : Reader α := do
  let before ← get
  let result ← step
  modify fun s => { s with
    scanner := s.scanner.restore before.scanner.save
    lastStop := before.lastStop
    errors := s.errors.take before.errors.size }
  return result

/-- Whether the next token is of a kind. -/
def nextIs (k : Kind) : Reader Bool := lookAhead do
  advance
  at? k

/-- Whether the next token is on the same line and of a kind with the property. -/
def nextOnLine (p : Kind → Bool) : Reader Bool := lookAhead do
  advance
  return !(← lineBreakBefore) && p (← kind)

/-! ## Nesting and context -/

/-- Runs a rule one level deeper, or reports an error at the limit. -/
def nested (rule : Reader (Option NodeId)) : Reader (Option NodeId) := do
  if (← get).depth ≥ Limits.grammarDepth then
    errorHere .expressionExpected
    return none
  else
    modify fun s => { s with depth := s.depth + 1 }
    let result ← rule
    modify fun s => { s with depth := s.depth - 1 }
    return result

/-- Runs a rule in another context. -/
def inContext {α : Type} (f : Context → Context) (rule : Reader α) : Reader α := do
  let context := (← get).context
  modify fun s => { s with context := f context }
  let result ← rule
  modify fun s => { s with context }
  return result

/-- Runs a rule where `in` is an operator. -/
def allowingIn {α : Type} (rule : Reader α) : Reader α :=
  inContext (fun c => { c with noIn := false }) rule

/-- Runs a rule where `in` is no operator. -/
def withoutIn {α : Type} (rule : Reader α) : Reader α :=
  inContext (fun c => { c with noIn := true }) rule

/-- Runs a rule inside a function. -/
def inFunction {α : Type} (isAsync isGenerator : Bool) (rule : Reader α) : Reader α :=
  inContext (fun _ => { awaits := isAsync, yields := isGenerator }) rule

/-! ## Nodes -/

/-- Makes a node between two positions. -/
def makeBetween (data : Data) (pos stop : Nat) (flags : Flags) : Reader (Option NodeId) := do
  let s ← get
  let (id, tree) := s.tree.add data pos stop flags
  set { s with tree }
  return some id

/-- Makes a node from `pos` to the end of the last accepted token. -/
def make (data : Data) (pos : Nat) : Reader (Option NodeId) := do
  makeBetween data pos (← lastStop) {}

/-- Makes a node like `make` with marks. -/
def makeFlagged (data : Data) (pos : Nat) (flags : Flags) : Reader (Option NodeId) := do
  makeBetween data pos (← lastStop) flags

/-- The source text between two positions. -/
def sourceText (start stop : Nat) : Reader String :=
  return String.ofList (Text.slice (← get).text start stop)

/-- Makes a node that keeps the text from `pos` to the end of the last accepted token. -/
def makeVerbatim (k : Syntax.VerbatimKind) (pos : Nat) : Reader (Option NodeId) := do
  let text ← sourceText pos (← lastStop)
  make (.verbatim k text) pos

/-- Accepts the current token and makes a node of it. -/
def tokenNode : Reader (Option NodeId) := do
  let pos ← tokenPos
  let k ← kind
  advance
  make (.token k) pos

/-! ## Names -/

/-- Whether the current token can be a name that is bound or referred to. -/
def atIdentifier? : Reader Bool := do
  let k ← kind
  let context := (← get).context
  return k.isIdentifierLike && !(k = .yieldKeyword && context.yields) &&
    !(k = .awaitKeyword && context.awaits)

/-- Accepts the current token as a name. -/
def nameNode : Reader (Option NodeId) := do
  let pos ← tokenPos
  let text ← tokenValue
  advance
  make (.identifier text) pos

/-- A name that is bound or referred to. -/
def identifier : Reader (Option NodeId) := do
  if ← atIdentifier? then nameNode
  else
    errorHere .identifierExpected
    return none

/-- The name of a member: any word, or a private name. -/
def memberName : Reader (Option NodeId) := do
  let k ← kind
  if k = .privateIdentifier then
    let pos ← tokenPos
    let text ← tokenValue
    advance
    make (.privateIdentifier text) pos
  else if k = .identifier || k.isKeyword then nameNode
  else
    errorHere .identifierExpected
    return none

/-! ## Rules -/

/-- The rules that nest. -/
inductive Rule where
  /-- An expression with commas. -/
  | expression
  /-- An expression without commas. -/
  | assignment
  /-- Operators that bind tighter than a level. -/
  | binary (level : Nat)
  | unary
  /-- A primary expression with the accesses and calls after it. -/
  | leftHand
  /-- `new X(…)`. -/
  | construction
  | statement
  | block
  /-- A name or a pattern that is bound. -/
  | bindingName
  /-- A type; types are read over and make no node. -/
  | type
  /-- Types with `|` and `&` between them. -/
  | union
  /-- The type that a function returns. -/
  | resultType
  /-- Types in `<` and `>`. -/
  | typeArguments
  /-- A template with substitutions that is read over. -/
  | templateRest
  deriving DecidableEq, Repr

/-- What to do for a nested rule. -/
abbrev Rules := Rule → Reader (Option NodeId)

end Unchain.Grammar

import Unchain.CommandLine.Arguments
import Unchain.Conversion.File
import Unchain.Report.Json
import Unchain.Text.LineMap

/-!
# Outcomes

What a command finds out about one file. A file that cannot be read without errors gets its errors
and nothing else.
-/

namespace Unchain.CommandLine

open Report (Json)
open Text (Edit LineMap)

/-- Which functions of a file to convert. -/
inductive Target where
  | all
  | position (offset : Nat)
  | lineColumn (line column : Nat)
  | function (name : String)
  deriving DecidableEq, Repr, Inhabited

/-- The functions that a command chooses. -/
def Arguments.target (a : Arguments) : Target :=
  match a.position, a.line, a.column, a.function with
  | some offset, _, _, _ => .position offset
  | none, some line, some column, _ => .lineColumn line column
  | none, _, _, some name => .function name
  | none, _, _, none => .all

/-- What was found out about a file. -/
structure Outcome where
  path : String
  source : String
  errors : List Diagnostic := []
  suggestions : List Diagnostic := []
  edits : List Edit := []
  convertedFunctions : Nat := 0
  deriving DecidableEq, Repr, Inhabited

namespace Outcome

/-- Whether the file cannot be read without errors. -/
def hasErrors (o : Outcome) : Bool := !o.errors.isEmpty

/-- Whether there is something to change. -/
def isChanged (o : Outcome) : Bool := !o.edits.isEmpty

/-- The text with the edits made. -/
def text (o : Outcome) : Option String := Edit.applyTo o.source o.edits

/-- The edits for the chosen functions, and how many functions they convert. -/
def editsFor (settings : Settings) (s : SourceFile) (target : Target) : List Edit × Nat :=
  let ofOne (edits : List Edit) : List Edit × Nat := (edits, if edits.isEmpty then 0 else 1)
  match target with
  | .position offset => ofOne (settings.editsAt s offset)
  | .lineColumn line column =>
    match (LineMap.ofText s.source.toList).ofLineColumn? line column with
    | some offset => ofOne (settings.editsAt s offset)
    | none => ([], 0)
  | .function name => ofOne (settings.editsNamed s name)
  | .all =>
    let conversions := settings.conversions s
    (conversions.flatMap Conversion.edits, conversions.length)

/-- The outcome for a file. With `onlySuggest` nothing is converted. -/
def ofSource (settings : Settings) (target : Target) (onlySuggest : Bool) (path source : String) :
    Outcome :=
  let s := SourceFile.ofSource path source
  if s.isWellFormed then
    let (edits, convertedFunctions) := if onlySuggest then ([], 0) else editsFor settings s target
    { path, source, suggestions := settings.suggestions s, edits, convertedFunctions }
  else { path, source, errors := s.errors.map (·.toDiagnostic path) }

/-- A diagnostic in the report for machines. -/
def diagnosticJson (d : Diagnostic) : Json :=
  .object [("category", .text d.category.label), ("code", .number d.code), ("file", .text d.file),
    ("start", .number d.start), ("length", .number d.length), ("messageText", .text d.messageText)]

/-- An edit in the report for machines. -/
def editJson (e : Edit) : Json :=
  let span : Json := .object [("start", .number e.span.start), ("length", .number e.span.length)]
  .object [("span", span), ("newText", .text e.newText)]

/-- An outcome in the report for machines. -/
def toJson (o : Outcome) : Json :=
  .object [("path", .text o.path), ("parseErrors", .array (o.errors.map diagnosticJson)),
    ("suggestions", .array (o.suggestions.map diagnosticJson)),
    ("edits", .array (o.edits.map editJson)), ("convertedFunctions", .number o.convertedFunctions)]

end Outcome

end Unchain.CommandLine

import Unchain.Diagnostic
import Unchain.Report.Style
import Unchain.Text.LineMap

/-!
# Reports for people

A diagnostic is reported as `file:line:column - category code: message`, followed by the line that
it is about with its place underlined.
-/

namespace Unchain.Report

open Text (LineMap byteLength dropBytes?)

/-- The style of a category. -/
def styleOf : Category → Style
  | .error => .boldRed
  | .warning => .boldYellow
  | .suggestion => .boldBlue
  | .message => .boldCyan

/-- The rest of a text up to the next line feed, without a carriage return right before that. -/
def restOfLine (text : List Char) : List Char :=
  let line := text.takeWhile (· ≠ '\n')
  if line.length < text.length ∧ line.getLast? = some '\r' then line.dropLast else line

/-- A number with blanks in front of it up to a width. -/
def padLeft (width n : Nat) : String :=
  let digits := toString n
  "".pushn ' ' (width - digits.length) ++ digits

/-- The line that a diagnostic is about, with its place underlined as far as the line goes. There
is none for a diagnostic without a length. -/
def snippet? (color : Bool) (lines : LineMap) (d : Diagnostic) : Option String := do
  if d.length = 0 then none
  else
    let (line, column) := lines.lineColumn d.start
    let text ← dropBytes? (← lines.lineStart? (line - 1)) lines.text
    if text.isEmpty then none
    else
      let shown := restOfLine text
      let width := max 1 (min d.length (shown.length - (column - 1)))
      return "\n  " ++ padLeft 3 line ++ "   " ++ String.ofList shown ++ "\n        " ++
        "".pushn ' ' (column - 1) ++ Style.red.apply color ("".pushn '~' width)

/-- The report of a diagnostic. -/
def renderOne (color : Bool) (lines : LineMap) (d : Diagnostic) : String :=
  let (line, column) := lines.lineColumn d.start
  d.file ++ ":" ++ toString line ++ ":" ++ toString column ++ " - " ++
    (styleOf d.category).apply color d.category.label ++ " " ++
    Style.brightBlue.apply color ("TS" ++ toString d.code) ++ ": " ++ d.messageText ++
    (snippet? color lines d).getD ""

/-- The report of the diagnostics of a source. -/
def render (color : Bool) (source : String) (diagnostics : List Diagnostic) : String :=
  let lines := LineMap.ofText source.toList
  "\n".intercalate (diagnostics.map (renderOne color lines))

/-- The line above a file when several are printed. -/
def header (color : Bool) (path : String) : String :=
  Style.bold.apply color ("==> " ++ path ++ " <==")

/-- The line that says what was written to a file. -/
def written (color : Bool) (path : String) (functions : Nat) : String :=
  let noun := if functions = 1 then "function" else "functions"
  Style.green.apply color "converted" ++ " " ++ toString functions ++ " " ++ noun ++ " in " ++ path

end Unchain.Report

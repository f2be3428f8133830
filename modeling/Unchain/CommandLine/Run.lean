import Unchain.CommandLine.Disk
import Unchain.CommandLine.Outcome
import Unchain.Config.Names
import Unchain.Report.Render

/-!
# Running a command

A command is a function from the files to a status, a text to print, and the files afterwards.
Files with errors are never written.
-/

namespace Unchain.CommandLine

open Report (Json)

/-- Why a command cannot be carried out. -/
inductive RunError where
  | badConfig (path : String)
  | missingInput (path : String)
  | unreadable (path : String)
  | badEdit (path : String)
  deriving DecidableEq, Repr, Inhabited

/-- What to tell the user about a command that cannot be carried out. -/
def RunError.message : RunError → String
  | badConfig path => "failed to load config " ++ path
  | missingInput path => path ++ " does not exist"
  | unreadable path => "failed to read " ++ path
  | badEdit path => "an edit ends before it starts in " ++ path

/-- What a command does. -/
structure Result where
  status : Nat
  output : String
  disk : Disk
  deriving DecidableEq, Repr, Inhabited

/-- The settings of a command, with the names of the configuration that it gives. -/
def settingsOf (disk : Disk) (a : Arguments) : Except RunError Settings := do
  let names ← match a.config with
    | none => pure {}
    | some path =>
      match (disk.read? path).bind Config.readNames? with
      | some names => pure names
      | none => .error (.badConfig path)
  return { names, layout := { indentSize := a.indent.getD 4 } }

/-- The files that paths stand for. -/
def filesOf (disk : Disk) (paths : List String) : Except RunError (List String) := do
  let files ← paths.mapM fun path =>
    match disk.expand? path with
    | some files => .ok files
    | none => .error (.missingInput path)
  return Disk.inOrder files.flatten

/-- The outcome for the file at a path. -/
def outcomeOf (disk : Disk) (settings : Settings) (a : Arguments) (path : String) :
    Except RunError Outcome :=
  match disk.read? path with
  | some source => .ok (.ofSource settings a.target a.list path source)
  | none => .error (.unreadable path)

/-- The text with the edits made. -/
def textOf (o : Outcome) : Except RunError String :=
  match o.text with
  | some text => .ok text
  | none => .error (.badEdit o.path)

/-- What is printed about an outcome. -/
def reportOne (a : Arguments) (withHeader : Bool) (o : Outcome) : Except RunError String := do
  let color := !a.noColor
  if o.hasErrors then return Report.render color o.source o.errors ++ "\n"
  if a.list then
    return if o.suggestions.isEmpty then "" else Report.render color o.source o.suggestions ++ "\n"
  if !o.isChanged then return ""
  if a.write then return Report.written color o.path o.convertedFunctions ++ "\n"
  let text ← textOf o
  let header := if withHeader then Report.header color o.path ++ "\n" else ""
  let ending := if text.toList.getLast? = some '\n' then "" else "\n"
  return header ++ text ++ ending

/-- What is printed about all outcomes. -/
def report (a : Arguments) (outcomes : List Outcome) : Except RunError String :=
  if a.json then .ok ((Json.array (outcomes.map Outcome.toJson)).pretty ++ "\n")
  else return String.join (← outcomes.mapM (reportOne a (1 < outcomes.length)))

/-- Writes the texts that were changed. -/
def writeAll (disk : Disk) (outcomes : List Outcome) : Except RunError Disk :=
  (outcomes.filter fun o => o.isChanged && !o.hasErrors).foldlM
    (fun disk o => return disk.write o.path (← textOf o)) disk

/-- Carries out a command. The status is one if some file has errors. -/
def run (disk : Disk) (a : Arguments) : Except RunError Result := do
  let settings ← settingsOf disk a
  let files ← filesOf disk a.files
  let outcomes ← files.mapM (outcomeOf disk settings a)
  let written ← if a.write && !a.list then writeAll disk outcomes else pure disk
  return {
    status := if outcomes.any Outcome.hasErrors then 1 else 0
    output := ← report a outcomes
    disk := written }

end Unchain.CommandLine

import Unchain.CommandLine.Run

/-!
# The program

Reads the files that the arguments name, carries out the command, prints what it says and writes
the files that it changed. The status is that of the command; it is one if the command cannot be
carried out and two if the arguments are no command.
-/

namespace Unchain.CommandLine

/-- Whether there is a directory at a path. -/
def isDirectoryAt (path : String) : IO Bool := do
  match ← (IO.FS.realPath path).toBaseIO with
  | .ok place => place.isDir
  | .error _ => return false

/-- Adds the file at a path, if there is one. -/
def loadFile (disk : Disk) (path : String) : IO Disk := do
  match ← (IO.FS.realPath path).toBaseIO with
  | .ok _ => return disk.addFile path (← (IO.FS.readFile path).toBaseIO).toOption
  | .error _ => return disk

/-- Adds the directory at a path and the source files below it. -/
partial def loadDirectory (disk : Disk) (path : String) : IO Disk := do
  let entries ← (← IO.FS.realPath path).readDir
  entries.foldlM (fun disk entry => do
    let inner := Path.join path entry.fileName
    if ← isDirectoryAt inner then
      if Path.isSkipped entry.fileName then return disk else loadDirectory disk inner
    else if Path.isSourceFile inner then loadFile disk inner
    else return disk) (disk.addDirectory path)

/-- Adds what is at a path and the directories on the way to it. -/
def load (disk : Disk) (path : String) : IO Disk := do
  let disk ← (Path.steps path).foldlM (fun disk step => do
    return if ← isDirectoryAt step then disk.addDirectory step else disk) disk
  if ← isDirectoryAt path then loadDirectory disk path else loadFile disk path

/-- Carries out a command on the files that are there. -/
def execute (a : Arguments) : IO UInt32 := do
  let out ← IO.getStdout
  let current := (Path.segments (← IO.currentDir).toString).filter (· ≠ "")
  let disk ← (a.files ++ a.config.toList).foldlM load { current }
  let noColor := a.noColor || !(← out.isTty)
  match run disk { a with noColor } with
  | .error e =>
    (← IO.getStderr).putStrLn ("Error: " ++ e.message)
    return 1
  | .ok result =>
    for file in result.disk.changedSince disk do
      IO.FS.writeFile (Path.ofNames file.names) (file.text.getD "")
    out.putStr result.output
    return result.status.toUInt32

end Unchain.CommandLine

open Unchain.CommandLine in
/-- The program. -/
def main (arguments : List String) : IO UInt32 := do
  match Arguments.ofList arguments with
  | .ok a => execute a
  | .error .helpRequested =>
    IO.println helpText
    return 0
  | .error .versionRequested =>
    IO.println versionText
    return 0
  | .error e =>
    (← IO.getStderr).putStrLn ("error: " ++ e.message)
    return 2

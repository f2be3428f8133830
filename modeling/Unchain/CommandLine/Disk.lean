import Unchain.CommandLine.Path
import Unchain.Text.Sorted

/-!
# Files

The files that a command can reach, by the names that lead to them from the root. A directory is
there if it holds a file, if it is known by itself, or if the working directory is below it.
-/

namespace Unchain.CommandLine

/-- A file: the names that lead to it, and its text unless it holds something else. -/
structure File where
  names : List String
  text : Option String
  deriving DecidableEq, Repr, Inhabited

/-- The files that a command can reach. -/
structure Disk where
  files : List File := []
  /-- Directories that are there even if they hold nothing. -/
  directories : List (List String) := []
  /-- The working directory. -/
  current : List String := []
  deriving DecidableEq, Repr, Inhabited

namespace Disk

/-- Where a step of a path leads from names. Above the root is the root. -/
def stepFrom (names : List String) (segment : String) : List String :=
  if segment = "" ∨ segment = "." then names
  else if segment = ".." then names.dropLast
  else names ++ [segment]

/-- Puts a file at a path below the working directory, in the place of one that is there, and makes
the directories on the way to it. -/
def place (d : Disk) (path text : String) : Disk :=
  let segments := Path.segments path
  let namesAfter (steps : Nat) : List String := (segments.take steps).foldl stepFrom d.current
  let names := namesAfter segments.length
  { d with
    directories := (List.range segments.length).map namesAfter ++ d.directories
    files := d.files.filter (·.names ≠ names) ++ [⟨names, some text⟩] }

/-- A working directory that holds files with these paths and texts. -/
def ofFiles (current : List String) (files : List (String × String)) : Disk :=
  files.foldl (fun d (path, text) => d.place path text) { current }

/-- The file that names lead to. -/
def fileAt? (d : Disk) (names : List String) : Option File :=
  d.files.find? fun file => file.names = names

/-- Whether names lead to a directory. -/
def isDirectory (d : Disk) (names : List String) : Bool :=
  names.isPrefixOf d.current || d.directories.contains names ||
    d.files.any fun file => names.isPrefixOf file.names && file.names ≠ names

/-- Follows a step of a path from where `names` lead, which must be a directory. -/
def step? (d : Disk) (names : List String) (segment : String) : Option (List String) :=
  if d.isDirectory names then some (stepFrom names segment) else none

/-- The names that a path leads to, whether or not there is something. -/
def locate? (d : Disk) (path : String) : Option (List String) :=
  match Path.segments path with
  | [""] => none
  | "" :: segments => segments.foldlM d.step? []
  | segments => segments.foldlM d.step? d.current

/-- Makes a directory known. -/
def addDirectory (d : Disk) (path : String) : Disk :=
  match d.locate? path with
  | some names => { d with directories := names :: d.directories }
  | none => d

/-- Adds a file that is not there yet. -/
def addFile (d : Disk) (path : String) (text : Option String) : Disk :=
  match d.locate? path with
  | some names =>
    if (d.fileAt? names).isSome then d else { d with files := d.files ++ [⟨names, text⟩] }
  | none => d

/-- The text of the file at a path. -/
def read? (d : Disk) (path : String) : Option String :=
  ((d.locate? path).bind d.fileAt?).bind File.text

/-- Changes the text of the file at a path. -/
def write (d : Disk) (path text : String) : Disk :=
  match d.locate? path with
  | some names =>
    let change (file : File) : File :=
      if file.names = names then { file with text := some text } else file
    { d with files := d.files.map change }
  | none => d

/-- The files that differ from those of an earlier disk. -/
def changedSince (d earlier : Disk) : List File :=
  d.files.filter fun file => earlier.fileAt? file.names ≠ some file

/-- Whether the names from a directory to a file lead through no directory that is passed over. -/
def isSearched (names : List String) : Bool := names.dropLast.all (!Path.isSkipped ·)

/-- The paths of the source files below a directory, which has a path and is reached by names. -/
def search (d : Disk) (path : String) (names : List String) : List String :=
  d.files.filterMap fun file =>
    if names.isPrefixOf file.names then
      let inner := file.names.drop names.length
      let path := inner.foldl Path.join path
      if !inner.isEmpty && isSearched inner && Path.isSourceFile path then some path else none
    else none

/-- The files that a path stands for: a file for itself, a directory for the source files below
it. No answer if there is nothing. -/
def expand? (d : Disk) (path : String) : Option (List String) := do
  let names ← d.locate? path
  if d.isDirectory names then some (d.search path names)
  else if (d.fileAt? names).isSome then some [path]
  else none

/-- Paths without those that have the components of the one before. -/
def dropRepeated : List String → List String
  | a :: b :: rest =>
    if Path.isSame a b then dropRepeated (a :: rest) else a :: dropRepeated (b :: rest)
  | paths => paths
termination_by paths => paths.length

/-- Paths in order and without repetitions. -/
def inOrder (paths : List String) : List String :=
  dropRepeated (Text.stableSort Path.before paths)

end Disk

end Unchain.CommandLine

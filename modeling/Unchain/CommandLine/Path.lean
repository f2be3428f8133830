import Unchain.Text.Split

/-!
# Paths

Paths as they are given on a command line. Two paths are alike if they have the same components:
doubled slashes, a slash at the end and inner dots do not count, a dot at the start does.
-/

namespace Unchain.CommandLine

/-- A step of a path. -/
inductive Component where
  /-- The slash at the start of an absolute path. -/
  | root
  /-- A dot at the start. -/
  | current
  /-- Two dots. -/
  | parent
  | name (text : String)
  deriving DecidableEq, Repr, Inhabited

namespace Component

/-- The order of the kinds of components. -/
def rank : Component → Nat
  | root => 0
  | current => 1
  | parent => 2
  | name _ => 3

/-- Whether a component comes before another one. -/
def before : Component → Component → Bool
  | name a, name b => a < b
  | a, b => a.rank < b.rank

end Component

namespace Path

/-- The pieces of a path between slashes. -/
def segments (path : String) : List String := (Text.splitAt '/' path.toList).map String.ofList

/-- The component that a piece in the middle of a path is, if it counts. -/
def component? (segment : String) : Option Component :=
  if segment = "" ∨ segment = "." then none
  else if segment = ".." then some .parent
  else some (.name segment)

/-- The components of a path. -/
def components (path : String) : List Component :=
  match segments path with
  | [""] => []
  | "" :: rest => .root :: rest.filterMap component?
  | "." :: rest => .current :: rest.filterMap component?
  | all => all.filterMap component?

/-- Whether a list of components comes before another one. -/
def componentsBefore : List Component → List Component → Bool
  | _, [] => false
  | [], _ :: _ => true
  | a :: as, b :: bs => a.before b || (a == b && componentsBefore as bs)

/-- Whether a path comes before another one. -/
def before (a b : String) : Bool := componentsBefore (components a) (components b)

/-- Whether two paths have the same components. -/
def isSame (a b : String) : Bool := components a == components b

/-- The path of an entry of a directory. -/
def join (directory entry : String) : String :=
  if directory.toList.getLast? = some '/' then directory ++ entry else directory ++ "/" ++ entry

/-- The absolute path that names from the root make. -/
def ofNames (names : List String) : String := "/" ++ "/".intercalate names

/-- The paths on the way to a path, and the path itself. -/
def steps (path : String) : List String :=
  let all := segments path
  (List.range all.length).map fun i => "/".intercalate (all.take (i + 1))

/-- The last name of a path. -/
def fileName? (path : String) : Option String :=
  match (components path).getLast? with
  | some (.name text) => some text
  | _ => none

/-- What follows the last dot of a file's name, unless that is its first character. -/
def extension? (fileName : String) : Option String :=
  let reversed := fileName.toList.reverse
  let extension := reversed.takeWhile (· ≠ '.')
  if extension.length + 1 < reversed.length then some (String.ofList extension.reverse) else none

/-- The extensions of files that are searched in directories. -/
def sourceExtensions : List String := ["ts", "tsx", "mts", "cts", "js", "jsx", "mjs", "cjs"]

/-- The ends of names of files that hold only declarations. -/
def declarationEndings : List String := [".d.ts", ".d.mts", ".d.cts"]

/-- Whether a file is one that is searched in directories. -/
def isSourceFile (path : String) : Bool :=
  match fileName? path with
  | none => false
  | some name =>
    !(declarationEndings.any fun ending => ending.toList.isSuffixOf name.toList) &&
      (extension? name).any sourceExtensions.contains

/-- Whether a directory is passed over in a search. -/
def isSkipped (directory : String) : Bool :=
  directory = "node_modules" || directory.toList.head? = some '.'

end Path

end Unchain.CommandLine

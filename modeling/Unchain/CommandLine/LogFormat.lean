import Unchain.Text.Alphabet

/-!
# Log formats

The layouts in which a run can be logged.
-/

namespace Unchain.CommandLine

/-- A layout of a log. -/
inductive LogFormat where
  | text
  | tree
  | json
  deriving DecidableEq, Repr, Inhabited

/-- The layout of a name, in whatever case and with blanks around it; plain text for a name that
nobody knows. -/
def LogFormat.ofName (name : String) : LogFormat :=
  let word := String.ofList ((Text.trimBlanks name.toList).map Char.toLower)
  if word = "tree" then .tree else if word = "json" then .json else .text

end Unchain.CommandLine

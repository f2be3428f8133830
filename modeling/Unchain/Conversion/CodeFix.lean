import Unchain.Conversion.File
import Unchain.Text.LineMap

/-!
# Code fixes

Conversions in the form in which an editor asks for them: a named fix with the changes to make, by
line and column.
-/

namespace Unchain

open Text (Edit LineMap)

/-- A way to fix what a notice says. -/
structure FixKind where
  name : String
  id : String
  /-- The title of the fix for one place. -/
  title : String
  /-- The title of the fix for all places. -/
  titleForAll : String
  deriving DecidableEq, Repr, Inhabited

namespace FixKind

/-- Converting functions to async ones. -/
def convert : FixKind where
  name := "convertToAsyncFunction"
  id := "convertToAsyncFunction"
  title := Notice.convertToAsync.text
  titleForAll := Notice.convertAllToAsync.text

/-- The notices that can be fixed. -/
def fixable : List Notice := [.mayBeAsync]

/-- The fixes for the notice with a code. -/
def ofCode (code : Nat) : List FixKind :=
  if (fixable.map Notice.code).contains code then [convert] else []

end FixKind

/-- A line and a column, both counted from one. -/
structure Place where
  line : Nat
  column : Nat
  deriving DecidableEq, Repr, Inhabited

/-- An edit by lines and columns. -/
structure TextChange where
  start : Place
  stop : Place
  newText : String
  deriving DecidableEq, Repr, Inhabited

/-- A fix with its changes to one file. -/
structure CodeFix where
  kind : FixKind
  fileName : String
  changes : List TextChange
  deriving DecidableEq, Repr, Inhabited

/-- An edit by the lines and columns of a text. -/
def TextChange.ofEdit (lines : LineMap) (edit : Edit) : TextChange :=
  let place (offset : Nat) : Place :=
    let (line, column) := lines.lineColumn offset
    ⟨line, column⟩
  ⟨place edit.span.start, place edit.span.stop, edit.newText⟩

/-- The fix that makes these edits to a file. -/
def CodeFix.ofEdits (s : SourceFile) (edits : List Edit) : CodeFix :=
  ⟨.convert, s.fileName, edits.map (.ofEdit (.ofText s.source.toList))⟩

namespace Settings

/-- The fix for the innermost function around a position, if there is one. -/
def fixesAt (settings : Settings) (s : SourceFile) (position : Nat) : List CodeFix :=
  match settings.editsAt s position with
  | [] => []
  | edits => [.ofEdits s edits]

/-- The fixes for a file, one for each function that is converted. -/
def fixes (settings : Settings) (s : SourceFile) : List CodeFix :=
  (settings.conversions s).map fun conversion => .ofEdits s conversion.edits

end Settings

end Unchain

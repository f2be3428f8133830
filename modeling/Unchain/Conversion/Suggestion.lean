import Unchain.Conversion.Search
import Unchain.Diagnostic

/-!
# Suggestions

The functions of a file that are worth converting: those that are not async yet, hold a chain, and
have no result type other than `void` or a promise.
-/

namespace Unchain.Conversion

open Promise (Names Oracle)
open Syntax (Node NodeId)

/-- Whether a result type is that of a function that can be made async. -/
def isAsyncResult (names : Names) (type : List Char) : Bool :=
  Text.trimBlanks type == "void".toList || names.isPromiseType type

/-- The suggestion for a function that holds a chain, at its name if it has one. -/
def suggestion? (s : SourceFile) (names : Names) (function : NodeId) : Option Diagnostic := do
  let .function _ f ← s.tree.data? function | none
  if f.isAsync then none
  else if (Promise.typeText? s.tree f.declaredType).any (!isAsyncResult names ·) then none
  else
    let place ← s.tree.node? (f.name.getD function)
    return Notice.mayBeAsync.toDiagnostic s.fileName place.pos (place.stop - place.pos)

/-- The suggestions for a file. -/
def suggestions (s : SourceFile) (o : Oracle) (names : Names) : List Diagnostic :=
  (functions s.tree o).filterMap (suggestion? s names)

end Unchain.Conversion

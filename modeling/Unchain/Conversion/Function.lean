import Unchain.Conversion.Plan
import Unchain.Conversion.Search
import Unchain.Conversion.Splice

/-!
# Converting a function

The edits that turn the chains of one function into statements with `await`. There are none if
the function cannot be made async, holds no chain, or holds only chains that are kept as written.
-/

namespace Unchain

open Promise (Oracle)
open Syntax (NodeId Tree)
open Text (Edit Span)

/-- The edits that convert one function. -/
structure Conversion where
  function : NodeId
  statementEdits : List Edit
  /-- The edit that makes the function async, unless it was. -/
  asyncEdit : Option Edit
  deriving DecidableEq, Repr, Inhabited

namespace Conversion

/-- All edits in the order of the text. -/
def edits (c : Conversion) : List Edit :=
  Text.stableSort Edit.before (c.asyncEdit.toList ++ c.statementEdits)

/-- The smallest span around all edits. -/
def span (c : Conversion) : Span :=
  match c.edits with
  | [] => default
  | first :: rest =>
    .ofBounds (rest.foldl (fun start e => min start e.span.start) first.span.start)
      (rest.foldl (fun stop e => max stop e.span.stop) first.span.stop)

/-- The conversion of a function whose chains are planned. -/
def ofPlan? (s : SourceFile) (o : Oracle) (layout : Printer.Layout) (function : NodeId)
    (plan : Plan) : Option Conversion :=
  let (unrolled, after) := (unrollGroups s o function plan.groups).run plan.state
  if unrolled.all (·.isVerbatim) then none
  else
    let source := s.source.toList
    let edit? (group : Chain.Group) (unrolled : Unroll.Unrolled) : Option Edit :=
      groupEdit? source layout s.tree after.tree group (replacementOf group unrolled)
    some {
      function
      statementEdits := (plan.groups.zip unrolled).filterMap fun (group, u) => edit? group u
      asyncEdit := asyncEdit? source s.tree function }

/-- The conversion of a function. -/
def ofFunction? (s : SourceFile) (o : Oracle) (layout : Printer.Layout) (function : NodeId) :
    Option Conversion :=
  let roots := Chain.rootsOf s.tree o function
  if !isConvertible s.tree function || roots.isEmpty then none
  else
    let (groups, t) := Chain.glue o s.bindings s.tree roots
    (plan? s o function groups t).bind (ofPlan? s o layout function)

end Conversion

end Unchain

import Unchain.Conversion.Function
import Unchain.Conversion.Suggestion

/-!
# Converting a file

What can be asked about a file: what to suggest, and the edits for one function or for all. A file
that cannot be read without errors is left alone.
-/

namespace Unchain

open Promise (Names Oracle)
open Syntax (NodeId)
open Text (Edit)

/-- What a conversion depends on besides the file. -/
structure Settings where
  names : Names := {}
  layout : Printer.Layout := {}
  deriving Repr, Inhabited

namespace Settings

/-- The oracle for a file. -/
def oracle (settings : Settings) (s : SourceFile) : Oracle := .ofFile s settings.names

/-- The suggestions for a file. -/
def suggestions (settings : Settings) (s : SourceFile) : List Diagnostic :=
  if s.isWellFormed then Conversion.suggestions s (settings.oracle s) settings.names else []

/-- The conversion of one function of a file. -/
def convertFunction? (settings : Settings) (s : SourceFile) (function : NodeId) :
    Option Conversion :=
  Conversion.ofFunction? s (settings.oracle s) settings.layout function

/-- The edits for the function that `find?` finds. -/
def editsFor (settings : Settings) (s : SourceFile) (find? : Oracle → Option NodeId) : List Edit :=
  if s.isWellFormed then
    (((find? (settings.oracle s)).bind (settings.convertFunction? s)).map Conversion.edits).getD []
  else []

/-- The edits for the innermost function around a position. -/
def editsAt (settings : Settings) (s : SourceFile) (position : Nat) : List Edit :=
  settings.editsFor s fun o => Conversion.functionAt? s.tree o position

/-- The edits for the outermost function of a name. -/
def editsNamed (settings : Settings) (s : SourceFile) (name : String) : List Edit :=
  settings.editsFor s fun o => Conversion.functionNamed? s.tree o name

/-- Whether two conversions have edits that overlap or start at the same place. -/
def collide (a b : Conversion) : Bool :=
  a.edits.any fun x => b.edits.any fun y =>
    x.span.overlaps y.span || x.span.start == y.span.start

/-- Adds the conversion of a function to those before it, unless it collides with one. -/
def accept (settings : Settings) (s : SourceFile) (o : Oracle) (accepted : List Conversion)
    (function : NodeId) : List Conversion :=
  match Conversion.ofFunction? s o settings.layout function with
  | none => accepted
  | some conversion =>
    if accepted.any (collide · conversion) then accepted else accepted ++ [conversion]

/-- The conversions of all functions that hold the start of a suggestion, outer functions
first. -/
def conversions (settings : Settings) (s : SourceFile) : List Conversion :=
  if s.isWellFormed then
    let o := settings.oracle s
    let starts := (settings.suggestions s).map Diagnostic.start
    let suggested := (Conversion.functions s.tree o).filter fun function =>
      starts.any (Conversion.spanOf s.tree function).contains
    suggested.foldl (settings.accept s o) []
  else []

/-- The source with all conversions made. -/
def convert (settings : Settings) (s : SourceFile) : Option String :=
  Edit.applyTo s.source ((settings.conversions s).flatMap Conversion.edits)

end Settings

end Unchain

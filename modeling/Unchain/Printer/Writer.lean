/-!
# Writing text

What a printer asks for, and the text that comes of it. The indentation of a line is written with
the first text on it, so an empty line has none. The first line has no base indent: printed text
replaces code that is indented already.
-/

namespace Unchain.Printer

/-- How lines are laid out. -/
structure Layout where
  /-- Blanks for each level. -/
  indentSize : Nat := 4
  /-- What stands before every line but the first. -/
  baseIndent : String := ""
  newLine : String := "\n"
  deriving DecidableEq, Repr, Inhabited

/-- One thing to write. -/
inductive Piece where
  | text (s : String)
  /-- The end of a line. -/
  | line
  /-- One level deeper from the next line on. -/
  | indent
  | dedent
  deriving DecidableEq, Repr

/-- Text that is being written. -/
structure Writer where
  layout : Layout
  output : String := ""
  level : Nat := 0
  atLineStart : Bool := false
  onFirstLine : Bool := true
  deriving Repr

namespace Writer

/-- What stands before the text of a line. -/
def indentation (w : Writer) : String :=
  (if w.onFirstLine then "" else w.layout.baseIndent) ++
    String.ofList (List.replicate (w.level * w.layout.indentSize) ' ')

/-- Writes text; it may hold ends of lines of its own. -/
def write (w : Writer) (s : String) : Writer :=
  if s.isEmpty then w
  else
    let start := if w.atLineStart then w.indentation else ""
    { w with
      output := w.output ++ start ++ s
      atLineStart := false
      onFirstLine := w.onFirstLine && !s.toList.contains '\n' }

/-- Ends a line. -/
def newLine (w : Writer) : Writer :=
  { w with output := w.output ++ w.layout.newLine, atLineStart := true, onFirstLine := false }

/-- Goes one level deeper. -/
def indent (w : Writer) : Writer := { w with level := w.level + 1 }

/-- Goes one level back. -/
def dedent (w : Writer) : Writer := { w with level := w.level - 1 }

/-- Writes one piece. -/
def put (w : Writer) : Piece → Writer
  | .text s => w.write s
  | .line => w.newLine
  | .indent => w.indent
  | .dedent => w.dedent

/-- Going deeper and back changes nothing. -/
@[simp] theorem dedent_indent (w : Writer) : w.indent.dedent = w := rfl

/-- What was written stays at the start of the text. -/
theorem prefix_put (w : Writer) (p : Piece) :
    ∃ s : String, (w.put p).output = w.output ++ s := by
  cases p with
  | text s =>
    simp only [put, write]
    split
    · exact ⟨"", by simp⟩
    · exact ⟨_, String.append_assoc ..⟩
  | line => exact ⟨w.layout.newLine, rfl⟩
  | indent | dedent => exact ⟨"", by simp [put, indent, dedent]⟩

/-- The text written so far, and a writer on a fresh first line. -/
def take (w : Writer) : String × Writer := (w.output, { layout := w.layout })

end Writer

/-- The text of the pieces. -/
def render (layout : Layout) (pieces : List Piece) : String :=
  (pieces.foldl Writer.put { layout }).output

end Unchain.Printer

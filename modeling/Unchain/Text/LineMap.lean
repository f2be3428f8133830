import Unchain.Text.Offset

/-!
# Line maps

Lines and columns of a text. A line ends after a line feed, a carriage return, or the two
together. Columns count UTF-16 code units, as editors do.

The text of a line map is shorter than 4 GiB, so where its lines start fits into the 32 bits of an
offset (`offsetCount`), and so does every line and column.
-/

namespace Unchain.Text

/-- A line and a column, both counted from zero. -/
structure Position where
  line : Nat
  column : Nat
  deriving DecidableEq, Repr, Inhabited

/-- Offsets at which the lines after the first start, for a text that starts at `offset`. -/
def nextLineStarts (offset : Nat) : List Char → List Nat
  | [] => []
  | '\r' :: '\n' :: rest => (offset + 2) :: nextLineStarts (offset + 2) rest
  | c :: rest =>
    let next := offset + c.utf8Size
    if c = '\n' ∨ c = '\r' then next :: nextLineStarts next rest else nextLineStarts next rest

/-- A text with the offset at which each of its lines starts. -/
structure LineMap where
  text : List Char
  starts : List Nat
  deriving Repr

namespace LineMap

/-- The line map of a text. -/
def ofText (text : List Char) : LineMap := ⟨text, 0 :: nextLineStarts 0 text⟩

/-- How many lines there are; an empty text has one. -/
def lineCount (m : LineMap) : Nat := m.starts.length

/-- Where a line starts. -/
def lineStart? (m : LineMap) (line : Nat) : Option Nat := m.starts[line]?

@[simp] theorem lineStart?_ofText_zero (text : List Char) :
    (ofText text).lineStart? 0 = some 0 := rfl

/-- The last line that starts at or before `offset`. -/
def lineAt (m : LineMap) (offset : Nat) : Nat :=
  (m.starts.takeWhile (· ≤ offset)).length - 1

/-- The characters of a line without its terminator. -/
def lineText (m : LineMap) (line : Nat) : List Char :=
  let size := byteLength m.text
  let start := (m.lineStart? line).getD size
  let stop := (m.lineStart? (line + 1)).getD size
  ((slice m.text (min start stop) stop).reverse.dropWhile
    fun c => c = '\n' || c = '\r').reverse

/-- Line and column of an offset; an offset past the end has the column of the end. -/
def position (m : LineMap) (offset : Nat) : Position :=
  let line := m.lineAt offset
  let start := (m.lineStart? line).getD 0
  let stop := min offset (byteLength m.text)
  ⟨line, unitLength (slice m.text (min start stop) stop)⟩

/-- Bytes of the longest start of a text whose width in UTF-16 units is at most `column`. -/
def bytesUpTo (column : Nat) : List Char → Nat
  | [] => 0
  | c :: rest =>
    let width := unitLength [c]
    if width ≤ column then c.utf8Size + bytesUpTo (column - width) rest else 0

/-- The offset of a position. A column past the end of its line gives the end of the line's text,
a line past the end of the text gives nothing. -/
def offset? (m : LineMap) (p : Position) : Option Nat :=
  (m.lineStart? p.line).map (· + bytesUpTo p.column (m.lineText p.line))

/-- Line and column of an offset, both counted from one. -/
def lineColumn (m : LineMap) (offset : Nat) : Nat × Nat :=
  let p := m.position offset
  (p.line + 1, p.column + 1)

/-- The offset of a line and column counted from one. -/
def ofLineColumn? (m : LineMap) (line column : Nat) : Option Nat :=
  if line = 0 ∨ column = 0 then none else m.offset? ⟨line - 1, column - 1⟩

end LineMap

end Unchain.Text

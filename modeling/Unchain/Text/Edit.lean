import Unchain.Text.Offset
import Unchain.Text.Sorted
import Unchain.Text.Span

/-!
# Text edits

An edit replaces a span of a text (`apply_append`). A list of edits is applied from the back, so
that the offsets of the edits still to come stay valid. There is no text with an edit made whose
span stops before it starts (`apply_eq_none_iff`), as a span without `HasStop` does.
-/

namespace Unchain.Text

/-- A span and the text that takes its place. -/
structure Edit where
  span : Span
  newText : String
  deriving DecidableEq, Repr, Inhabited

namespace Edit

/-- The order of edits in a text: by start, an insertion before a replacement. -/
def before (a b : Edit) : Bool :=
  a.span.start < b.span.start ||
    (a.span.start == b.span.start && a.span.length < b.span.length)

/-- The text with the edit made; unchanged if the span does not cut the text between
characters, and nothing if it does but stops before it starts. -/
def apply (e : Edit) (text : List Char) : Option (List Char) :=
  match takeBytes? e.span.start text, dropBytes? e.span.stop text with
  | some head, some tail =>
    if e.span.start ≤ e.span.stop then some (head ++ (e.newText.toList ++ tail)) else none
  | _, _ => some text

theorem apply_eq_none_iff {e : Edit} {text : List Char} : e.apply text = none ↔
    IsCut text e.span.start ∧ IsCut text e.span.stop ∧ e.span.stop < e.span.start := by
  rw [isCut_iff_takeBytes?, IsCut, apply]
  cases takeBytes? e.span.start text
  · simp
  cases dropBytes? e.span.stop text
  · simp
  · simp

/-- An edit of the middle of a text replaces the middle and nothing else. -/
theorem apply_append {pre mid : List Char} (h : (Span.mk (byteLength pre) (byteLength mid)).HasStop)
    (rest : List Char) (newText : String) :
    apply ⟨⟨byteLength pre, byteLength mid⟩, newText⟩ (pre ++ (mid ++ rest)) =
      some (pre ++ (newText.toList ++ rest)) := by
  have hdrop : dropBytes? (byteLength pre + byteLength mid) (pre ++ (mid ++ rest)) = some rest := by
    simpa using dropBytes?_append (pre ++ mid) rest
  simp [apply, h.stop_eq, hdrop]

/-- Applies edits with spans that do not overlap, the last one in the text first. -/
def applyAll (edits : List Edit) (text : List Char) : Option (List Char) :=
  (stableSort before edits).foldrM apply text

/-- The source with the edits made. -/
def applyTo (source : String) (edits : List Edit) : Option String :=
  (applyAll edits source.toList).map String.ofList

end Edit

end Unchain.Text

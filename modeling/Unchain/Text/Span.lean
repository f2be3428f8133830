import Unchain.Text.Offset

/-!
# Spans

A stretch of a text: where it starts and how many bytes it has. Its end is an offset of 32 bits like
any other, so a span that would end past all of them (one without `HasStop`) ends near the start of
the text instead.
-/

namespace Unchain.Text

/-- A stretch of a text in byte offsets. -/
structure Span where
  start : Nat
  length : Nat
  deriving DecidableEq, Repr, Inhabited

namespace Span

/-- The span between two offsets; empty if they are out of order. -/
def ofBounds (start stop : Nat) : Span := ⟨start, stop - start⟩

/-- The offset after the last byte, in 32 bits. -/
def stop (s : Span) : Nat := (s.start + s.length) % offsetCount

/-- The end of the span is an offset. -/
def HasStop (s : Span) : Prop := s.start + s.length < offsetCount

instance (s : Span) : Decidable s.HasStop := inferInstanceAs (Decidable (_ < _))

theorem HasStop.stop_eq {s : Span} (h : s.HasStop) : s.stop = s.start + s.length :=
  Nat.mod_eq_of_lt h

@[simp] theorem start_ofBounds (start stop : Nat) : (ofBounds start stop).start = start := rfl

theorem hasStop_ofBounds {start stop : Nat} (h : start ≤ stop) (hstop : stop < offsetCount) :
    (ofBounds start stop).HasStop := by
  change start + (stop - start) < offsetCount
  rwa [Nat.add_sub_cancel' h]

theorem stop_ofBounds {start stop : Nat} (h : start ≤ stop) (hstop : stop < offsetCount) :
    (ofBounds start stop).stop = stop := by
  rw [(hasStop_ofBounds h hstop).stop_eq]
  exact Nat.add_sub_cancel' h

/-- Both ends count as inside, so a caret right after the last character is in the span. -/
def contains (s : Span) (offset : Nat) : Bool :=
  s.start ≤ offset && offset ≤ s.stop

/-- Whether each span starts before the other ends. -/
def overlaps (a b : Span) : Bool :=
  a.start < b.stop && b.start < a.stop

theorem overlaps_iff {a b : Span} :
    a.overlaps b = true ↔ a.start < b.stop ∧ b.start < a.stop := by
  simp [overlaps]

theorem overlaps_comm (a b : Span) : a.overlaps b = b.overlaps a := Bool.and_comm _ _

end Span

end Unchain.Text

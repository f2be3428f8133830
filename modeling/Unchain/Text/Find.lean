/-!
# Finding text

The first occurrence of a pattern.
-/

namespace Unchain.Text

/-- The characters before the first occurrence of a pattern. -/
def before? (pattern : List Char) : List Char → Option (List Char)
  | [] => if pattern.isEmpty then some [] else none
  | c :: rest =>
    if pattern.isPrefixOf (c :: rest) then some []
    else (before? pattern rest).map (c :: ·)

/-- The pattern follows what was found before it. -/
theorem prefix_of_before? {pattern cs pre : List Char} (h : before? pattern cs = some pre) :
    pre ++ pattern <+: cs := by
  induction cs generalizing pre with
  | nil =>
    rw [before?] at h
    split at h
    · next hp =>
      obtain rfl : [] = pre := by simpa using h
      simp [List.isEmpty_iff.mp hp]
    · simp at h
  | cons c rest ih =>
    rw [before?] at h
    split at h
    · next hp =>
      obtain rfl : [] = pre := by simpa using h
      simpa using hp
    · obtain ⟨tail, htail, rfl⟩ := Option.map_eq_some_iff.mp h
      obtain ⟨after, hafter⟩ := ih htail
      exact ⟨after, by simp [← hafter]⟩

end Unchain.Text

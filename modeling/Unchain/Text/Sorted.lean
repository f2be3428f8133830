/-!
# Sorting by a key

Stable insertion sort: elements with equal keys keep their order. The result holds the elements
that were given (`stableSort_perm`), in order if the comparison is one of a weak order
(`pairwise_stableSort`); elements that are equal in it keep their order (`filter_stableSort`).
-/

namespace Unchain.Text

/-- Inserts `a` before the first element that is strictly greater. -/
def insertSorted {α : Type} (lt : α → α → Bool) (a : α) : List α → List α
  | [] => [a]
  | b :: rest => if lt a b then a :: b :: rest else b :: insertSorted lt a rest

theorem insertSorted_perm {α : Type} (lt : α → α → Bool) (a : α) (as : List α) :
    (insertSorted lt a as).Perm (a :: as) := by
  induction as with
  | nil => exact .refl _
  | cons b rest ih =>
    rw [insertSorted]
    split
    · exact .refl _
    · exact (ih.cons b).trans (.swap a b rest)

theorem mem_insertSorted {α : Type} {lt : α → α → Bool} {a b : α} {as : List α} :
    b ∈ insertSorted lt a as ↔ b = a ∨ b ∈ as := by
  rw [(insertSorted_perm lt a as).mem_iff, List.mem_cons]

/-- A list in order stays in order. -/
theorem pairwise_insertSorted {α : Type} {lt : α → α → Bool}
    (asymm : ∀ a b, lt a b = true → lt b a = false)
    (trans : ∀ a b c, lt b a = false → lt c b = false → lt c a = false) (a : α) {as : List α}
    (h : as.Pairwise fun x y => lt y x = false) :
    (insertSorted lt a as).Pairwise fun x y => lt y x = false := by
  induction as with
  | nil => simp [insertSorted]
  | cons b rest ih =>
    obtain ⟨hb, hrest⟩ := List.pairwise_cons.mp h
    rw [insertSorted]
    split
    · next hlt =>
      refine List.pairwise_cons.mpr ⟨fun c hc => ?_, h⟩
      rcases List.mem_cons.mp hc with rfl | hc
      · exact asymm _ _ hlt
      · exact trans a b c (asymm _ _ hlt) (hb c hc)
    · next hlt =>
      refine List.pairwise_cons.mpr ⟨fun c hc => ?_, ih hrest⟩
      rcases mem_insertSorted.mp hc with rfl | hc
      · simpa using hlt
      · exact hb c hc

/-- The elements in increasing order, equal ones in the order given. -/
def stableSort {α : Type} (lt : α → α → Bool) (as : List α) : List α :=
  as.foldl (fun sorted a => insertSorted lt a sorted) []

/-- Sorting keeps every element as often as it was given. -/
theorem stableSort_perm {α : Type} (lt : α → α → Bool) (as : List α) :
    (stableSort lt as).Perm as := by
  suffices h : ∀ sorted : List α,
      (as.foldl (fun sorted a => insertSorted lt a sorted) sorted).Perm (as ++ sorted) by
    simpa [stableSort] using h []
  induction as with
  | nil => intro sorted; exact .refl _
  | cons a rest ih =>
    intro sorted
    refine (ih (insertSorted lt a sorted)).trans ?_
    exact ((insertSorted_perm lt a sorted).append_left rest).trans List.perm_middle

/-- No element comes after one that it is less than. -/
theorem pairwise_stableSort {α : Type} {lt : α → α → Bool}
    (asymm : ∀ a b, lt a b = true → lt b a = false)
    (trans : ∀ a b c, lt b a = false → lt c b = false → lt c a = false) (as : List α) :
    (stableSort lt as).Pairwise fun x y => lt y x = false := by
  suffices h : ∀ sorted : List α, (sorted.Pairwise fun x y => lt y x = false) →
      (as.foldl (fun sorted a => insertSorted lt a sorted) sorted).Pairwise
        fun x y => lt y x = false by
    exact h [] .nil
  induction as with
  | nil => intro sorted h; exact h
  | cons a rest ih => intro sorted h; exact ih _ (pairwise_insertSorted asymm trans a h)

/-- An element goes behind those that it is not less than. -/
theorem filter_insertSorted {α : Type} {lt : α → α → Bool}
    (trans : ∀ a b c, lt b a = false → lt c b = false → lt c a = false) {p : α → Bool} {a : α}
    {as : List α} (h : as.Pairwise fun x y => lt y x = false) (ha : p a = true)
    (hp : ∀ b ∈ as, p b = true → lt a b = false) :
    (insertSorted lt a as).filter p = as.filter p ++ [a] := by
  induction as with
  | nil => simp [insertSorted, ha]
  | cons b rest ih =>
    obtain ⟨hb, hrest⟩ := List.pairwise_cons.mp h
    rw [insertSorted]
    split
    · next hlt =>
      -- What comes after a greater element is greater as well, so it is not of `p`.
      have hnone : (b :: rest).filter p = [] := by
        refine List.filter_eq_nil_iff.mpr fun c hc hpc => ?_
        have hac := hp c hc hpc
        rcases List.mem_cons.mp hc with rfl | hc
        · rw [hlt] at hac
          cases hac
        · rw [trans b c a (hb c hc) hac] at hlt
          cases hlt
      rw [List.filter_cons_of_pos ha, hnone, List.nil_append]
    · have hmem := ih hrest fun c hc => hp c (List.mem_cons_of_mem _ hc)
      rw [List.filter_cons, List.filter_cons, hmem]
      split <;> rfl

theorem filter_insertSorted_of_neg {α : Type} (lt : α → α → Bool) {p : α → Bool} {a : α}
    (ha : ¬ p a = true) (as : List α) : (insertSorted lt a as).filter p = as.filter p := by
  induction as with
  | nil => rw [insertSorted, List.filter_cons_of_neg ha]
  | cons b rest ih =>
    rw [insertSorted]
    split
    · rw [List.filter_cons_of_neg ha]
    · rw [List.filter_cons, List.filter_cons, ih]

/-- Elements that are not less than each other keep their order. -/
theorem filter_stableSort {α : Type} {lt : α → α → Bool}
    (asymm : ∀ a b, lt a b = true → lt b a = false)
    (trans : ∀ a b c, lt b a = false → lt c b = false → lt c a = false) {p : α → Bool}
    (hp : ∀ a b, p a = true → p b = true → lt a b = false) (as : List α) :
    (stableSort lt as).filter p = as.filter p := by
  suffices h : ∀ sorted : List α, (sorted.Pairwise fun x y => lt y x = false) →
      (as.foldl (fun sorted a => insertSorted lt a sorted) sorted).filter p =
        sorted.filter p ++ as.filter p by
    exact h [] .nil
  induction as with
  | nil =>
    intro sorted h
    exact (List.append_nil _).symm
  | cons a rest ih =>
    intro sorted h
    rw [List.foldl_cons, ih _ (pairwise_insertSorted asymm trans a h), List.filter_cons]
    split
    · next ha =>
      rw [filter_insertSorted trans h ha fun b _ => hp a b ha, List.append_assoc]
      rfl
    · next ha => rw [filter_insertSorted_of_neg lt ha]

end Unchain.Text

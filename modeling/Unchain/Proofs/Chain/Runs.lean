import Mathlib.Data.List.Nodup
import Unchain.Chain.Group
import Unchain.Proofs.Chain.Layers
import Unchain.Proofs.Syntax.Rows

/-!
# Runs of statements

A group takes in the statements right before its root, all of which define a
variable; the root itself defines none (`definition?_eq_none_of_mem_rootsOf`). So
the statements of a group are a run in the list in which its root stands, which
ends with the first statement that defines nothing. As a statement stands in one
list only, runs that end with different roots share no statement
(`disjoint_of_runs`), and no root is met twice (`pairwise_rootsOf`).
-/

namespace Unchain.Chain

open Promise (Oracle)
open Syntax (NodeId NodeList Tree)
open Syntax.Tree (statements?_sublist)

variable {t : Tree} {o : Oracle}

/-! ### Roots -/

/-- A chain is a call, with parentheses around it or not. -/
theorem exists_call_of_isChain {e : Option NodeId} (h : isChain t o e = true) :
    ∃ id callee types list, t.skipParentheses e = some id ∧
      t.data? id = some (.call .call callee types list) := by
  unfold isChain at h
  cases hskip : t.skipParentheses e with
  | none =>
    rw [hskip] at h
    exact absurd h (not_isConvertible_plain (t := t) (o := o) none)
  | some id =>
    rw [hskip] at h
    obtain ⟨_, _, _, _, ⟨callee, types, list, _, hdata, -⟩, -⟩ := callsMethod_of_isConvertible h
    exact ⟨id, callee, types, list, rfl, hdata⟩

/-- An expression is no statement that defines a variable. -/
theorem definition?_eq_none_of_isChain {e : NodeId} (h : isChain t o (some e) = true) :
    definition? t e = none := by
  obtain ⟨id, callee, types, list, hskip, hcall⟩ := exists_call_of_isChain h
  by_cases hparentheses : ∃ part, t.data? e = some (.parenthesized part)
  · obtain ⟨part, hdata⟩ := hparentheses
    simp [definition?, hdata]
  · rw [Tree.skipParentheses_of_ne fun part hpart => hparentheses ⟨part, hpart⟩] at hskip
    obtain rfl := Option.some.inj hskip
    simp [definition?, hcall]

theorem definition?_eq_none_of_rootOf? {statement : NodeId} {root : Root}
    (h : rootOf? t o statement = some root) : definition? t statement = none := by
  unfold rootOf? at h
  split at h
  · next e hdata => simp [definition?, hdata]
  · next e hdata =>
    obtain ⟨hchain, -⟩ := Option.ite_none_right_eq_some.mp h
    obtain ⟨id, callee, types, list, hskip, hcall⟩ := exists_call_of_isChain hchain
    simp [definition?, hdata, hskip, Tree.partData?, hcall]
  · cases h

theorem node_of_rootOf? {statement : NodeId} {root : Root}
    (h : rootOf? t o statement = some root) : root.node = statement := by
  unfold rootOf? at h
  split at h
  · split at h
    · cases h
      rfl
    · obtain ⟨-, h⟩ := Option.ite_none_right_eq_some.mp h
      cases h
      rfl
  · obtain ⟨-, h⟩ := Option.ite_none_right_eq_some.mp h
    cases h
    rfl
  · cases h

/-- A root defines no variable. -/
theorem definition?_eq_none_of_mem_rootsOf {function : NodeId} {root : Root}
    (h : root ∈ rootsOf t o function) : definition? t root.node = none := by
  unfold rootsOf at h
  split at h
  · cases h
  split at h
  · cases h
  · obtain ⟨statement, -, hroot⟩ := List.mem_filterMap.mp h
    rw [node_of_rootOf? hroot]
    exact definition?_eq_none_of_rootOf? hroot
  · obtain ⟨hchain, hmem⟩ := List.mem_ite_nil_right.mp h
    rw [List.mem_singleton.mp hmem]
    exact definition?_eq_none_of_isChain hchain

/-- The roots of a function are different places. -/
theorem pairwise_rootsOf (ht : t.Branching) (function : NodeId) :
    (rootsOf t o function).Pairwise fun root root' => root.node ≠ root'.node := by
  unfold rootsOf
  split
  · exact .nil
  split
  · exact .nil
  · refine List.Pairwise.filterMap _ (fun s s' hne root hroot root' hroot' => ?_)
      (ht.nodup_scopeNodes _ _)
    rw [node_of_rootOf? hroot, node_of_rootOf? hroot']
    exact hne
  · split
    · exact List.pairwise_singleton ..
    · exact .nil

/-! ### Neighbours -/

/-- The statements stand one after another in a list of statements. -/
def AreNeighbours (t : Tree) (statements : List NodeId) : Prop :=
  ∃ parent list, t.statements? parent = some list ∧ statements <:+: list.nodes

/-- What is right before a statement in its list stands next to it. -/
theorem areNeighbours_of_prefix {statement : NodeId} {taken : List NodeId} (hne : taken ≠ [])
    (h : taken <+: statementsBefore t statement) :
    AreNeighbours t (taken.reverse ++ [statement]) := by
  unfold statementsBefore at h
  split at h
  · next list hlist =>
    obtain ⟨parent, -, hlist⟩ := Option.bind_eq_some_iff.mp hlist
    split at h
    · next hmem =>
      obtain ⟨before, after, hnodes, hnotMem⟩ :=
        List.eq_append_cons_of_mem (List.contains_iff_mem.mp hmem)
      have htake : list.nodes.takeWhile (· ≠ statement) = before := by
        rw [hnodes, List.takeWhile_append_of_pos, List.takeWhile_cons_of_neg (by simp),
          List.append_nil]
        intro s hs
        exact decide_eq_true fun heq => hnotMem (heq ▸ hs)
      rw [htake] at h
      have hsuffix := List.reverse_suffix.mpr h
      rw [List.reverse_reverse] at hsuffix
      obtain ⟨first, rfl⟩ := hsuffix
      exact ⟨parent, list, hlist, first, after, by simp [hnodes]⟩
    · exact absurd (List.prefix_nil.mp h) hne
  · exact absurd (List.prefix_nil.mp h) hne

/-- A statement stands in one list only. -/
theorem eq_of_statements? (ht : t.Branching) {block block' s : NodeId} {list list' : NodeList}
    (h : t.statements? block = some list) (h' : t.statements? block' = some list')
    (hs : s ∈ list.nodes) (hs' : s ∈ list'.nodes) : list = list' := by
  obtain rfl := ht.parents_eq ((statements?_sublist h).subset hs)
    ((statements?_sublist h').subset hs')
  exact Option.some.inj (h.symm.trans h')

/-! ### Runs -/

/-- The statements define variables and stand right before one that defines none. -/
structure IsRun (t : Tree) (before : List NodeId) (last : NodeId) : Prop where
  neighbours : before ≠ [] → AreNeighbours t (before ++ [last])
  defines : ∀ s ∈ before, (definition? t s).isSome
  last : definition? t last = none

/-- The first statement from `s` on that defines nothing. -/
def runEnd (t : Tree) (statements : List NodeId) (s : NodeId) : Option NodeId :=
  (statements.dropWhile (· ≠ s)).find? fun s => (definition? t s).isNone

/-- A run ends where nothing is defined for the first time. -/
theorem IsRun.runEnd_eq {before : List NodeId} {last s : NodeId} (h : IsRun t before last)
    {statements : List NodeId} (hnodup : statements.Nodup) (hrun : before ++ [last] <:+: statements)
    (hs : s ∈ before) : runEnd t statements s = some last := by
  obtain ⟨first, after, rfl⟩ := hrun
  obtain ⟨earlier, later, rfl⟩ := List.append_of_mem hs
  have hdrop : (first ++ (earlier ++ s :: later ++ [last]) ++ after).dropWhile (· ≠ s) =
      s :: later ++ last :: after := by
    have hsplit : first ++ (earlier ++ s :: later ++ [last]) ++ after =
        (first ++ earlier) ++ (s :: later ++ last :: after) := by simp
    rw [hsplit] at hnodup ⊢
    rw [List.dropWhile_append_of_pos, List.cons_append, List.dropWhile_cons_of_neg (by simp)]
    intro x hx
    have hne := (List.nodup_append.mp hnodup).2.2 x hx s (by simp)
    exact decide_eq_true hne
  have hnone : (s :: later).find? (fun s => (definition? t s).isNone) = none := by
    refine List.find?_eq_none.mpr fun x hx => ?_
    have hdefines := h.defines x (List.mem_append_right _ hx)
    simp [Option.isSome_iff_ne_none.mp hdefines]
  rw [runEnd, hdrop, List.find?_append, hnone, Option.none_or, List.find?_cons_of_pos]
  simp [h.last]

/-- Runs that end in different places have no statement in common. -/
theorem disjoint_of_runs (ht : t.Branching) {before before' : List NodeId} {last last' : NodeId}
    (h : IsRun t before last) (h' : IsRun t before' last') (hne : last ≠ last') :
    (before ++ [last]).Disjoint (before' ++ [last']) := by
  intro s hs hs'
  rcases List.mem_append.mp hs with hmem | hmem <;> rcases List.mem_append.mp hs' with hmem' | hmem'
  · obtain ⟨block, list, hlist, hruns⟩ := h.neighbours (List.ne_nil_of_mem hmem)
    obtain ⟨block', list', hlist', hruns'⟩ := h'.neighbours (List.ne_nil_of_mem hmem')
    obtain rfl := eq_of_statements? ht hlist hlist' (hruns.subset hs) (hruns'.subset hs')
    have hnodup := (ht.nodup block).sublist (statements?_sublist hlist)
    have hend := h.runEnd_eq hnodup hruns hmem
    exact hne (Option.some.inj (hend.symm.trans (h'.runEnd_eq hnodup hruns' hmem')))
  · have hdefines := h.defines s hmem
    rw [List.mem_singleton.mp hmem', h'.last] at hdefines
    cases hdefines
  · have hdefines := h'.defines s hmem'
    rw [List.mem_singleton.mp hmem, h.last] at hdefines
    cases hdefines
  · exact hne ((List.mem_singleton.mp hmem).symm.trans (List.mem_singleton.mp hmem'))

end Unchain.Chain

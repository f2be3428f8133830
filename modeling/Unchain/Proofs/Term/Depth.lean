import Unchain.Proofs.Term.RoundTrip

/-!
# How deep the tree of a text gets

The reader bounds how many guarded rules it has open at once. A sign, an
operator and an access open none, so the tree of a text without errors is as
deep as its term is high (`SourceTree.ofSource_hasWay`), and there is no bound
for that: a name with `n` signs before it nests nothing and is `n` nodes above
the name (`SourceTree.ofSource_negated_hasWay`).
-/

namespace Unchain

open Syntax (Data NodeId Tree)

namespace Syntax.Tree

/-- A way down from a node, of `n` steps from a node to a child of it. -/
def HasWay (t : Tree) : Nat → NodeId → Prop
  | 0, _ => True
  | n + 1, id => ∃ child ∈ t.children id, t.HasWay n child

end Syntax.Tree

namespace Term

variable {t : Tree} {id : NodeId} {e : Term}

/-- From the node of a term a way leads down to a leaf of the term. -/
theorem hasWay_of_represents {n : Nat} (h : Represents t.part? (some id) e)
    (hn : n + 1 = e.height) : t.HasWay n id := by
  induction n generalizing id e with
  | zero => trivial
  | succ n ih =>
    rcases h.exists_part with hleaf | ⟨id', e', d, he', hheight, hd, hchild⟩
    · omega
    · obtain ⟨child, rfl⟩ := he'.exists_eq_some
      refine ⟨child, ?_, ih he' (by omega)⟩
      have hdata : t.data? id = some d := hd.partData?
      rw [Tree.children, hdata]
      exact hchild List.mem_cons_self

/-! ### Names with signs -/

/-- A name with `n` signs before it. -/
def negated (x : PlainName) : Nat → Term
  | 0 => .name x
  | n + 1 => .prefixed ⟨.exclamation, by decide⟩ (negated x n)

variable (x : PlainName)

@[simp] theorem height_negated (n : Nat) : (negated x n).height = n + 1 := by
  induction n with
  | zero => rfl
  | succ n ih => rw [negated, height, ih]

/-- Signs do not count for the nesting. -/
@[simp] theorem nesting_negated (n : Nat) : (negated x n).nesting = 0 := by
  induction n with
  | zero => rfl
  | succ n ih => rw [negated, nesting, ih]

theorem tight_negated (n : Nat) : (negated x n).Tight := by
  induction n with
  | zero => exact .name x
  | succ n ih =>
    refine .prefixed ih ?_
    cases n <;> simp only [negated, level] <;> decide

/-- The signs stand next to each other. -/
theorem text_negated (n : Nat) :
    (negated x n).text = List.replicate n '!' ++ x.text.toList := by
  induction n with
  | zero => rfl
  | succ n ih =>
    have hgap : gap .exclamation (negated x n) = [] := by
      cases n with
      | zero => rfl
      | succ n => simp only [negated, gap]; rfl
    rw [negated, text, hgap, List.nil_append, ih, List.replicate_succ]
    rfl

end Term

namespace SourceTree

/-- The text of a term is read without an error as long as the term does not nest too deep, and the
tree is as deep then as the term is high. -/
theorem ofSource_hasWay {e : Term} (he : e.Tight) (hroom : e.nesting + 2 ≤ Limits.grammarDepth)
    (fileName : String) :
    let read := ofSource fileName (String.ofList (e.text ++ [';']))
    read.errors = [] ∧ read.tree.HasWay (e.height + 1) read.root := by
  intro read
  obtain ⟨i, j, list, endOfFile, root, s, hrun, herrors, hroot, hlist, hnode, hread⟩ :=
    Term.run_sourceFile he (String.toList_ofList (l := e.text ++ [';'])) hroom fileName
  have hofSource : read = ⟨fileName, String.ofList (e.text ++ [';']), s.tree, root,
      Grammar.allErrors s⟩ := by
    simp only [read, ofSource, hrun, Option.getD_some]
  obtain ⟨j, rfl⟩ := hread.exists_eq_some
  have hstatement : s.tree.data? i = some (.expressionStatement .statement (some j)) :=
    hnode.partData?
  obtain ⟨n, hn⟩ : ∃ n, n + 1 = e.height := ⟨e.height - 1, Nat.sub_add_cancel e.height_pos⟩
  rw [hofSource, ← hn]
  -- The file has the statement, and the statement has the term.
  refine ⟨herrors, i, ?_, j, ?_, Term.hasWay_of_represents hread hn⟩
  · simp [Tree.children, hroot, Data.children, hlist]
  · simp [Tree.children, hstatement, Data.children]

/-- There is no bound for the tree of a text without errors: a name is as deep as there are signs
before it. -/
theorem ofSource_negated_hasWay (fileName : String) (x : PlainName) (n : Nat) :
    let read := ofSource fileName (String.ofList (List.replicate n '!' ++ x.text.toList ++ [';']))
    read.errors = [] ∧ read.tree.HasWay (n + 2) read.root := by
  have hroom : (Term.negated x n).nesting + 2 ≤ Limits.grammarDepth := by
    rw [Term.nesting_negated]
    decide
  have h := ofSource_hasWay (Term.tight_negated x n) hroom fileName
  rwa [Term.text_negated, Term.height_negated] at h

end SourceTree

end Unchain

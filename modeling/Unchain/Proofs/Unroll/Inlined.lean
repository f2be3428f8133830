import Unchain.Proofs.Syntax.Rows
import Unchain.Proofs.Syntax.Scope
import Unchain.Proofs.Unroll.Gives

/-!
# Functions that are inlined

What a function that is written in place brings along when it is unrolled. What its
body declares before a return at the top stands in the statements that take its
place (`inlines_of_run_unrollLiteral`), except in a chain that is a statement of its
own: that is unrolled in turn. It is no async function and no generator, and no
function with a `this` of its own that its body uses.

Nothing is said about what stands after the return, about the name of a function
expression and about `arguments`.
-/

namespace Unchain

namespace Syntax.Tree

variable {t t' : Tree} {id x : NodeId}

/-- An expression that is awaited stands below what it became. -/
theorem Awaits.is_below (h : t.Awaits id x) : t.Below x id := by
  induction h with
  | refl => exact .refl
  | step hdata _ ih =>
    refine .of_child ?_ ih
    rw [children, hdata]
    exact List.mem_singleton.mpr rfl

/-- What stands below a node still does when returns have come to await their expressions. -/
theorem Evolves.below (h : t.Evolves t') (hx : t.Below id x) : t'.Below id x := by
  induction hx with
  | refl => exact .refl
  | @child parent child _ hc ih =>
    obtain ⟨n, hn⟩ := node?_of_mem_children hc
    have hdata := data?_of_node? hn
    rw [children_of_node? hn] at hc
    rcases h.data?_cases (lt_size_of_node? hn) with hsame | ⟨e, e', hbefore, hafter⟩
    · refine .child ih ?_
      rw [children, hsame, hdata]
      exact hc
    · obtain ⟨awaited, hreturns, hawaits⟩ := h.returns hbefore
      have hreturn : n.data = .leave .returns (some e) := Option.some.inj (hdata.symm.trans hbefore)
      rw [hreturn] at hc
      obtain rfl := List.mem_singleton.mp hc
      refine (Below.child ih ?_).trans hawaits.is_below
      rw [children, hreturns]
      exact List.mem_singleton.mpr rfl

end Syntax.Tree

namespace Unroll

open Promise (Oracle)
open Syntax (Data NodeId Tree)
open Syntax.Tree (holds_some)

/-! ### The statements of a body -/

/-- The statements of a body before the first one that returns. -/
def untilReturn (t : Tree) (statements : List NodeId) : List NodeId :=
  statements.takeWhile fun id => !(t.node? id).any isReturn

/-- A statement that is a chain. -/
def IsChainStatement (t : Tree) (o : Oracle) (id : NodeId) : Prop :=
  ∃ e, t.data? id = some (.expressionStatement .statement (some e)) ∧
    Chain.isChain t o (some e) = true

section

variable {t : Tree} {c : Context} {sink : Sink} {s s' : State} {ids : List NodeId}
  {statement : NodeId}

theorem untilReturn_cons_of_return {first : NodeId} {e : Option NodeId}
    (h : t.data? first = some (.leave .returns e)) (rest : List NodeId) :
    untilReturn t (first :: rest) = [] := by
  obtain ⟨n, hn, hdata⟩ := Option.map_eq_some_iff.mp h
  simp [untilReturn, hn, isReturn, hdata]

/-- A return is one before and after returns have come to await their expressions. -/
theorem untilReturn_cons_of_evolves {t' : Tree} (hgrow : t.Evolves t') {first : NodeId}
    {e : Option NodeId} (hfirst : first < t.size)
    (h : t'.data? first = some (.leave .returns e)) (rest : List NodeId) :
    untilReturn t (first :: rest) = [] := by
  rcases hgrow.data?_cases hfirst with hsame | ⟨e, e', hbefore, -⟩
  · exact untilReturn_cons_of_return (hsame.symm.trans h) rest
  · exact untilReturn_cons_of_return hbefore rest

theorem mem_untilReturn_cons {first : NodeId} {rest : List NodeId}
    (h : statement ∈ untilReturn t (first :: rest)) :
    statement = first ∨ statement ∈ untilReturn t rest := by
  unfold untilReturn at h
  rw [List.takeWhile_cons] at h
  split at h
  · exact List.mem_cons.mp h
  · cases h

/-- What is no chain among the statements before a return is kept. -/
theorem Gives.mem_of_mem_untilReturn {statements : List NodeId}
    (h : Gives t c (.body statements sink) s ids s') (hgrow : t.Evolves s.tree)
    (hmem : statement ∈ untilReturn t statements)
    (hchains : ¬ IsChainStatement t c.oracle statement) : statement ∈ ids := by
  induction statements generalizing s ids with
  | nil => cases hmem
  | cons first rest ih =>
    cases h with
    | returns hfirst hd =>
      rw [untilReturn_cons_of_evolves hgrow hfirst hd] at hmem
      cases hmem
    | leaves hd | ends hd =>
      rw [untilReturn_cons_of_return hd] at hmem
      cases hmem
    | chain hd hchain hfirst hrest =>
      obtain rfl | hlater := mem_untilReturn_cons hmem
      · exact absurd ⟨_, hd, hchain⟩ hchains
      · exact List.mem_append_right _ (ih hrest (hgrow.trans hfirst.evolves) hlater)
    | keep hfirst _ hkeep hrest =>
      have hpasses := passes_of_run_keepStatement c.oracle (· < t.size) hkeep
      obtain rfl | hlater := mem_untilReturn_cons hmem
      · exact List.mem_cons_self
      · exact List.mem_cons_of_mem _ (ih hrest (hgrow.trans hpasses.evolves) hlater)

end

/-! ### Whole functions -/

/-- What a function that is inlined is, and what its statements `ids` keep of it. The tree is `t`
before anything is converted, `now` when the function is unrolled, and `after` in the end. -/
structure Inlines (t now after : Tree) (o : Oracle) (function : NodeId) (ids : List NodeId) :
    Prop where
  /-- It is neither async nor a generator, and a function expression has a body that does not use
  the `this` that the function has of its own. -/
  form : ∃ kind f, t.data? function = some (.function kind f) ∧ f.isAsync = false ∧
    f.isGenerator = false ∧ (kind = .expression → ∀ body, f.body = some body → ¬ now.UsesThis body)
  /-- What stands in a statement before a return at the top, and in no chain, stands in `ids`. -/
  keeps : ∀ {kind f body list}, t.data? function = some (.function kind f) → f.body = some body →
    t.statements? body = some list → ∀ statement ∈ untilReturn t list.nodes,
    ¬ IsChainStatement t o statement → ∀ x, t.Below statement x → ∃ id ∈ ids, after.Below id x

/-- Whatever is unrolled in place of a function inlines it, wherever its value goes. -/
theorem inlines_of_run_unrollLiteral {t : Tree} (ht : t.Closed) (depth : Nat) {c : Context}
    {function : NodeId} {sink : Sink} {s s' : State} {ids : List NodeId}
    (hfunction : function < t.size) (hgrow : t.Evolves s.tree)
    (h : (unrollLiteral (unroll depth) c function sink).run.run s = (some ids, s')) :
    Inlines t s.tree s'.tree c.oracle function ids := by
  have hgives := gives_of_run_unrollLiteral ht (gives_unroll ht depth) hgrow hfunction h
  have hafter := hgrow.trans hgives.evolves
  have hrun : (unrollLiteral (unroll depth) c function sink).run.run s = _ := attempt_get_bind _ s
  rw [hrun] at h
  dsimp only at h
  split at h
  · next kind f hdata =>
    have hbefore := hgrow.data?_before hfunction hdata (by simp)
    split at h
    · cases (attempt_bind_none rfl).symm.trans h
    · next hform =>
      simp only [Bool.or_eq_true, not_or, Bool.not_eq_true] at hform
      obtain ⟨⟨hgenerator, hasync⟩, hthis⟩ := hform
      refine ⟨⟨kind, f, hbefore, hasync, hgenerator, fun hexpression body hbody huses => ?_⟩, ?_⟩
      · have hfound := Syntax.Tree.containsThis_iff.mpr huses
        simp [hexpression, hbody, hfound] at hthis
      -- The body that was gone through is that of the function in the source.
      · intro kind' f' body list hdata' hbody hlist statement hmem hchain x hx
        have hbodyOf : Chain.bodyOf? t function = some body := by
          rw [Chain.bodyOf?, hdata']
          exact hbody
        cases hgives with
        | block hbody' hlist' hgives =>
          cases hbodyOf.symm.trans hbody'
          cases hlist.symm.trans hlist'
          exact ⟨statement, hgives.mem_of_mem_untilReturn hgrow hmem hchain, hafter.below hx⟩
        | concise hbody' hnone =>
          cases hbodyOf.symm.trans hbody'
          cases hnone.symm.trans hlist
        | bodiless hempty => cases hempty.symm.trans hbodyOf
  · cases h

namespace Sample

/-- `x => { const y = x; return y; }` -/
def inlinedTree : Tree where
  nodes := #[⟨.identifier "x", {}, 0, 1, none, none⟩,
    ⟨.parameter { name := some 0 }, {}, 0, 1, none, none⟩,
    ⟨.identifier "y", {}, 13, 14, none, none⟩, ⟨.identifier "x", {}, 17, 18, none, none⟩,
    ⟨.variableDeclaration (some 2) false none (some 3), {}, 13, 18, none, none⟩,
    ⟨.variableList .statement none { nodes := [4] }, {}, 7, 19, none, none⟩,
    ⟨.identifier "y", {}, 27, 28, none, none⟩, ⟨.leave .returns (some 6), {}, 20, 29, none, none⟩,
    ⟨.block .block { nodes := [5, 7] } false, {}, 5, 31, none, none⟩,
    ⟨.function .arrow { parameters := { nodes := [1] }, body := some 8 }, {}, 0, 31, none, none⟩]

def inlinedContext : Context where
  oracle := ⟨fun _ => false, fun _ => none, fun _ => none⟩
  bindings := {}

/-- The function unrolled where its value is returned. -/
def inlinedRun : Option (List NodeId) × State :=
  (unrollLiteral (unroll Limits.chainLinks) inlinedContext 9 .returned).run.run
    { tree := inlinedTree, register := {} }

end Sample

/-- The declaration of `y` stays, as the first statement. -/
theorem inlines_of_run_unrollLiteral_sample :
    Sample.inlinedRun.1 = some [5, 10] ∧
      Inlines Sample.inlinedTree Sample.inlinedTree Sample.inlinedRun.2.tree
        Sample.inlinedContext.oracle 9 [5, 10] := by
  have hids : Sample.inlinedRun.1 = some [5, 10] := by decide +kernel
  have hclosed : Sample.inlinedTree.Closed := by decide +kernel
  exact ⟨hids, inlines_of_run_unrollLiteral hclosed _ (by decide +kernel) (.refl _)
    (run_eq_of_fst hids)⟩

end Unroll

end Unchain

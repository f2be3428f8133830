import Unchain.Proofs.Unroll.Steps

/-!
# Taking back

An attempt may fail after much of it is done: receivers are unrolled, names are
declared, and returns inside of handlers await what they return. `Undoable` is
what the list `State.patched` is for: with its latest entries one gets back from
the tree of a later state to that of an earlier one.

A failed attempt takes its own entries back, so from outside it looks like a
step that only makes nodes (`Undoable.restores`). This is why attempts may be
nested.
-/

namespace Unchain

open Chain (Handler)
open Naming (Key)
open Syntax (Data Flags Node NodeId Tree)
open Syntax.Tree (Grows)

/-! ### Returns that come to return something else -/

/-- A node as it is when it has come to return `e`. -/
def Syntax.Node.returning (n : Node) (e : NodeId) : Node :=
  match n.data with
  | .leave .returns _ => { n with data := .leave .returns (some e) }
  | _ => n

namespace Syntax.Node

variable {n : Node}

theorem returning_of_return {e : Option NodeId} (h : n.data = .leave .returns e) (e' : NodeId) :
    n.returning e' = { n with data := .leave .returns (some e') } := by
  simp [returning, h]

theorem returning_of_ne (h : ∀ e, n.data ≠ .leave .returns e) (e' : NodeId) :
    n.returning e' = n := by
  unfold returning
  split
  · next e he => exact absurd he (h e)
  · rfl

theorem returning_parent (n : Node) (p : Option NodeId) (e : NodeId) :
    { n with parent := p }.returning e = { n.returning e with parent := p } := by
  by_cases h : ∃ e', n.data = .leave .returns e'
  · obtain ⟨e', he'⟩ := h
    rw [returning_of_return he', returning_of_return (n := { n with parent := p }) he']
  · have hne : ∀ e', n.data ≠ .leave .returns e' := fun e' he' => h ⟨e', he'⟩
    rw [returning_of_ne hne, returning_of_ne (n := { n with parent := p }) hne]

/-- What a node returned can be given back to it. -/
theorem returning_returning {e : NodeId} (h : n.data = .leave .returns (some e)) (e' : NodeId) :
    (n.returning e').returning e = n := by
  rw [returning_of_return h, returning_of_return rfl, ← h]

end Syntax.Node

namespace Unroll

theorem node?_setReturned (t : Tree) (id e other : NodeId) :
    (setReturned t id e).node? other =
      if id = other then (t.node? other).map (·.returning e) else t.node? other := by
  cases hid : t.node? id with
  | none =>
      have hset : setReturned t id e = t := by simp [setReturned, Tree.data?, hid]
      rw [hset]
      split
      · next h => rw [← h, hid]; rfl
      · rfl
  | some n =>
      by_cases hr : ∃ e', n.data = .leave .returns e'
      · obtain ⟨e', he'⟩ := hr
        have hset : setReturned t id e = t.setData id (.leave .returns (some e)) := by
          simp [setReturned, Tree.data?_of_node? hid, he']
        rw [hset, Tree.setData, Tree.node?_modify]
        split
        · next h =>
          rw [← h, hid, Option.map_some, Option.map_some, Node.returning_of_return he']
        · rfl
      · have hne : ∀ e', n.data ≠ .leave .returns e' := fun e' he' => hr ⟨e', he'⟩
        have hset : setReturned t id e = t := by
          unfold setReturned
          rw [Tree.data?_of_node? hid]
          split
          · next e' he' => exact absurd (Option.some.inj he') (hne e')
          · rfl
        rw [hset]
        split
        · next h => rw [← h, hid, Option.map_some, Node.returning_of_ne hne]
        · rfl

/-- A tree that has grown has still grown if a return is changed in both. -/
theorem Grows.setReturned {t t' : Tree} (h : t.Grows t') (id e : NodeId) :
    (setReturned t id e).Grows (setReturned t' id e) := by
  refine ⟨fun {other n} hn => ?_⟩
  rw [node?_setReturned] at hn ⊢
  split at hn
  · next hother =>
    obtain ⟨before, hbefore, rfl⟩ := Option.map_eq_some_iff.mp hn
    obtain ⟨p, hp⟩ := h.node hbefore
    rw [if_pos hother, hp]
    exact ⟨p, congrArg some (Node.returning_parent before p e)⟩
  · next hother =>
    rw [if_neg hother]
    exact h.node hn

/-- A tree that has grown has still grown if the same is taken back in both. -/
theorem Grows.unpatch {t t' : Tree} (h : t.Grows t') (patches : List (NodeId × NodeId)) :
    (unpatch patches t).Grows (unpatch patches t') := by
  induction patches generalizing t t' with
  | nil => exact h
  | cons patch patches ih => exact ih (Grows.setReturned h patch.1 patch.2)

theorem unpatch_append (latest older : List (NodeId × NodeId)) (t : Tree) :
    unpatch (latest ++ older) t = unpatch older (unpatch latest t) :=
  List.foldl_append

/-- Giving a return back what it returned undoes the change. -/
theorem grows_unpatch_setReturned {t : Tree} {id e : NodeId}
    (h : t.data? id = some (.leave .returns (some e))) (e' : NodeId) :
    t.Grows (unpatch [(id, e)] (setReturned t id e')) := by
  refine ⟨fun {other n} hn => ⟨n.parent, ?_⟩⟩
  change (setReturned (setReturned t id e') id e).node? other = some n
  rw [node?_setReturned, node?_setReturned, hn]
  by_cases hother : id = other
  · subst hother
    rw [Tree.data?_of_node? hn] at h
    rw [if_pos rfl, if_pos rfl, Option.map_some, Option.map_some,
      Node.returning_returning (Option.some.inj h)]
  · rw [if_neg hother, if_neg hother]

/-! ### States from which one gets back -/

/-- The latest patches of `s'` are those since `s`. Without them its tree is that of `s`, but for
new nodes and for parents. -/
def Undoable (s s' : State) : Prop :=
  ∃ since, s'.patched = since ++ s.patched ∧ s.tree.Grows (unpatch since s'.tree)

namespace Undoable

theorem of_grows {s s' : State} (hgrow : s.tree.Grows s'.tree) (hpatched : s'.patched = s.patched) :
    Undoable s s' :=
  ⟨[], hpatched, hgrow⟩

theorem refl (s : State) : Undoable s s := of_grows (.refl _) rfl

theorem trans {s₁ s₂ s₃ : State} (h : Undoable s₁ s₂) (h' : Undoable s₂ s₃) :
    Undoable s₁ s₃ := by
  obtain ⟨since, hpatched, hgrow⟩ := h
  obtain ⟨since', hpatched', hgrow'⟩ := h'
  refine ⟨since' ++ since, by rw [hpatched', hpatched, List.append_assoc], ?_⟩
  -- The later patches go first; the earlier ones are then taken back in a tree that has grown.
  rw [unpatch_append]
  exact hgrow.trans (Grows.unpatch hgrow' since)

/-- Taking the patches back that are new gives the old tree, but for new nodes and for parents. -/
theorem restores {s s' : State} (h : Undoable s s') :
    s.tree.Grows (s'.unpatch s.patched.length).tree ∧
      (s'.unpatch s.patched.length).patched = s.patched := by
  obtain ⟨since, hpatched, hgrow⟩ := h
  have hcount : s'.patched.length - s.patched.length = since.length := by
    rw [hpatched, List.length_append, Nat.add_sub_cancel]
  rw [State.unpatch, hcount, hpatched, List.take_left, List.drop_left]
  exact ⟨hgrow, rfl⟩

end Undoable

theorem Adds.undoable {s s' : State} (h : Adds s s') : Undoable s s' :=
  .of_grows h.grows h.patched

/-! ### Returns that come to await -/

/-- A return is left alone, or it comes to await what it returned and that is logged. -/
theorem run_awaitReturn (c : Context) (id : NodeId) (s : State) :
    (awaitReturn c id).run s = ((), s) ∨
      ∃ e s₁, s.tree.data? id = some (.leave .returns (some e)) ∧ Makes s s₁ ∧
        s₁.tree.data? s.tree.size = some (.unary .await (some e)) ∧
        (awaitReturn c id).run s =
          ((), { s₁ with
            tree := setReturned s₁.tree id s.tree.size
            patched := (id, e) :: s₁.patched }) := by
  have hrun : (awaitReturn c id).run s = _ := run_get_bind _ s
  rw [hrun]
  dsimp only
  split
  · next e he =>
    split
    · obtain ⟨s₁, hmake, hmakes, hnode⟩ := run_make (.unary .await (some e)) {} s
      have hmake : (makeAwait (some e)).run s = (s.tree.size, s₁) := hmake
      exact .inr ⟨e, s₁, he, hmakes, hnode.data?, run_bind hmake⟩
    · exact .inl rfl
  · exact .inl rfl

/-- The patch that is logged gives the return its expression back. -/
theorem undoable_awaitReturn (c : Context) (id : NodeId) (s : State) :
    Undoable s ((awaitReturn c id).run s).2 := by
  rcases run_awaitReturn c id s with hrun | ⟨e, s₁, he, hmakes, -, hrun⟩
  · rw [hrun]
    exact .refl s
  · rw [hrun]
    -- The return still has its old expression when the `await` has been made.
    have hreturns := hmakes.grows.data? he
    exact hmakes.undoable.trans ⟨[(id, e)], rfl, grows_unpatch_setReturned hreturns _⟩

theorem evolves_awaitReturn (c : Context) (id : NodeId) (s : State) :
    s.tree.Evolves ((awaitReturn c id).run s).2.tree := by
  rcases run_awaitReturn c id s with hrun | ⟨e, s₁, he, hmakes, hawait, hrun⟩
  · rw [hrun]
    exact .refl s.tree
  · rw [hrun]
    have hreturns := hmakes.grows.data? he
    refine hmakes.grows.evolves.trans ?_
    change s₁.tree.Evolves (setReturned s₁.tree id s.tree.size)
    rw [setReturned, hreturns]
    exact .setData_returns hreturns hawait

theorem evolves_of_run_awaitReturns (c : Context) (returns : List NodeId) {s s' : State} {u : Unit}
    (h : (returns.forM fun id => (awaitReturn c id : Attempt Unit)).run.run s = (some u, s')) :
    s.tree.Evolves s'.tree := by
  induction returns generalizing s with
  | nil =>
      cases (attempt_pure _ _).symm.trans h
      exact .refl _
  | cons id returns ih =>
      obtain ⟨u, s₁, hawait, h⟩ := of_attempt_bind h
      have hgrow := evolves_awaitReturn c id s
      rw [of_attempt_lift hawait] at hgrow
      exact hgrow.trans (ih h)

/-- Neither names nor marks change. -/
theorem keeps_awaitReturn (c : Context) (id : NodeId) (s : State) :
    ((awaitReturn c id).run s).2.register = s.register ∧
      ((awaitReturn c id).run s).2.successors = s.successors := by
  rcases run_awaitReturn c id s with hrun | ⟨e, s₁, -, hmakes, -, hrun⟩
  · rw [hrun]
    exact ⟨rfl, rfl⟩
  · rw [hrun]
    exact ⟨hmakes.register, hmakes.successors⟩

end Unroll

end Unchain

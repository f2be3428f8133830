import Unchain.Proofs.Unroll.Depicts
import Unchain.Proofs.Unroll.Gives

/-!
# What unrolling declares and writes

Whatever becomes of a chain, its statements do to bindings what the register
records (`Gives.emits`, `emits_unrollChain`). A link that is kept counts with what
is written for it; the attempt that failed has left no trace.
-/

namespace Unchain.Unroll

open Naming (Key)
open Syntax (Data NodeId Tree)
open Syntax.Tree (holds_skipParentheses)

variable {t : Tree} {c : Context} {sink : Sink} {s s' : State} {ids : List NodeId}

theorem isValue_of_holds {e : Option NodeId} (h : t.Holds e) (t' : Tree) :
    IsValue t.size t' e :=
  fun id hid => .inl (h id hid)

theorem emits_of_run_write {base : Nat} {e : Option NodeId} {isPromise : Bool}
    (hbase : base ≤ s.tree.size) (hvalue : IsValue base s.tree e)
    (h : (write c e sink isPromise).run s = (ids, s')) : Emits base s ids s' := by
  obtain ⟨ids', s'', hrun, hemits⟩ := emits_write c sink isPromise hbase hvalue
  cases hrun.symm.trans h
  exact hemits

theorem emits_of_run_writeUndefined {base : Nat} (hbase : base ≤ s.tree.size)
    (h : (writeUndefined c sink).run s = (ids, s')) : Emits base s ids s' := by
  obtain ⟨ids', s'', hrun, hemits⟩ := emits_writeUndefined c sink hbase
  cases hrun.symm.trans h
  exact hemits

theorem emits_of_run_hoist {base : Nat} (hbase : base ≤ s.tree.size)
    (h : (hoist sink).run s = (ids, s')) : Emits base s ids s' := by
  obtain ⟨ids', s'', hrun, hemits⟩ := emits_hoist sink hbase
  cases hrun.symm.trans h
  exact hemits

theorem emits_awaitReturns (base : Nat) (c : Context) (returns : List NodeId) {u : Unit}
    (h : (returns.forM fun id => (awaitReturn c id : Attempt Unit)).run.run s = (some u, s')) :
    Emits base s [] s' := by
  induction returns generalizing s with
  | nil =>
      cases (attempt_pure _ _).symm.trans h
      exact .silent (.refl _) rfl
  | cons id returns ih =>
      obtain ⟨u, s₁, hawait, h⟩ := of_attempt_bind h
      have hemits : Emits base s [] ((awaitReturn c id).run s).2 :=
        .silent (evolves_awaitReturn c id s) (keeps_awaitReturn c id s).1
      rw [of_attempt_lift hawait] at hemits
      exact (ih h).after hemits

/-- A statement of the source that is kept. -/
theorem emits_of_run_keepStatement {statement id : NodeId} (hstatement : statement < t.size)
    (h : (keepStatement c statement sink).run.run s = (some id, s')) :
    Emits t.size s [id] s' := by
  obtain ⟨rfl, ⟨rfl, -⟩ | ⟨u, hreturns⟩⟩ := of_run_keepStatement h
  · exact (Emits.silent (.refl _) rfl).plain (.inl hstatement)
  · exact (emits_awaitReturns _ c _ hreturns).plain (.inl hstatement)

/-- A `try` after what was hoisted, around statements that have been emitted. -/
theorem Emits.guarded {base : Nat} {s s₁ s₂ s₃ : State} {hoisted tried handled : List NodeId}
    {id : NodeId} {reason : Key} (hhoisted : Emits base s hoisted s₁)
    (htried : Emits base s₁ tried s₂) (hhandled : Emits base s₂ handled s₃)
    (hbase : base ≤ s₃.tree.size) (h : (makeTry tried handled reason).run s₃ = (id, s')) :
    Emits base s (hoisted ++ [id]) s' := by
  obtain ⟨id', s₄, hrun, hadds, hregister, htry, hsize⟩ := run_makeTry tried handled reason s₃
  cases hrun.symm.trans h
  obtain ⟨hgrow₂, es₁, hdepicts₁, hfollows₁⟩ := htried
  obtain ⟨hgrow₃, es₂, hdepicts₂, hfollows₂⟩ := hhandled
  -- Names never change, so all three parts are read with the names at the start.
  have hname₂ : s₂.register.name? = s₁.register.name? := funext hfollows₁.name?
  have hname₃ : s₃.register.name? = s₂.register.name? := funext hfollows₂.name?
  have hgrow₄ := hadds.grows.evolves
  refine hhoisted.append ⟨hgrow₂.trans (hgrow₃.trans hgrow₄), es₁ ++ (es₂ ++ [.catches reason]),
    ?_, ?_⟩
  · rw [hname₃, hname₂] at htry
    rw [hname₂] at hdepicts₂
    exact .guards (Nat.le_trans hbase hsize) htry
      (hdepicts₁.evolves (hgrow₃.trans hgrow₄)) (hdepicts₂.evolves hgrow₄) .nil
  · rw [hregister]
    exact hfollows₁.append (hfollows₂.append (.single (e := .catches reason) trivial))

/-- What is given does to bindings what the register records. -/
theorem Gives.emits {task : Task} (ht : t.Closed) (h : Gives t c task s ids s')
    (hgrow : t.Evolves s.tree) : Emits t.size s ids s' := by
  induction h with
  | written he hpasses hregister _ hrun =>
      have hsilent : Emits t.size _ [] _ := .silent hpasses.evolves hregister
      exact (emits_of_run_write (hgrow.trans hpasses.evolves).size_le
        (isValue_of_holds (holds_skipParentheses ht he) _) hrun).after hsilent
  | member _ _ ih => exact ih hgrow
  | pass _ _ ih => exact ih hgrow
  | rescue _ hhoist _ _ hmake ihtried ihhandled =>
      have hhoisted := emits_of_run_hoist hgrow.size_le hhoist
      have hgrow₁ := hgrow.trans hhoisted.evolves
      have htried := ihtried hgrow₁
      have hgrow₂ := hgrow₁.trans htried.evolves
      have hhandled := ihhandled hgrow₂
      exact hhoisted.guarded htried hhandled (hgrow₂.trans hhandled.evolves).size_le hmake
  | proceed _ _ _ ihbefore ihafter =>
      have hbefore := ihbefore hgrow
      exact hbefore.append (ihafter (hgrow.trans hbefore.evolves))
  | either _ hhoist _ _ _ hmake ihbefore ihafter ihhandled =>
      have hhoisted := emits_of_run_hoist hgrow.size_le hhoist
      have hgrow₁ := hgrow.trans hhoisted.evolves
      have hbefore := ihbefore hgrow₁
      have hgrow₂ := hgrow₁.trans hbefore.evolves
      have hafter := ihafter hgrow₂
      have hgrow₃ := hgrow₂.trans hafter.evolves
      have hhandled := ihhandled hgrow₃
      exact hhoisted.guarded (hbefore.append hafter) hhandled
        (hgrow₃.trans hhandled.evolves).size_le hmake
  | call hmakes hcall hrun =>
      have hgrow₁ := hgrow.trans hmakes.grows.evolves
      exact (emits_of_run_write hgrow₁.size_le (isValue_of_data? hcall (by simp)) hrun).after
        (hmakes.emits _)
  | block _ _ _ ih => exact ih hgrow
  | concise _ _ _ ih => exact ih hgrow
  | bodiless _ hrun => exact emits_of_run_write hgrow.size_le isValue_none hrun
  | done hrun => exact emits_of_run_writeUndefined hgrow.size_le hrun
  | returns _ _ _ ih => exact ih hgrow
  | @leaves _ _ _ _ s _ _ hrun =>
      obtain ⟨s₁, hreturn, hmakes, hnode⟩ := run_make (.leave .returns none) {} s
      cases hreturn.symm.trans hrun
      exact (hmakes.emits _).plain (.inr (.inl ⟨none, hnode.data?⟩))
  | ends _ _ hrun => exact emits_of_run_writeUndefined hgrow.size_le hrun
  | chain _ _ _ _ ihfirst ihrest =>
      have hfirst := ihfirst hgrow
      exact hfirst.append (ihrest (hgrow.trans hfirst.evolves))
  | keep hstatement _ hkeep _ ihrest =>
      have hkept := emits_of_run_keepStatement hstatement hkeep
      exact hkept.append (ihrest (hgrow.trans hkept.evolves))
  | nested _ _ _ ih => exact (ih hgrow).after (.silent (.refl _) rfl)
  | plain he _ hrun =>
      refine emits_of_run_write hgrow.size_le ?_ hrun
      rcases he with ⟨he, -⟩ | ⟨awaited, hawait⟩
      · exact isValue_of_lt he
      · exact isValue_of_data? hawait (by simp)

theorem emits_unrollChain (ht : t.Closed) (c : Context) {e : NodeId} (sink : Sink)
    (hgrow : t.Evolves s.tree) (he : e < t.size) :
    Emits t.size s ((unrollChain c e sink).run s).1.statements
      ((unrollChain c e sink).run s).2 :=
  (gives_unrollChain ht c sink hgrow he).emits ht hgrow

end Unchain.Unroll

import Unchain.Proofs.Chain.Spine
import Unchain.Proofs.Unroll.Walk

/-!
# What happens to the state

Unrolling a chain changes a state in four ways only: nodes are made and names are
recorded, a return comes to await what it returns, the links of a chain are marked,
and an attempt that failed is taken back. `Passes` says that a state comes from another
one in these ways, so what all of them keep is kept by unrolling. The tree evolves
(`Passes.evolves`), and what was done can be undone (`Passes.undoable`).

The first use is for links that are kept as written: whatever the attempt to convert
them did before it failed, they are kept in a state that is as good as the old one
(`keeps_of_tryLink_fails`).
-/

namespace Unchain.Unroll

open Binding (Table)
open Chain (Handler)
open Promise (Oracle)
open Syntax (Data NodeId Tree)
open Syntax.Tree (holds_skipParentheses holds_some)

variable {o : Oracle} {Marks : NodeId → Prop} {s s₁ s₂ : State}

/-- A state that comes from another one by unrolling, with no other chains marked than `Marks`. -/
inductive Passes (o : Oracle) (Marks : NodeId → Prop) : State → State → Prop
  | refl (s : State) : Passes o Marks s s
  | adds {s s₁ s₂ : State} (h : Passes o Marks s s₁) (hadds : Adds s₁ s₂) : Passes o Marks s s₂
  | awaits {s s₁ : State} (c : Context) (id : NodeId) (h : Passes o Marks s s₁) :
      Passes o Marks s ((awaitReturn c id).run s₁).2
  | marks {s s₁ : State} {e : NodeId} (h : Passes o Marks s s₁) (he : Marks e) :
      Passes o Marks s { s₁ with successors := s₁.successors.mark s₁.tree o (some e) false }
  | undoes {s s₁ s₂ : State} (h : Passes o Marks s s₁) (hfailed : Passes o Marks s₁ s₂) :
      Passes o Marks s { s₂.unpatch s₁.patched.length with register := s₁.register }

namespace Passes

theorem trans (h : Passes o Marks s s₁) (h' : Passes o Marks s₁ s₂) : Passes o Marks s s₂ := by
  induction h' with
  | refl => exact h
  | adds _ hadds ih => exact .adds (ih h) hadds
  | awaits c id _ ih => exact .awaits c id (ih h)
  | marks _ he ih => exact .marks (ih h) he
  | undoes _ hfailed ih => exact .undoes (ih h) hfailed

theorem undoable (h : Passes o Marks s s₁) : Undoable s s₁ := by
  induction h with
  | refl s => exact .refl s
  | adds _ hadds ih => exact ih.trans hadds.undoable
  | awaits c id _ ih => exact ih.trans (undoable_awaitReturn c id _)
  | marks _ _ ih => exact ih.trans (.of_grows (.refl _) rfl)
  | undoes _ _ ih ihfailed =>
      -- What an attempt did is gone when it has failed.
      exact ih.trans (.of_grows ihfailed.restores.1 ihfailed.restores.2)

theorem evolves (h : Passes o Marks s s₁) : s.tree.Evolves s₁.tree := by
  induction h with
  | refl s => exact .refl s.tree
  | adds _ hadds ih => exact ih.trans hadds.grows.evolves
  | awaits c id _ ih => exact ih.trans (evolves_awaitReturn c id _)
  | marks _ _ ih => exact ih
  | undoes _ hfailed ih => exact ih.trans hfailed.undoable.restores.1.evolves

end Passes

/-- Where no binding matters, a step is as good as what it makes of the state. -/
theorem modular_passes (o : Oracle) (Marks : NodeId → Prop) :
    Modular o (fun _ => True) Marks fun s x => Passes o Marks s (x.run s).2 where
  evolves h := h.evolves
  pure s _ := .refl s
  bind hx hf := hx.trans hf
  get _ h := h
  make s data flags := by
    obtain ⟨s', hrun, hmakes, -⟩ := run_make data flags s
    rw [hrun]
    exact .adds (.refl s) hmakes.toAdds
  names s _ _ := .adds (.refl s) ⟨.refl s.tree, rfl, rfl⟩
  awaits s c id := .awaits c id (.refl s)
  marks s _ he := .marks (.refl s) he
  -- What a failed attempt has done is taken back, all but the nodes and marks.
  attempt {_ s a} ha := by
    rcases hrun : a.run.run s with ⟨result | result, s₁⟩
    · rw [hrun] at ha
      rw [attempt_run_of_none hrun]
      exact .undoes (.refl s) ha
    · rw [hrun] at ha
      rwa [attempt_run_of_some hrun]

/-! ### Any expression -/

/-- Anything can come up. -/
def Scope.anything (o : Oracle) (b : Table) : Scope o b (fun _ => True) fun _ => True where
  Sees _ := True
  Links _ _ _ := True
  Handles _ _ := True
  Nests _ _ := True
  Follows _ := True
  evolves _ _ := trivial
  onward _ _ _ := trivial
  handlers _ _ := ⟨trivial, trivial⟩
  reads _ _ _ := trivial
  nests _ _ _ := trivial
  chain _ _ := trivial
  marks _ := trivial
  follows _ := trivial

theorem Sink.within_all (sink : Sink) : sink.Within fun _ => True := fun _ _ => trivial

theorem Outlet.within_all (outlet : Outlet) : outlet.Within fun _ => True :=
  ⟨fun _ _ => trivial, outlet.final.within_all⟩

section

variable (o : Oracle) (Marks : NodeId → Prop) {c : Context} {sink : Sink} {s' : State}

theorem Passes.of_run {α : Type} {x : Step α} {a : α} {o : Oracle} {Marks : NodeId → Prop}
    (h : Passes o Marks s (x.run s).2) (hrun : x.run s = (a, s')) : Passes o Marks s s' := by
  rwa [hrun] at h

theorem passes_of_run_hoist {ids : List NodeId} (h : (hoist sink).run s = (ids, s')) :
    Passes o Marks s s' :=
  .of_run ((modular_passes o Marks).hoist sink.within_all s) h

theorem passes_of_run_keepStatement {statement : NodeId} {result : Option NodeId}
    (h : (keepStatement c statement sink).run.run s = (result, s')) : Passes o Marks s s' :=
  .of_run ((modular_passes o Marks).keepStatement c statement s) h

end

/-! ### Expressions of the source -/

section

variable {t u : Tree}

/-- A handler that is written in place is a function of the source. -/
def InSource (t : Tree) (handler : Handler) : Prop :=
  ∀ function, handler = .literal function → function < t.size

theorem inSource_handlerOf (ht : t.Closed) (o : Oracle) (hgrow : t.Evolves u)
    {argument : Option NodeId} (hargument : t.Holds argument) :
    InSource t (Chain.handlerOf u o argument) := by
  intro function h
  rw [Chain.handlerOf_evolves hgrow ht o hargument] at h
  have hskip : t.skipParentheses argument = some function :=
    Chain.skip_of_handlerOf (by rw [h]; rfl)
  exact holds_skipParentheses ht hargument function hskip

/-- A link leads to what it led to in the source. -/
theorem linkOf_skipParentheses_evolves (ht : t.Closed) (o : Oracle) (hgrow : t.Evolves u)
    {e : Option NodeId} (he : t.Holds e) :
    Chain.linkOf u o (u.skipParentheses e) = Chain.linkOf t o (t.skipParentheses e) := by
  rw [hgrow.skipParentheses ht he, Chain.linkOf_evolves hgrow ht o (holds_skipParentheses ht he)]

theorem holds_of_onward? (ht : t.Closed) {e part : Option NodeId}
    (h : (Chain.linkOf t o e).onward? = some part) : t.Holds part := by
  cases hlink : Chain.linkOf t o e with
  | thenCall callee receiver onFulfilled onRejected =>
      rw [hlink] at h
      obtain rfl := Option.some.inj h
      exact holds_some.mpr (Chain.holds_of_thenCall ht hlink).1
  | catchCall callee receiver onRejected =>
      rw [hlink] at h
      obtain rfl := Option.some.inj h
      exact holds_some.mpr (Chain.holds_of_catchCall ht hlink).1
  | member receiver =>
      rw [hlink] at h
      obtain rfl := Option.some.inj h
      exact Chain.holds_of_member ht hlink
  | _ => rw [hlink] at h; cases h

/-- Only expressions of the source come up. -/
def Scope.source (ht : t.Closed) (o : Oracle) (b : Table) :
    Scope o b (fun _ => True) (· < t.size) where
  Sees u := t.Evolves u
  Links _ _ e := t.Holds e
  Handles _ site := InSource t site.handler
  Nests _ e := e < t.size
  Follows _ := True
  evolves h hgrow := h.trans hgrow
  onward h he hpart := by
    rw [linkOf_skipParentheses_evolves ht o h he] at hpart
    exact holds_of_onward? ht hpart
  handlers h he := by
    rw [linkOf_skipParentheses_evolves ht o h he]
    obtain ⟨hfulfilled, hrejected⟩ := Naming.holds_handlers ht
    exact ⟨inSource_handlerOf ht o h hfulfilled, inSource_handlerOf ht o h hrejected⟩
  reads _ _ _ := trivial
  nests h hsite he := Naming.lt_size_of_mem_handlerChains ht
    ((Naming.offers_of_evolves b h ht).chains (hsite _ rfl) he)
  chain _ he := holds_some.mpr he
  marks he := he
  follows _ := trivial

end

/-! ### Links that are kept -/

/-- The attempt that `unroll` makes. It fails at once if there is no depth left. -/
def tryLink : Nat → Context → Option NodeId → Outlet → Attempt (List NodeId)
  | 0, _, _, _ => failure
  | depth + 1, c, e, outlet => unrollLink (unroll depth) c e outlet

theorem passes_tryLink (depth : Nat) (c : Context) (e : Option NodeId) (outlet : Outlet)
    (s : State) :
    Passes c.oracle (fun _ => True) s ((tryLink depth c e outlet).run.run s).2 := by
  have hpasses := modular_passes c.oracle fun _ => True
  cases depth with
  | zero => exact .refl s
  | succ depth =>
      exact hpasses.unrollLink outlet.within_all (hpasses.unroll (.anything c.oracle c.bindings)
        trivial) trivial trivial trivial

/-- Wherever the attempt to convert a link fails, and whatever it did until then, the link is kept
in a state with the old names and patches, in which every node that was there before is what it
was, parents aside. It is kept for the same outlet at the same place: inside or outside of a `try`,
and with as many handlers around it as before. A whole chain is kept in the same way. -/
theorem keeps_of_tryLink_fails {depth : Nat} {c : Context} {e : Option NodeId} {outlet : Outlet}
    {s failed : State} (hfails : (tryLink depth c e outlet).run.run s = (none, failed)) :
    ∃ kept, (attempt (tryLink depth c e outlet)).run s = (none, kept) ∧
      (unroll depth c e outlet).run s = (keepLink c e outlet).run kept ∧
      (∀ chain sink, depth = Limits.chainLinks → e = some chain → outlet = { final := sink } →
        (unrollChain c chain sink).run s =
          ((fun statements => ⟨statements, true⟩) <$> keepLink c e outlet).run kept) ∧
      kept.register = s.register ∧ kept.patched = s.patched ∧ s.tree.Grows kept.tree := by
  have hundo : Undoable s failed := by
    have h := passes_tryLink depth c e outlet s
    rw [hfails] at h
    exact h.undoable
  have hattempt := attempt_run_of_none hfails
  refine ⟨_, hattempt, ?_, ?_, rfl, hundo.restores.2, hundo.restores.1⟩
  · cases depth with
    | zero =>
        -- Nothing was tried, so there is nothing to take back.
        obtain rfl : s = failed := congrArg Prod.snd hfails
        rw [State.unpatch_length]
        rfl
    | succ depth => exact run_bind hattempt
  · rintro chain sink rfl rfl rfl
    exact run_bind hattempt

namespace Sample

/-- `p.then(f).then(() => { { return q; } }, async () => 0)` -/
def undoTree : Tree where
  nodes := #[⟨.identifier "p", {}, 0, 1, none, none⟩, ⟨.identifier "then", {}, 2, 6, none, none⟩,
    ⟨.access .property (some 0) (some 1) false, {}, 0, 6, none, none⟩,
    ⟨.identifier "f", {}, 7, 8, none, none⟩,
    ⟨.call .call (some 2) none (some { nodes := [3] }), {}, 0, 9, none, none⟩,
    ⟨.identifier "then", {}, 10, 14, none, none⟩,
    ⟨.access .property (some 4) (some 5) false, {}, 0, 14, none, none⟩,
    ⟨.identifier "q", {}, 32, 33, none, none⟩, ⟨.leave .returns (some 7), {}, 25, 34, none, none⟩,
    ⟨.block .block { nodes := [8] } false, {}, 23, 36, none, none⟩,
    ⟨.block .block { nodes := [9] } false, {}, 21, 38, none, none⟩,
    ⟨.function .arrow { body := some 10 }, {}, 15, 38, none, none⟩,
    ⟨.literal .number "0" none, {}, 52, 53, none, none⟩,
    ⟨.function .arrow { isAsync := true, body := some 12 }, {}, 40, 53, none, none⟩,
    ⟨.call .call (some 6) none (some { nodes := [11, 13] }), {}, 0, 54, none, none⟩]

def undoContext : Context where
  oracle := ⟨[0, 4, 7, 14].contains, fun _ => none, fun _ => none⟩
  bindings := {}

def undoState : State where
  tree := undoTree
  register := ⟨[(.minted 3, { name := "result" }), (.minted 13, { name := "e" })], ["e", "result"]⟩
  successors := ({} : Chain.Successors).mark undoTree undoContext.oracle (some 14) false

/-- The attempt to convert the chain. -/
def undoAttempt : Option (List NodeId) × State :=
  (tryLink Limits.chainLinks undoContext (some 14) { final := .returned }).run.run undoState

end Sample

/-- The receiver and the first handler are converted, and a return of the handler awaits its
promise, when it turns out that the second handler cannot be converted. -/
theorem keeps_of_tryLink_fails_sample :
    Sample.undoAttempt.1 = none ∧ Sample.undoAttempt.2.patched = [(8, 7)] ∧
    Sample.undoAttempt.2.register ≠ Sample.undoState.register ∧
    ∃ kept, (unrollChain Sample.undoContext 14 .returned).run Sample.undoState =
        ((fun statements => ⟨statements, true⟩) <$>
          keepLink Sample.undoContext (some 14) { final := .returned }).run kept ∧
      kept.register = Sample.undoState.register ∧ kept.patched = [] ∧
      Sample.undoState.tree.Grows kept.tree := by
  have hfails : Sample.undoAttempt = (none, Sample.undoAttempt.2) :=
    run_eq_of_fst (by decide +kernel)
  obtain ⟨kept, -, -, hchain, hregister, hpatched, hgrow⟩ := keeps_of_tryLink_fails hfails
  exact ⟨by decide +kernel, by decide +kernel, by decide +kernel, kept,
    hchain 14 .returned rfl rfl rfl, hregister, hpatched, hgrow⟩

end Unchain.Unroll

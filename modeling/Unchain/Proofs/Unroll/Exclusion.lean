import Unchain.Proofs.Execution.Trace
import Unchain.Proofs.Unroll.Links
import Unchain.Proofs.Unroll.Refines

/-!
# Links with two handlers

`receiver.then(handler, onRejected)` becomes a `try` whose block holds the statements of the
receiver and then those of `handler`; those of `onRejected` stand in the `catch`. A promise calls
one of its handlers only. In the `try`, what `handler` throws is handled too, as it would be for
`receiver.then(handler).catch(onRejected)`: `executes_unrollLink_both` lists the ways in which the
statements execute, whatever the statements of the receiver and of the handlers are.
-/

namespace Unchain

open Chain (Handler moveOf?)
open Execution (Completion Executes Meaning TryParts catchParts?)
open Naming (Key)
open Syntax (NodeId Tree)
open Syntax.Tree (Evolves)

variable {σ V : Type}

namespace Unroll

/-! ### The branches of a link -/

/-- The statements for the parts of a link with two handlers. -/
structure Branches where
  receiver : List NodeId
  /-- Of the handler for values. -/
  fulfilled : List NodeId
  /-- Of the handler for reasons. -/
  rejected : List NodeId
  /-- What the reason is called. -/
  reason : Option String

/-- How the statements of a link with two handlers execute. -/
inductive Branches.Runs (t : Tree) (m : Meaning σ V) (b : Branches) :
    σ → List NodeId → Completion V → σ → Prop where
  /-- The statements of the receiver leave the function. -/
  | left {s s₁ begun v}
      (hreceiver : Executes t m (.statements b.receiver) s begun (.returned v) s₁) :
      b.Runs t m s begun (.returned v) (m.leave s s₁)
  /-- The receiver has a value, and the handler for it does not throw. -/
  | value {s s₁ s₂ begun begun' c}
      (hreceiver : Executes t m (.statements b.receiver) s begun .normal s₁)
      (hfulfilled : Executes t m (.statements b.fulfilled) s₁ begun' c s₂)
      (hc : ∀ x, c ≠ .thrown x) : b.Runs t m s (begun ++ begun') c (m.leave s s₂)
  /-- The receiver is rejected, and its reason is handled. -/
  | reason {s s₁ s₂ begun begun' x c}
      (hreceiver : Executes t m (.statements b.receiver) s begun (.thrown x) s₁)
      (hrejected : Executes t m (.statements b.rejected) (m.enter b.reason x (m.leave s s₁))
        begun' c s₂) : b.Runs t m s (begun ++ begun') c (m.leave s s₂)
  /-- The receiver has a value, the handler for it throws, and what it throws is handled. -/
  | failure {s s₁ s₂ s₃ begun begun' begun'' x c}
      (hreceiver : Executes t m (.statements b.receiver) s begun .normal s₁)
      (hfulfilled : Executes t m (.statements b.fulfilled) s₁ begun' (.thrown x) s₂)
      (hrejected : Executes t m (.statements b.rejected) (m.enter b.reason x (m.leave s s₂))
        begun'' c s₃) : b.Runs t m s (begun ++ begun' ++ begun'') c (m.leave s s₃)

/-- How a promise would run the branches: it calls the second handler if the receiver is rejected,
and only then. What the first handler throws is not handled. -/
inductive Branches.Settles (t : Tree) (m : Meaning σ V) (b : Branches) :
    σ → List NodeId → Completion V → σ → Prop where
  | left {s s₁ begun v}
      (hreceiver : Executes t m (.statements b.receiver) s begun (.returned v) s₁) :
      b.Settles t m s begun (.returned v) (m.leave s s₁)
  | value {s s₁ s₂ begun begun' c}
      (hreceiver : Executes t m (.statements b.receiver) s begun .normal s₁)
      (hfulfilled : Executes t m (.statements b.fulfilled) s₁ begun' c s₂) :
      b.Settles t m s (begun ++ begun') c (m.leave s s₂)
  | reason {s s₁ s₂ begun begun' x c}
      (hreceiver : Executes t m (.statements b.receiver) s begun (.thrown x) s₁)
      (hrejected : Executes t m (.statements b.rejected) (m.enter b.reason x (m.leave s s₁))
        begun' c s₂) : b.Settles t m s (begun ++ begun') c (m.leave s s₂)

/-- Branches run as a promise would run them if the first handler does not throw. -/
theorem Branches.runs_iff_settles {t : Tree} {m : Meaning σ V} {b : Branches} {s s' : σ}
    {begun : List NodeId} {c : Completion V}
    (h : ∀ s₁ s₂ begun x, ¬ Executes t m (.statements b.fulfilled) s₁ begun (.thrown x) s₂) :
    b.Runs t m s begun c s' ↔ b.Settles t m s begun c s' := by
  constructor
  · intro hruns
    cases hruns with
    | left hreceiver => exact .left hreceiver
    | value hreceiver hfulfilled _ => exact .value hreceiver hfulfilled
    | reason hreceiver hrejected => exact .reason hreceiver hrejected
    | failure _ hfulfilled _ => exact absurd hfulfilled (h _ _ _ _)
  · intro hsettles
    cases hsettles with
    | left hreceiver => exact .left hreceiver
    | value hreceiver hfulfilled =>
        exact .value hreceiver hfulfilled fun x hx => h _ _ _ x (hx ▸ hfulfilled)
    | reason hreceiver hrejected => exact .reason hreceiver hrejected

/-- A `try` with the receiver and the first handler in its block executes in these four ways. -/
theorem executes_branches {t : Tree} {m : Meaning σ V} {b : Branches} {id : NodeId}
    (hid : catchParts? t id = some ⟨b.receiver ++ b.fulfilled, b.reason, b.rejected⟩) {s s' : σ}
    {begun : List NodeId} {c : Completion V} :
    Executes t m (.statement id) s begun c s' ↔ b.Runs t m s begun c s' := by
  rw [Execution.executes_try hid]
  constructor
  · rintro (⟨s₁, htried, hc, rfl⟩ | ⟨s₁, s₂, begun₁, begun₂, x, htried, hrejected, rfl, rfl⟩)
    · rcases Execution.executes_append.mp htried with
        ⟨hreceiver, hne⟩ | ⟨s₂, begun₁, begun₂, hreceiver, hfulfilled, rfl⟩
      · cases c with
        | normal => exact absurd rfl hne
        | returned v => exact .left hreceiver
        | thrown x => exact absurd rfl (hc x)
      · exact .value hreceiver hfulfilled hc
    · rcases Execution.executes_append.mp htried with
        ⟨hreceiver, -⟩ | ⟨s₃, begun₃, begun₄, hreceiver, hfulfilled, rfl⟩
      · exact .reason hreceiver hrejected
      · exact .failure hreceiver hfulfilled hrejected
  · intro h
    cases h with
    | left hreceiver =>
        exact .inl ⟨_, Execution.executes_append.mpr (.inl ⟨hreceiver, nofun⟩), nofun, rfl⟩
    | value hreceiver hfulfilled hc =>
        exact .inl ⟨_, Execution.executes_append.mpr (.inr ⟨_, _, _, hreceiver, hfulfilled, rfl⟩),
          hc, rfl⟩
    | reason hreceiver hrejected =>
        exact .inr ⟨_, _, _, _, _, Execution.executes_append.mpr (.inl ⟨hreceiver, nofun⟩),
          hrejected, rfl, rfl⟩
    | failure hreceiver hfulfilled hrejected =>
        exact .inr ⟨_, _, _, _, _,
          Execution.executes_append.mpr (.inr ⟨_, _, _, hreceiver, hfulfilled, rfl⟩),
          hrejected, rfl, rfl⟩

/-! ### What is written for a link -/

theorem catchParts?_of_isTry {t t' : Tree} {tried handled : List NodeId} {text : Option String}
    {id : NodeId} (h : IsTry t tried text handled id) (hgrow : Evolves t t') :
    catchParts? t' id = some ⟨tried, text, handled⟩ := by
  obtain ⟨block, clause, binding, body, hid, hblock, hclause, hbody, hreason⟩ := h.evolves hgrow
  have hreason' : Execution.reason? t' binding = some text := by
    cases text with
    | none =>
        obtain rfl := hreason
        rfl
    | some text =>
        obtain ⟨declarator, rfl, target, hdeclarator, htarget⟩ := hreason
        simp [Execution.reason?, hdeclarator, Tree.identifierText?, Tree.partData?, htarget]
  simp [catchParts?, hid, Tree.statements?, hblock, hclause, hreason', hbody]

/-- The branches of a link `receiver.then(handler, onRejected)` are unrolled one after another, the
receiver and `handler` at a place where failures are seen. -/
structure UnrollsBoth (unroll : Unroller) (c : Context) (callee : NodeId)
    (handler onRejected : Handler) (outlet : Outlet) (sink : Sink) (s : State)
    (hoisted : List NodeId) (b : Branches) : Prop where
  steps : ∃ argument reason s₁ s₂ s₃ s₄,
    Naming.valueKey? s.tree c.bindings handler = some argument ∧
    Naming.reasonKey? s.tree c.bindings onRejected = some reason ∧
    (hoist sink).run s = (hoisted, s₁) ∧
    (unroll { c with inTry := true } (some callee) { outlet with argument }).run s₁ =
      (b.receiver, s₂) ∧
    (unrollHandler unroll { c with inTry := true } handler argument sink).run.run s₂ =
      (some b.fulfilled, s₃) ∧
    (unrollHandler unroll c onRejected (some reason) sink).run.run s₃ = (some b.rejected, s₄) ∧
    b.reason = s₄.register.name? reason

/-- A link with two handlers becomes a `try` around its branches. -/
theorem of_run_unrollBoth {unroll : Unroller} {c : Context} {callee : NodeId}
    {handler onRejected : Handler} {outlet : Outlet} {sink : Sink} {s s' : State}
    {ids : List NodeId}
    (h : (unrollBoth unroll c callee handler onRejected outlet sink).run.run s = (some ids, s')) :
    ∃ hoisted b id, ids = hoisted ++ [id] ∧
      UnrollsBoth unroll c callee handler onRejected outlet sink s hoisted b ∧
      IsTry s'.tree (b.receiver ++ b.fulfilled) b.reason b.rejected id := by
  obtain ⟨argument, s₀, hrun, h⟩ := of_attempt_bind ((attempt_get_bind _ s).symm.trans h)
  obtain ⟨hargument, rfl⟩ := Prod.mk.inj ((attempt_orFail _ s).symm.trans hrun)
  obtain ⟨reason, s₀, hrun, h⟩ := of_attempt_bind h
  obtain ⟨hreason, rfl⟩ := Prod.mk.inj ((attempt_orFail _ _).symm.trans hrun)
  obtain ⟨hoisted, s₁, hhoist, h⟩ := of_attempt_bind h
  obtain ⟨receiver, s₂, hreceiver, h⟩ := of_attempt_bind h
  obtain ⟨fulfilled, s₃, hfulfilled, h⟩ := of_attempt_bind h
  obtain ⟨rejected, s₄, hrejected, h⟩ := of_attempt_bind h
  obtain ⟨id, s₅, hmake, h⟩ := of_attempt_bind h
  obtain ⟨id', s₆, hmakeTry, -, -, htry, -⟩ :=
    run_makeTry (receiver ++ fulfilled) rejected reason s₄
  cases hmakeTry.symm.trans (of_attempt_lift hmake)
  cases (attempt_pure _ _).symm.trans h
  exact ⟨hoisted, ⟨receiver, fulfilled, rejected, s₄.register.name? reason⟩, id, rfl,
    ⟨argument, reason, s₁, s₂, s₃, s₄, hargument, hreason, of_attempt_lift hhoist,
      of_attempt_lift hreceiver, hfulfilled, hrejected, rfl⟩, htry⟩

/-- So does a link in a chain, whichever way its expressions are unrolled. -/
theorem of_run_unrollLink_both {unroll : Unroller} {c : Context} {e : Option NodeId}
    {outlet : Outlet} {s s' : State} {id callee receiver : NodeId}
    {onFulfilled onRejected : Option NodeId} {ids : List NodeId}
    (hskip : s.tree.skipParentheses e = some id)
    (hlink : Chain.linkOf s.tree c.oracle (some id) =
      .thenCall callee receiver onFulfilled onRejected)
    (hfulfilled : Chain.handlerOf s.tree c.oracle onFulfilled ≠ .absent)
    (hrejected : Chain.handlerOf s.tree c.oracle onRejected ≠ .absent)
    (h : (unrollLink unroll c e outlet).run.run s = (some ids, s')) :
    ∃ hoisted b tryId, ids = hoisted ++ [tryId] ∧
      UnrollsBoth unroll c callee (Chain.handlerOf s.tree c.oracle onFulfilled)
        (Chain.handlerOf s.tree c.oracle onRejected) outlet (outlet.sink (s.successors.has id))
        s hoisted b ∧
      IsTry s'.tree (b.receiver ++ b.fulfilled) b.reason b.rejected tryId := by
  have hmove : moveOf? s.tree c.oracle (Chain.linkOf s.tree c.oracle (some id)) =
      some (callee, receiver, .either (Chain.handlerOf s.tree c.oracle onFulfilled)
        (Chain.handlerOf s.tree c.oracle onRejected)) := by
    rw [hlink]
    cases hf : Chain.handlerOf s.tree c.oracle onFulfilled with
    | absent => exact absurd hf hfulfilled
    | _ =>
        cases hr : Chain.handlerOf s.tree c.oracle onRejected with
        | absent => exact absurd hr hrejected
        | _ => simp only [moveOf?, hf, hr]
  exact of_run_unrollBoth ((run_unrollLink_move hskip hmove).symm.trans h)

/-- Wherever a link with two handlers is unrolled, its statements execute as its branches run: the
second handler handles what the receiver throws, and also what the first handler throws. If the
first handler does not throw, they run as a promise would run them. -/
theorem executes_unrollLink_both {depth : Nat} {c : Context} {e : Option NodeId}
    {outlet : Outlet} {s s' : State} {id callee receiver : NodeId}
    {onFulfilled onRejected : Option NodeId} {ids : List NodeId}
    (hskip : s.tree.skipParentheses e = some id)
    (hlink : Chain.linkOf s.tree c.oracle (some id) =
      .thenCall callee receiver onFulfilled onRejected)
    (hfulfilled : Chain.handlerOf s.tree c.oracle onFulfilled ≠ .absent)
    (hrejected : Chain.handlerOf s.tree c.oracle onRejected ≠ .absent)
    (hrun : (unrollLink (unroll depth) c e outlet).run.run s = (some ids, s')) :
    ∃ hoisted b tryId, ids = hoisted ++ [tryId] ∧
      UnrollsBoth (unroll depth) c callee (Chain.handlerOf s.tree c.oracle onFulfilled)
        (Chain.handlerOf s.tree c.oracle onRejected) outlet (outlet.sink (s.successors.has id))
        s hoisted b ∧
      ∀ t, Evolves s'.tree t → ∀ m : Meaning σ V,
        (∀ s₁ s₂ begun completion, Executes t m (.statement tryId) s₁ begun completion s₂ ↔
          b.Runs t m s₁ begun completion s₂) ∧
        ((∀ s₁ s₂ begun x, ¬ Executes t m (.statements b.fulfilled) s₁ begun (.thrown x) s₂) →
          ∀ s₁ s₂ begun completion, Executes t m (.statement tryId) s₁ begun completion s₂ ↔
            b.Settles t m s₁ begun completion s₂) := by
  obtain ⟨hoisted, b, tryId, hids, hunrolls, htry⟩ :=
    of_run_unrollLink_both hskip hlink hfulfilled hrejected hrun
  refine ⟨hoisted, b, tryId, hids, hunrolls, fun t ht m => ?_⟩
  have hexecutes : ∀ s₁ s₂ begun completion,
      Executes t m (.statement tryId) s₁ begun completion s₂ ↔ b.Runs t m s₁ begun completion s₂ :=
    fun _ _ _ _ => executes_branches (catchParts?_of_isTry htry ht)
  refine ⟨hexecutes, fun hnever s₁ s₂ begun completion => ?_⟩
  rw [hexecutes]
  exact Branches.runs_iff_settles hnever

namespace Sample

/-- `p.then(f, g)` -/
def linkTree : Tree where
  nodes := #[⟨.identifier "p", {}, 0, 1, none, none⟩, ⟨.identifier "then", {}, 2, 6, none, none⟩,
    ⟨.access .property (some 0) (some 1) false, {}, 0, 6, none, none⟩,
    ⟨.identifier "f", {}, 7, 8, none, none⟩, ⟨.identifier "g", {}, 10, 11, none, none⟩,
    ⟨.call .call (some 2) none (some { nodes := [3, 4] }), {}, 0, 12, none, none⟩]

def linkContext : Context where
  oracle := ⟨[0, 5].contains, fun _ => none, fun _ => none⟩
  bindings := {}

def linkState : State where
  tree := linkTree
  register := ⟨[(.minted 3, { name := "result" }), (.minted 4, { name := "e" })], ["e", "result"]⟩
  successors := ({} : Chain.Successors).mark linkTree linkContext.oracle (some 5) false

/-- What becomes of the link where its value is returned. -/
def unrolledLink : Option (List NodeId) × State :=
  (unrollLink (unroll 2) linkContext (some 5) { final := .returned }).run.run linkState

/-- `try { const result = await p; return f(result); } catch (e) { return g(e); }`, where `f` is
awaited. -/
def linkBranches : Branches := ⟨[9], [13], [16], some "e"⟩

/-- A machine in which `p` fulfils and `f` throws. -/
def linkMachine : Execution.Machine Value :=
  ⟨world, unrolledLink.2.tree, [(0, .leaf), (3, .function), (4, .function)]⟩

/-- The nodes when the link has been unrolled. -/
def unrolledTree : Tree where
  nodes := #[⟨.identifier "p", {}, 0, 1, some 6, none⟩,
    ⟨.identifier "then", {}, 2, 6, none, none⟩,
    ⟨.access .property (some 0) (some 1) false, {}, 0, 6, none, none⟩,
    ⟨.identifier "f", {}, 7, 8, some 11, none⟩, ⟨.identifier "g", {}, 10, 11, some 15, none⟩,
    ⟨.call .call (some 2) none (some { nodes := [3, 4] }), {}, 0, 12, none, none⟩,
    ⟨.unary .await (some 0), {}, 0, 0, some 8, none⟩,
    ⟨.identifier "result", {}, 0, 0, some 8, none⟩,
    ⟨.variableDeclaration (some 7) false none (some 6), {}, 0, 0, some 9, none⟩,
    ⟨.variableList .statement none { nodes := [8] }, { isConst := true, synthesized := true },
      0, 0, some 17, none⟩,
    ⟨.identifier "result", {}, 0, 0, some 11, none⟩,
    ⟨.call .call (some 3) none (some { nodes := [10] }), {}, 0, 0, some 12, none⟩,
    ⟨.unary .await (some 11), {}, 0, 0, some 13, none⟩,
    ⟨.leave .returns (some 12), {}, 0, 0, some 17, none⟩,
    ⟨.identifier "e", {}, 0, 0, some 15, none⟩,
    ⟨.call .call (some 4) none (some { nodes := [14] }), {}, 0, 0, some 16, none⟩,
    ⟨.leave .returns (some 15), {}, 0, 0, some 20, none⟩,
    ⟨.block .block { nodes := [9, 13] } true, {}, 0, 0, some 22, none⟩,
    ⟨.identifier "e", {}, 0, 0, some 19, none⟩,
    ⟨.variableDeclaration (some 18) false none none, {}, 0, 0, some 21, none⟩,
    ⟨.block .block { nodes := [16] } true, {}, 0, 0, some 21, none⟩,
    ⟨.catchClause (some 19) (some 20), {}, 0, 0, some 22, none⟩,
    ⟨.tryStatement (some 17) (some 21) none, {}, 0, 0, none, none⟩]

theorem tree_unrolledLink : unrolledLink.2.tree = unrolledTree :=
  Tree.eq_of_nodes (by decide +kernel)

/-- The names and the history of a run. -/
abbrev Store := Execution.Env Value × Promise.History Value

/-- Before the link: nothing is declared and nothing has been evaluated. -/
def store : Store := (fun _ => none, [])

/-- The receiver fulfils. -/
def settled : Store := (store.1.set "result" ⟨.number 1, true⟩, [.leaf])

/-- The function `f` has thrown. -/
def failed : Store := (settled.1, [.leaf, .call 3 (some (.number 1))])

end Sample

/-- The statements for `p.then(f, g)` execute as their branches run. -/
theorem executes_unrollLink_both_sample :
    ∃ hoisted b tryId, [22] = hoisted ++ [tryId] ∧
      UnrollsBoth (unroll 2) Sample.linkContext 2 (.named 3) (.named 4) { final := .returned }
        .returned Sample.linkState hoisted b ∧
      ∀ s₁ s₂ begun completion,
        Executes Sample.linkMachine.tree Sample.linkMachine.meaning (.statement tryId) s₁ begun
          completion s₂ ↔
        b.Runs Sample.linkMachine.tree Sample.linkMachine.meaning s₁ begun completion s₂ := by
  have hrun : Sample.unrolledLink = (some [22], Sample.unrolledLink.2) :=
    run_eq_of_fst (by decide +kernel)
  obtain ⟨hoisted, b, tryId, hids, hunrolls, hexecutes⟩ :=
    executes_unrollLink_both (s := Sample.linkState) (c := Sample.linkContext)
      (e := some 5) rfl rfl (by decide) (by decide) hrun
  refine ⟨hoisted, b, tryId, hids, hunrolls, ?_⟩
  rw [Sample.linkMachine]
  dsimp only
  exact (hexecutes _ (.refl _) _).1

/-- The function `f` of `p.then(f, g)` throws, and `g` is called: the statements do not execute as
a promise would run their branches. -/
theorem not_settles_sample :
    Sample.unrolledLink.1 = some [22] ∧
    UnrollsBoth (unroll 2) Sample.linkContext 2 (.named 3) (.named 4) { final := .returned }
      .returned Sample.linkState [] Sample.linkBranches ∧
    ¬ ∀ s₁ s₂ begun completion,
      Executes Sample.linkMachine.tree Sample.linkMachine.meaning (.statement 22) s₁ begun
        completion s₂ ↔
      Sample.linkBranches.Settles Sample.linkMachine.tree Sample.linkMachine.meaning s₁ begun
        completion s₂ := by
  refine ⟨by decide +kernel, ⟨some (.minted 3), .minted 4, _, _, _, _, by decide +kernel,
    by decide +kernel, run_eq_of_fst (by decide +kernel), run_eq_of_fst (by decide +kernel),
    run_eq_of_fst (by decide +kernel), run_eq_of_fst (by decide +kernel),
    by decide +kernel⟩, fun h => ?_⟩
  rw [Sample.linkMachine, Sample.tree_unrolledLink] at h
  let m : Execution.Machine Sample.Value :=
    ⟨Sample.world, Sample.unrolledTree, [(0, .leaf), (3, .function), (4, .function)]⟩
  have hreceiver : ∀ s begun completion,
      Executes m.tree m.meaning (.statements [9]) Sample.store begun completion s ↔
        begun = [9] ∧ completion = .normal ∧ s = Sample.settled := by
    have hid : catchParts? m.tree 9 = none := rfl
    have hstep : m.step? ⟨Sample.store.1, Sample.store.2, .normal⟩ 9 =
        some ⟨Sample.settled.1, Sample.settled.2, .normal⟩ := rfl
    exact fun _ _ _ => Execution.Machine.executes_step hid hstep
  have hfulfilled : ∀ s begun completion,
      Executes m.tree m.meaning (.statements [13]) Sample.settled begun completion s ↔
        begun = [13] ∧ completion = .thrown (.number 2) ∧ s = Sample.failed := by
    have hid : catchParts? m.tree 13 = none := rfl
    have hstep : m.step? ⟨Sample.settled.1, Sample.settled.2, .normal⟩ 13 =
        some ⟨Sample.failed.1, Sample.failed.2, .thrown (.number 2)⟩ := rfl
    exact fun _ _ _ => Execution.Machine.executes_step hid hstep
  have hid : catchParts? m.tree 16 = none := rfl
  obtain ⟨s, hrejected⟩ : ∃ s, Executes m.tree m.meaning (.statements [16])
      (m.meaning.enter (some "e") (.number 2) (m.meaning.leave Sample.store Sample.failed)) [16]
      (.returned (.number 0)) s :=
    ⟨_, (Execution.Machine.executes_step hid rfl).mpr ⟨rfl, rfl, rfl⟩⟩
  have hruns : Sample.linkBranches.Runs m.tree m.meaning Sample.store ([9] ++ [13] ++ [16])
      (.returned (.number 0)) (m.meaning.leave Sample.store s) :=
    .failure ((hreceiver _ _ _).mpr ⟨rfl, rfl, rfl⟩) ((hfulfilled _ _ _).mpr ⟨rfl, rfl, rfl⟩)
      hrejected
  have hsettles : ∀ begun s, ¬ Sample.linkBranches.Settles m.tree m.meaning Sample.store begun
      (.returned (.number 0)) s := by
    intro begun s hsettles
    cases hsettles with
    | left hleft => cases ((hreceiver _ _ _).mp hleft).2.1
    | value hvalue hthrown =>
        obtain ⟨-, -, rfl⟩ := (hreceiver _ _ _).mp hvalue
        cases ((hfulfilled _ _ _).mp hthrown).2.1
    | reason hthrown => cases ((hreceiver _ _ _).mp hthrown).2.1
  exact hsettles _ _ ((h _ _ _ _).mp ((executes_branches rfl).mpr hruns))

end Unroll

end Unchain

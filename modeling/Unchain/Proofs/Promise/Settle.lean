import Unchain.Proofs.Chain.Layers

/-!
# How chains settle

The meaning of a chain by the rules of promises. What its leaf and its functions
do is left open: a `World` says what each evaluation gives, by all that was
evaluated before. A link without a function for what its receiver comes to hands
it on; otherwise the function is called with it, and the link comes to what the
call gives, or to what that settles to if it is a promise. There is nothing to
call functions for until the leaf has given a value: if its evaluation throws,
the evaluation of the whole chain does (`settle_of_throws`).

The history of a run lists its evaluations in order. The evaluation of a body
without side effects leaves no trace, so it is not listed.
-/

namespace Unchain.Promise

open Chain (Callback Form Layer)
open Syntax (NodeId Tree)

/-- What a run evaluates. -/
inductive Event (V : Type) where
  /-- The leaf of the chain. -/
  | leaf
  /-- A function of the chain, with its argument if it reads one. -/
  | call (function : NodeId) (argument : Option V)
  deriving DecidableEq, Repr

/-- What was evaluated so far, the earliest first. -/
abbrev History (V : Type) := List (Event V)

/-- A value, or a reason for which there is none. -/
abbrev Outcome (V : Type) := Except V V

/-- What evaluations give, and which values are promises. -/
structure World (V : Type) where
  undefined : V
  /-- How a value settles if it is a promise. -/
  settled? : V → Option (Outcome V)
  /-- A promise that settles in this way. -/
  promise : Outcome V → V
  /-- What an evaluation gives after others. -/
  evaluate : History V → Event V → Outcome V
  /-- Promises do not settle to promises. -/
  settled?_ok : ∀ {v u}, settled? v = some (.ok u) → settled? u = none
  settled?_promise : ∀ {r}, (∀ u, r = .ok u → settled? u = none) →
    settled? (promise r) = some r

variable {V : Type}

namespace World

variable (w : World V)

/-- What awaiting a value gives. -/
def resolve (v : V) : Outcome V := (w.settled? v).getD (.ok v)

/-- What awaiting what an evaluation gave comes to. -/
def await (r : Outcome V) : Outcome V := r.bind w.resolve

/-- An outcome that awaiting does not change. -/
def IsSettled (r : Outcome V) : Prop := ∀ u, r = .ok u → w.settled? u = none

/-- Evaluates something. It is listed unless it is silent. -/
def perform (silent : Bool) (event : Event V) (past : History V) : Outcome V × History V :=
  (w.evaluate past event, if silent then past else past ++ [event])

theorem isSettled_error (x : V) : w.IsSettled (.error x) := fun _ h => nomatch h

theorem resolve_of_settled? {v : V} (h : w.settled? v = none) : w.resolve v = .ok v := by
  rw [resolve, h]
  rfl

theorem isSettled_resolve (v : V) : w.IsSettled (w.resolve v) := by
  intro u hu
  rw [resolve] at hu
  cases hv : w.settled? v with
  | none =>
      rw [hv] at hu
      cases hu
      exact hv
  | some r =>
      rw [hv] at hu
      cases hu
      exact w.settled?_ok hv

theorem isSettled_await (r : Outcome V) : w.IsSettled (w.await r) := by
  cases r with
  | error x => exact w.isSettled_error x
  | ok v => exact w.isSettled_resolve v

/-- What has settled is not changed by awaiting it. -/
theorem await_of_isSettled {r : Outcome V} (h : w.IsSettled r) : w.await r = r := by
  cases r with
  | error x => rfl
  | ok v => exact w.resolve_of_settled? (h v rfl)

theorem await_promise {r : Outcome V} (h : w.IsSettled r) :
    w.await (.ok (w.promise r)) = r := by
  show w.resolve (w.promise r) = r
  rw [resolve, w.settled?_promise h]
  rfl

end World

end Unchain.Promise

namespace Unchain.Chain

open Promise (Event History Outcome World)
open Syntax (Tree)

variable {V : Type}

/-- Whether evaluating a function leaves no trace. -/
def Callback.isSilent (t : Tree) : Callback → Bool
  | named _ => false
  | arrow _ body _ _ => t.isSideEffectFree (some body)

/-- The evaluation of a function that is called with a value or a reason. -/
def Callback.event (callback : Callback) (v : V) : Event V :=
  match callback with
  | named name => .call name (some v)
  | arrow function _ _ parameter => .call function (parameter.map fun _ => v)

variable (t : Tree) (w : World V)

/-- Calls a function and awaits what it gives. -/
def Callback.call (callback : Callback) (v : V) (past : History V) : Outcome V × History V :=
  let (r, past) := w.perform (callback.isSilent t) (callback.event v) past
  (w.await r, past)

/-- What a link makes of what its receiver comes to. -/
def Form.react : Form → Outcome V × History V → Outcome V × History V
  | value callback, (.ok v, past) => callback.call t w v past
  | reason callback, (.error x, past) => callback.call t w x past
  | _, settled => settled

/-- What the links of a chain make of what its leaf comes to. -/
def reactAll (layers : List Layer) (settled : Outcome V × History V) : Outcome V × History V :=
  layers.foldr (fun layer => layer.form.react t w) settled

/-- What the expression of a chain gives: a promise, unless the evaluation of the leaf throws. -/
def evaluate (layers : List Layer) (past : History V) : Outcome V × History V :=
  match w.perform false .leaf past with
  | (.ok v, past) =>
    let (r, past) := reactAll t w layers (w.resolve v, past)
    (.ok (w.promise r), past)
  | (.error x, past) => (.error x, past)

/-- What a chain comes to, and the history after it. -/
def settle (layers : List Layer) (past : History V) : Outcome V × History V :=
  match w.perform false .leaf past with
  | (.ok v, past) => reactAll t w layers (w.resolve v, past)
  | (.error x, past) => (.error x, past)

variable {w} {past : History V}

theorem settle_of_yields {v : V} (h : w.evaluate past .leaf = .ok v) (layers : List Layer) :
    settle t w layers past = reactAll t w layers (w.resolve v, past ++ [.leaf]) := by
  rw [settle, World.perform, h]
  rfl

theorem settle_of_throws {x : V} (h : w.evaluate past .leaf = .error x) (layers : List Layer) :
    settle t w layers past = (.error x, past ++ [.leaf]) := by
  rw [settle, World.perform, h]
  rfl

theorem isSettled_react (form : Form) {settled : Outcome V × History V}
    (h : w.IsSettled settled.1) : w.IsSettled (form.react t w settled).1 := by
  unfold Form.react
  split
  · exact w.isSettled_await _
  · exact w.isSettled_await _
  · exact h

theorem isSettled_reactAll (layers : List Layer) {settled : Outcome V × History V}
    (h : w.IsSettled settled.1) : w.IsSettled (reactAll t w layers settled).1 := by
  induction layers with
  | nil => exact h
  | cons layer layers ih => exact isSettled_react t layer.form ih

/-- A chain comes to what awaiting its expression gives. -/
theorem await_evaluate (layers : List Layer) (past : History V) :
    (w.await (evaluate t w layers past).1, (evaluate t w layers past).2) =
      settle t w layers past := by
  rw [evaluate, settle]
  cases h : w.perform false .leaf past with
  | mk r past' =>
      cases r with
      | error x => rfl
      | ok v =>
          have hsettled : w.IsSettled (reactAll t w layers (w.resolve v, past')).1 :=
            isSettled_reactAll t layers (w.isSettled_resolve v)
          exact Prod.ext (w.await_promise hsettled) rfl

/-! ### Settling in a tree that evolves -/

section

variable {t : Tree} {w : World V}
variable {o : Promise.Oracle} {b : Binding.Table} {t' : Tree}

theorem Callback.isSilent_evolves {handler : Handler} {callback : Callback}
    (h : IsCallback t o b handler callback) (hgrow : t.Evolves t') (ht : t.Closed) :
    callback.isSilent t' = callback.isSilent t := by
  cases callback with
  | named name => rfl
  | arrow function body isAsync parameter =>
      exact hgrow.isSideEffectFree ht (Tree.holds_some.mpr (h.body_lt ht))

theorem Callback.call_evolves {handler : Handler} {callback : Callback}
    (h : IsCallback t o b handler callback) (hgrow : t.Evolves t') (ht : t.Closed) (v : V)
    (past : History V) : callback.call t' w v past = callback.call t w v past := by
  unfold call
  rw [isSilent_evolves h hgrow ht]

theorem Form.react_evolves {link : Link} {callee receiver : Syntax.NodeId} {form : Form}
    (h : HasForm t o b link callee receiver form) (hgrow : t.Evolves t') (ht : t.Closed)
    (settled : Outcome V × History V) : form.react t' w settled = form.react t w settled := by
  obtain ⟨x | v, past⟩ := settled <;> cases h with
  | pass => rfl
  | value fulfilled =>
      first
      | rfl
      | exact Callback.call_evolves fulfilled hgrow ht v past
  | reason _ rejected | catches rejected =>
      first
      | rfl
      | exact Callback.call_evolves rejected hgrow ht x past

/-- The links of a chain do the same after the tree has evolved. -/
theorem reactAll_evolves {e leaf : Syntax.NodeId} {layers : List Layer}
    (h : Chained t o b e leaf layers) (hgrow : t.Evolves t') (ht : t.Closed)
    (settled : Outcome V × History V) :
    reactAll t' w layers settled = reactAll t w layers settled := by
  induction h with
  | leaf => rfl
  | @layer _ _ _ _ _ form layers skip hasForm method rest ih =>
      change form.react t' w (reactAll t' w layers settled) = _
      rw [ih, Form.react_evolves hasForm hgrow ht]
      rfl

theorem evaluate_evolves {e leaf : Syntax.NodeId} {layers : List Layer}
    (h : Chained t o b e leaf layers) (hgrow : t.Evolves t') (ht : t.Closed)
    (past : History V) : evaluate t' w layers past = evaluate t w layers past := by
  rw [evaluate, evaluate]
  split
  · rw [reactAll_evolves h hgrow ht]
  · rfl

end

end Unchain.Chain

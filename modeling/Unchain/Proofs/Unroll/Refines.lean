import Unchain.Proofs.Unroll.Chains

/-!
# Unrolling refines settling

The main theorem about unrolling: for a chain of `then` and `catch` links of any
length, the statements that `unrollChain` writes evaluate the leaf and the
functions of the chain in the order in which settling the chain evaluates them,
with the same arguments, and end with the value or the reason that the chain
settles to. This is so if the leaf gives a value, or if nothing is written that
could catch what its evaluation throws; else its reason is handled like one that
the promise is rejected with (`not_refines_throwing_sample` is such a chain).
-/

namespace Unchain.Unroll

open Binding (Table)
open Chain (Callback Chained Form HasForm Handler IsCallback Layer Link keysOf nodesOf)
open Execution (Env Machine Moment Runs Sense sensesOf sensesOfCallback sensesOfForm)
open Naming (Key Register)
open Promise (Event History Oracle Outcome World)
open Syntax (NodeId Tree)
open Syntax.Tree (holds_some)

variable {V : Type}

/-! ### What expressions mean -/

theorem lookup_of_mem {entries : List (NodeId × Sense)} (hnodup : (entries.map Prod.fst).Nodup)
    {entry : NodeId × Sense} (h : entry ∈ entries) :
    entries.lookup entry.1 = some entry.2 := by
  induction entries with
  | nil => cases h
  | cons first rest ih =>
      rw [List.map_cons, List.nodup_cons] at hnodup
      rcases List.mem_cons.mp h with rfl | hrest
      · rw [List.lookup_cons, beq_self_eq_true]
      · have hne : (entry.1 == first.1) = false := by
          refine beq_false_of_ne fun heq => hnodup.1 ?_
          rw [← heq]
          exact List.mem_map_of_mem hrest
        rw [List.lookup_cons, hne]
        exact ih hnodup.2 hrest

theorem lookup_eq_none {entries : List (NodeId × Sense)} {id : NodeId}
    (h : ∀ entry ∈ entries, entry.1 ≠ id) : entries.lookup id = none := by
  induction entries with
  | nil => rfl
  | cons first rest ih =>
      have hne : (id == first.1) = false :=
        beq_false_of_ne (h first List.mem_cons_self).symm
      rw [List.lookup_cons, hne]
      exact ih fun entry hentry => h entry (List.mem_cons_of_mem _ hentry)

section

variable {t : Tree} {o : Oracle} {b : Table}

/-- The expressions of a function stand in the tree. -/
theorem sensesOfCallback_lt (ht : t.Closed) {argument : Option NodeId} {callback : Callback}
    (h : IsCallback t o b (Chain.handlerOf t o argument) callback) (harg : t.Holds argument)
    {entry : NodeId × Sense} (hentry : entry ∈ sensesOfCallback callback) : entry.1 < t.size := by
  cases callback with
  | named name =>
      obtain rfl := List.mem_singleton.mp hentry
      exact Tree.holds_skipParentheses ht harg _ (Chain.skip_of_handlerOf (by rw [h.of_named]; rfl))
  | arrow function body isAsync parameter =>
      obtain rfl := List.mem_singleton.mp hentry
      exact h.body_lt ht

/-- The expressions of a chain stand in the tree. -/
theorem sensesOf_lt (ht : t.Closed) {e leaf : NodeId} {layers : List Layer}
    (h : Chained t o b e leaf layers) (he : e < t.size) :
    ∀ entry ∈ sensesOf leaf layers, entry.1 < t.size := by
  induction h with
  | leaf skip link =>
      intro entry hentry
      obtain rfl := List.mem_singleton.mp hentry
      exact Tree.holds_skipParentheses ht (holds_some.mpr he) _ skip
  | @layer e id callee receiver leaf form layers skip hasForm method rest ih =>
      intro entry hentry
      obtain ⟨arguments, hcalls⟩ := hasForm.callsMethod rfl
      obtain ⟨hf, hr⟩ := hasForm.holds_handlers rfl ht
      rcases List.mem_cons.mp hentry with rfl | hentry
      · exact hcalls.lt_size
      rcases List.mem_append.mp hentry with hentry | hentry
      · cases form with
        | pass => cases hentry
        | value callback => exact sensesOfCallback_lt ht hasForm.of_value hf hentry
        | reason callback => exact sensesOfCallback_lt ht hasForm.of_reason hr hentry
      · exact ih (hcalls.receiver_lt_size ht) entry hentry

end

/-! ### The main theorem -/

/-- What a binding is called. -/
def nameIn (register : Register) (key : Key) : String := (register.name? key).getD ""

/-- What is known of a chain when its conversion begins. The chain stands in a closed tree and no
two of its expressions are one; it is short enough to be followed to its leaf. Its links are
marked. Its bindings have names of their own, by which the parameters of its functions go, and none
of them is declared. -/
structure Prepared (c : Context) (s : State) (e leaf : NodeId) (layers : List Layer) : Prop where
  closed : s.tree.Closed
  inTree : e < s.tree.size
  chained : Chained s.tree c.oracle c.bindings e leaf layers
  nodes : ((sensesOf leaf layers).map Prod.fst).Nodup
  short : 2 * layers.length ≤ Limits.chainLinks
  marked : Chain.Marked s.successors leaf false layers
  named : ∀ key ∈ keysOf layers, (s.register.name? key).isSome
  distinct : ((keysOf layers).map (nameIn s.register)).Nodup
  undeclared : ∀ key ∈ keysOf layers, s.register.isDeclared key = false
  spelled : ∀ layer ∈ layers, ∀ callback, layer.form.callback? = some callback →
    Spelled s.tree (nameIn s.register) callback

/-- The world of a chain: the oracle is right about the bodies of its functions. -/
def IsExact (w : World V) (c : Context) (s : State) (layers : List Layer) : Prop :=
  ∀ layer ∈ layers, ∀ callback, layer.form.callback? = some callback →
    ExactFor w s.tree c.oracle callback

/-- A whole chain is unrolled as `unroll` does it. -/
theorem run_unrollChain (c : Context) (e : NodeId) (sink : Sink) (s : State) :
    ∃ isVerbatim, (unrollChain c e sink).run s =
      (⟨((unroll Limits.chainLinks c (some e) { final := sink }).run s).1, isVerbatim⟩,
        ((unroll Limits.chainLinks c (some e) { final := sink }).run s).2) := by
  generalize hrun : (unrollLink (unroll (Limits.chainLinks - 1)) c (some e)
    { final := sink }).run.run s = result
  obtain ⟨ids | _, s'⟩ := result
  · refine ⟨true, ?_⟩
    have hunroll : (unroll Limits.chainLinks c (some e) { final := sink }).run s = _ :=
      run_unroll_of_none hrun
    rw [hunroll]
    exact run_bind (attempt_run_of_none hrun)
  · refine ⟨false, ?_⟩
    have hunroll : (unroll Limits.chainLinks c (some e) { final := sink }).run s = _ :=
      run_unroll_of_some hrun
    rw [hunroll]
    exact run_bind (attempt_run_of_some hrun)

/-- The statements for a chain bring what it comes to where it is unrolled to the sink, and run in
no other way. -/
theorem runs_unrollChain (w : World V) {c : Context} {s : State} {e leaf : NodeId}
    {layers : List Layer} {sink : Sink} (h : Prepared c s e leaf layers)
    (hsink : sink = .returned ∨ sink = .discarded) (hexact : IsExact w c s layers)
    {env : Env V} (hfree : Free env (nameIn s.register) layers) (past : History V) :
    ∃ k : Moment V,
      (∀ k', Runs ⟨w, ((unrollChain c e sink).run s).2.tree, sensesOf leaf layers⟩
        ⟨env, past, .normal⟩ ((unrollChain c e sink).run s).1.statements k' ↔ k' = k) ∧
      k.past = (settleUnrolled s.tree w layers past).2 ∧
      Arrives w c.inTry (nameIn s.register) k sink (settleUnrolled s.tree w layers past).1 := by
  have hkeys : sink.keys = [] := by rcases hsink with rfl | rfl <;> rfl
  have hplanned : Planned s.register (nameIn s.register) sink layers := by
    refine ⟨fun key hkey => ?_, h.undeclared, ?_⟩
    · rw [hkeys, List.nil_append] at hkey
      obtain ⟨text, htext⟩ := Option.isSome_iff_exists.mp (h.named key hkey)
      rw [nameIn, htext]
      rfl
    · rw [hkeys, List.nil_append]
      exact h.distinct
  obtain ⟨-, hrealizes⟩ := unrolls_unroll (V := V) h.closed h.chained Limits.chainLinks c
    { final := sink } false s h.short rfl rfl (.refl _) h.inTree h.marked hplanned
  obtain ⟨isVerbatim, hrun⟩ := run_unrollChain c e sink s
  rw [hrun]
  have hsenses := sensesOf_lt h.closed h.chained h.inTree
  obtain ⟨k, hruns, hdelivers⟩ := hrealizes ⟨w, _, sensesOf leaf layers⟩ env past (.refl _)
    ⟨fun entry hentry => lookup_of_mem h.nodes hentry,
      fun id hid => lookup_eq_none fun entry hentry heq =>
        absurd (hsenses entry hentry) (Nat.not_lt.mpr (heq ▸ hid)),
      h.spelled, hexact⟩
    ⟨fun key hkey => by simp [Outlet.sink, hkeys] at hkey,
      fun key hkey => by simp [Outlet.sink, hkeys] at hkey⟩ hfree
  refine ⟨k, fun k' => ⟨fun hk' => hk'.unique hruns, fun heq => heq ▸ hruns⟩, hdelivers.past, ?_⟩
  exact hdelivers.arrives

/-- The statements for a chain evaluate its leaf and its functions as settling the chain does, and
end with what the chain settles to: they return or throw it if the value of the chain is returned,
and throw a reason but drop a value if it is discarded. They run in no other way. This is so if the
evaluation of the leaf gives a value, or if no link that is unrolled has a function for reasons. If
the evaluation of the leaf throws, the links that are unrolled react to its reason. -/
theorem unrollChain_refines (w : World V) {c : Context} {s : State} {e leaf : NodeId}
    {layers : List Layer} {sink : Sink} (h : Prepared c s e leaf layers)
    (hsink : sink = .returned ∨ sink = .discarded) (hexact : IsExact w c s layers)
    {env : Env V} (hfree : Free env (nameIn s.register) layers) (past : History V) :
    ∃ k : Moment V,
      (∀ k', Runs ⟨w, ((unrollChain c e sink).run s).2.tree, sensesOf leaf layers⟩
        ⟨env, past, .normal⟩ ((unrollChain c e sink).run s).1.statements k' ↔ k' = k) ∧
      (((∃ v, w.evaluate past .leaf = .ok v) ∨
          ∀ layer ∈ unrolledPart layers, ∀ callback, layer.form ≠ .reason callback) →
        k.past = (Chain.settle s.tree w layers past).2 ∧
        Arrives w c.inTry (nameIn s.register) k sink (Chain.settle s.tree w layers past).1) ∧
      ∀ x, w.evaluate past .leaf = .error x →
        let reacted := Chain.reactAll s.tree w (unrolledPart layers) (.error x, past ++ [.leaf])
        k.past = reacted.2 ∧ Arrives w c.inTry (nameIn s.register) k sink reacted.1 := by
  obtain ⟨k, hruns, hpast, harrives⟩ := runs_unrollChain w h hsink hexact hfree past
  refine ⟨k, hruns, fun hleaf => ?_, fun x hx => ?_⟩
  · rw [← settleUnrolled_eq_settle hleaf]
    exact ⟨hpast, harrives⟩
  · rw [← settleUnrolled_of_throws hx]
    exact ⟨hpast, harrives⟩

/-! ### A chain and its world -/

namespace Sample

/-- Numbers, and promises that settle to numbers or to reasons. -/
inductive Value where
  | number (n : Nat)
  | fulfilled (n : Nat)
  | rejected (reason : Value)
  deriving DecidableEq

/-- A world in which the leaf fulfils and the function `3` throws. -/
def world : World Value where
  undefined := .number 0
  settled?
    | .number _ => none
    | .fulfilled n => some (.ok (.number n))
    | .rejected x => some (.error x)
  promise
    | .ok (.number n) => .fulfilled n
    | .ok _ => .fulfilled 0
    | .error x => .rejected x
  evaluate _ event :=
    match event with
    | .leaf => .ok (.fulfilled 1)
    | .call 3 _ => .error (.number 2)
    | .call _ _ => .ok (.number 0)
  settled?_ok := by
    intro v u h
    cases v <;> cases h
    rfl
  settled?_promise := by
    intro r h
    cases r with
    | error x => rfl
    | ok v =>
        cases v with
        | number n => rfl
        | fulfilled n => exact absurd (h _ rfl) (by simp)
        | rejected x => exact absurd (h _ rfl) (by simp)

/-- `p.then(f).catch(() => g())` -/
def tree : Tree where
  nodes := #[⟨.identifier "p", {}, 0, 1, none, none⟩, ⟨.identifier "then", {}, 2, 6, none, none⟩,
    ⟨.access .property (some 0) (some 1) false, {}, 0, 6, none, none⟩,
    ⟨.identifier "f", {}, 7, 8, none, none⟩,
    ⟨.call .call (some 2) none (some { nodes := [3] }), {}, 0, 9, none, none⟩,
    ⟨.identifier "catch", {}, 10, 15, none, none⟩,
    ⟨.access .property (some 4) (some 5) false, {}, 0, 15, none, none⟩,
    ⟨.identifier "g", {}, 22, 23, none, none⟩,
    ⟨.call .call (some 7) none (some {}), {}, 22, 25, none, none⟩,
    ⟨.function .arrow { body := some 8 }, {}, 16, 25, none, none⟩,
    ⟨.call .call (some 6) none (some { nodes := [9] }), {}, 0, 26, none, none⟩]

def context : Context where
  oracle := ⟨[0, 4, 10].contains, fun _ => none, fun _ => none⟩
  bindings := {}

def state : State where
  tree := tree
  register := ⟨[(.minted 3, { name := "result" }), (.minted 9, { name := "e" })], ["e", "result"]⟩
  successors := ({} : Chain.Successors).mark tree context.oracle (some 10) false

def layers : List Layer := [⟨10, .reason (.arrow 9 8 false none)⟩, ⟨4, .value (.named 3)⟩]

theorem chained : Chained tree context.oracle context.bindings 10 0 layers := by
  have harrow : IsCallback tree context.oracle context.bindings (.literal 9)
      (.arrow 9 8 false none) := .arrow (f := { body := some 8 }) rfl rfl rfl rfl rfl rfl
  have hnamed : IsCallback tree context.oracle context.bindings (.named 3) (.named 3) := .named 3
  have hcatch : HasForm tree context.oracle context.bindings (.catchCall 6 4 9) 6 4
      (.reason (.arrow 9 8 false none)) := .catches harrow
  have hthen : HasForm tree context.oracle context.bindings (.thenCall 2 0 (some 3) none) 2 0
      (.value (.named 3)) := .value hnamed rfl
  exact .layer rfl hcatch rfl (.layer rfl hthen rfl (.leaf rfl rfl))

theorem prepared : Prepared context state 10 0 layers where
  closed := by decide
  inTree := by decide
  chained := chained
  nodes := by decide
  short := by decide
  marked := Chain.marked_mark chained (by decide) (by decide) fun _ _ => rfl
  named := by decide
  distinct := by decide
  undeclared := by decide
  spelled := by
    intro layer hlayer callback hcallback
    rcases List.mem_cons.mp hlayer with rfl | hlayer
    · cases hcallback
      trivial
    · obtain rfl := List.mem_singleton.mp hlayer
      cases hcallback
      trivial

theorem isExact : IsExact world context state layers := by
  intro layer hlayer callback hcallback
  rcases List.mem_cons.mp hlayer with rfl | hlayer
  · cases hcallback
    exact ⟨fun _ _ _ u hu => by cases hu; rfl, fun h => absurd h (by decide)⟩
  · obtain rfl := List.mem_singleton.mp hlayer
    cases hcallback
    trivial

end Sample

/-- The function `f` of `return p.then(f).catch(() => g())` gets `1` and throws; then the arrow is
called, and the statements end with what it gives. -/
theorem unrollChain_refines_sample : ∃ k : Moment Sample.Value,
    (∀ k', Runs ⟨Sample.world, ((unrollChain Sample.context 10 .returned).run Sample.state).2.tree,
      sensesOf 0 Sample.layers⟩ ⟨fun _ => none, [], .normal⟩
      ((unrollChain Sample.context 10 .returned).run Sample.state).1.statements k' ↔ k' = k) ∧
    k.past = [.leaf, .call 3 (some (.number 1)), .call 9 none] ∧
    Arrives Sample.world false (nameIn Sample.state.register) k .returned (.ok (.number 0)) := by
  obtain ⟨k, hruns, hsettles, -⟩ := unrollChain_refines Sample.world Sample.prepared (.inl rfl)
    Sample.isExact (show Free (fun _ => none) _ _ from fun _ _ => rfl) []
  exact ⟨k, hruns, hsettles (.inl ⟨_, rfl⟩)⟩

namespace Sample

/-- A world in which the evaluation of the leaf throws. -/
def throwing : World Value :=
  { world with evaluate := fun _ event =>
      if event = .leaf then .error (.number 3) else .ok (.number 0) }

/-- `load().catch(() => g())` -/
def loadTree : Tree where
  nodes := #[⟨.identifier "load", {}, 0, 4, none, none⟩,
    ⟨.call .call (some 0) none (some {}), {}, 0, 6, none, none⟩,
    ⟨.identifier "catch", {}, 7, 12, none, none⟩,
    ⟨.access .property (some 1) (some 2) false, {}, 0, 12, none, none⟩,
    ⟨.identifier "g", {}, 19, 20, none, none⟩,
    ⟨.call .call (some 4) none (some {}), {}, 19, 22, none, none⟩,
    ⟨.function .arrow { body := some 5 }, {}, 13, 22, none, none⟩,
    ⟨.call .call (some 3) none (some { nodes := [6] }), {}, 0, 23, none, none⟩]

def loadContext : Context where
  oracle := ⟨[1, 7].contains, fun _ => none, fun _ => none⟩
  bindings := {}

def loadState : State where
  tree := loadTree
  register := ⟨[(.minted 6, { name := "e" })], ["e"]⟩
  successors := ({} : Chain.Successors).mark loadTree loadContext.oracle (some 7) false

def loadLayers : List Layer := [⟨7, .reason (.arrow 6 5 false none)⟩]

theorem chained_load : Chained loadTree loadContext.oracle loadContext.bindings 7 1 loadLayers := by
  have harrow : IsCallback loadTree loadContext.oracle loadContext.bindings (.literal 6)
      (.arrow 6 5 false none) := .arrow (f := { body := some 5 }) rfl rfl rfl rfl rfl rfl
  have hcatch : HasForm loadTree loadContext.oracle loadContext.bindings (.catchCall 3 1 6) 3 1
      (.reason (.arrow 6 5 false none)) := .catches harrow
  exact .layer rfl hcatch rfl (.leaf rfl rfl)

theorem prepared_load : Prepared loadContext loadState 7 1 loadLayers where
  closed := by decide
  inTree := by decide
  chained := chained_load
  nodes := by decide
  short := by decide
  marked := Chain.marked_mark chained_load (by decide) (by decide) fun _ _ => rfl
  named := by decide
  distinct := by decide
  undeclared := by decide
  spelled := by
    intro layer hlayer callback hcallback
    obtain rfl := List.mem_singleton.mp hlayer
    cases hcallback
    trivial

theorem isExact_load : IsExact throwing loadContext loadState loadLayers := by
  intro layer hlayer callback hcallback
  obtain rfl := List.mem_singleton.mp hlayer
  cases hcallback
  exact ⟨fun _ _ _ u hu => by cases hu; rfl, fun h => absurd h (by decide)⟩

end Sample

/-- The call of `load` in `return load().catch(() => g())` throws. Settling the chain calls no other
function then, but the statements call the arrow, and end with what it gives. -/
theorem not_refines_throwing_sample :
    Prepared Sample.loadContext Sample.loadState 7 1 Sample.loadLayers ∧
    IsExact Sample.throwing Sample.loadContext Sample.loadState Sample.loadLayers ∧
    Chain.settle Sample.loadTree Sample.throwing Sample.loadLayers [] =
      (.error (.number 3), [.leaf]) ∧
    ∃ k : Moment Sample.Value,
      (∀ k', Runs ⟨Sample.throwing,
        ((unrollChain Sample.loadContext 7 .returned).run Sample.loadState).2.tree,
        sensesOf 1 Sample.loadLayers⟩ ⟨fun _ => none, [], .normal⟩
        ((unrollChain Sample.loadContext 7 .returned).run Sample.loadState).1.statements k' ↔
          k' = k) ∧
      k.past = [.leaf, .call 6 none] ∧
      Arrives Sample.throwing false (nameIn Sample.loadState.register) k .returned
        (.ok (.number 0)) :=
  ⟨Sample.prepared_load, Sample.isExact_load, rfl,
    runs_unrollChain Sample.throwing Sample.prepared_load (.inl rfl) Sample.isExact_load
      (fun _ _ => rfl) []⟩

end Unchain.Unroll

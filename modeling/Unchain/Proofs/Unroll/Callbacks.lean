import Unchain.Proofs.Unroll.Delivery

/-!
# Unrolling the functions of a chain

What the statements for a function of a chain do when they run: they call it with
its argument and bring what it gives to the sink (`run_unrollHandler`). An async
function that is written in place has no statements (`run_unrollHandler_async`).
-/

namespace Unchain

open Binding (Table)
open Chain (Callback Form Handler IsCallback Layer)
open Execution (Env Machine Moment Runs Sense sensesOf sensesOfCallback sensesOfForm)
open Naming (Key Register)
open Promise (History Oracle Outcome World)
open Syntax (Data NodeId Tree)
open Syntax.Tree (holds_some)

variable {V : Type}

/-- Whether a function is an async arrow. -/
def Chain.Callback.isAsync : Callback → Bool
  | .named _ => false
  | .arrow _ _ isAsync _ => isAsync

namespace Unroll

/-! ### What a conversion relies on -/

/-- The parameter of a function that is written in place is spelled as in `name`. -/
def Spelled (t : Tree) (name : Key → String) : Callback → Prop
  | .arrow function _ _ (some symbol) =>
    Promise.functionParameter? t function = some (name (.parameter symbol))
  | _ => True

/-- The oracle is right about the body of a function that is written in place: what it does not
take for a promise is none. A body without side effects does not throw. -/
structure Exact (w : World V) (t : Tree) (o : Oracle) (function body : NodeId) : Prop where
  settled : Chain.isPromise t o (t.skipParentheses (some body)) = false →
    ∀ past argument, w.IsSettled (w.evaluate past (.call function argument))
  silent : t.isSideEffectFree (some body) = true →
    ∀ past argument, ∃ v, w.evaluate past (.call function argument) = .ok v

/-- What is written for a function is right about it. -/
def ExactFor (w : World V) (t : Tree) (o : Oracle) : Callback → Prop
  | .arrow function body false _ => Exact w t o function body
  | _ => True

/-- The names at hand give a function its argument. -/
def Supplies (name : Key → String) (env : Env V) (callback : Callback) (v : V) : Prop :=
  ∀ key, callback.valueKey? = some key → ∃ isConst, env (name key) = some ⟨v, isConst⟩

/-! ### Evaluating a function -/

section

variable {t : Tree} {o : Oracle} {b : Table} {m : Machine V} {name : Key → String}

theorem name?_of_cell {env : Env V} {text : String} {v : V} {isConst : Bool}
    (h : env text = some ⟨v, isConst⟩) : Machine.name? env (some text) = some v := by
  simp [Machine.name?, h]

/-- The body of an arrow is evaluated as a call with its argument. -/
theorem atom?_body (ht : t.Closed) (hgrow : t.Grows m.tree) {function body : NodeId}
    {isAsync : Bool} {parameter : Option Binding.SymbolId} (hfunction : function < t.size)
    (hbody : body < t.size)
    (hsense : m.senses.lookup body = some (.body (.arrow function body isAsync parameter)))
    (hspelled : Spelled t name (.arrow function body isAsync parameter))
    {env : Env V} {past : History V} {v : V}
    (hsupplies : Supplies name env (.arrow function body isAsync parameter) v) :
    m.atom? env past body =
      some (m.world.perform (t.isSideEffectFree (some body))
        (.call function (parameter.map fun _ => v)) past) := by
  have hparameter : m.parameter? env (.arrow function body isAsync parameter) =
      some (parameter.map fun _ => v) := by
    cases parameter with
    | none => rfl
    | some symbol =>
        obtain ⟨isConst, hcell⟩ := hsupplies _ rfl
        have htext : Promise.functionParameter? m.tree function =
            some (name (.parameter symbol)) :=
          (Promise.functionParameter?_evolves hgrow.evolves ht hfunction).trans hspelled
        simp only [Machine.parameter?, htext, name?_of_cell hcell]
        rfl
  have hsilent : m.tree.isSideEffectFree (some body) = t.isSideEffectFree (some body) :=
    hgrow.evolves.isSideEffectFree ht (holds_some.mpr hbody)
  unfold Machine.atom?
  simp only [hsense, hparameter, Callback.isSilent, hsilent]
  rfl

end

/-! ### Functions that are written in place -/

section

variable {t : Tree} {o : Oracle} {b : Table} {function body : NodeId}
  {parameter : Option Binding.SymbolId}

/-- The statements for an arrow are those for the value of its body. -/
theorem run_unrollLiteral (ht : t.Closed) (unroll : Unroller) (c : Context) (sink : Sink)
    (s : State) (hc : c.oracle = o) (hgrow : t.Grows s.tree)
    (hcallback : IsCallback t o b (.literal function) (.arrow function body false parameter)) :
    (unrollLiteral unroll c function sink).run.run s =
      (liftM (write c (some body) sink (Chain.isPromise t o (t.skipParentheses (some body)))) :
        Attempt (List NodeId)).run.run s := by
  obtain ⟨-, hchain, hexpr, f, hdata, hbody, hasync, hgenerator⟩ :=
    (hcallback.evolves hgrow.evolves ht).of_arrow
  have hlt : t.Holds (some body) := holds_some.mpr (hcallback.body_lt ht)
  have hgives : givesPromise c s.tree (some body) =
      Chain.isPromise t o (t.skipParentheses (some body)) := by
    rw [givesPromise, hc, hgrow.evolves.skipParentheses ht hlt,
      Chain.isPromise_evolves hgrow.evolves o (Tree.holds_skipParentheses ht hlt)]
  refine (attempt_get_bind _ s).trans ?_
  simp only [hdata, hasync, hgenerator, hbody, Option.bind_some, hexpr]
  refine (attempt_get_bind _ s).trans ?_
  simp only [hc, hchain, hgives]
  rfl

/-- An async arrow is not written in place. -/
theorem run_unrollLiteral_async (ht : t.Closed) (unroll : Unroller) (c : Context) (sink : Sink)
    (s : State) (hgrow : t.Grows s.tree)
    (hcallback : IsCallback t o b (.literal function) (.arrow function body true parameter)) :
    (unrollLiteral unroll c function sink).run.run s = (none, s) := by
  obtain ⟨-, -, -, f, hdata, -, hasync, -⟩ := (hcallback.evolves hgrow.evolves ht).of_arrow
  refine (attempt_get_bind _ s).trans ?_
  simp only [hdata, hasync, Bool.or_true, Bool.true_or, if_true]
  rfl

end

/-! ### Functions that are passed by name -/

/-- The nodes of `function(name)`. -/
def IsCall (t : Tree) (function : NodeId) (text : String) (id : NodeId) : Prop :=
  ∃ argument, t.data? id = some (.call .call (some function) none (some { nodes := [argument] })) ∧
    t.data? argument = some (.identifier text)

theorem IsCall.grows {t t' : Tree} {function : NodeId} {text : String} {id : NodeId}
    (h : IsCall t function text id) (hgrow : t.Grows t') : IsCall t' function text id := by
  obtain ⟨argument, hcall, hargument⟩ := h
  exact ⟨argument, hgrow.data? hcall, hgrow.data? hargument⟩

theorem atom?_call {m : Machine V} {function : NodeId} {text : String} {id : NodeId}
    (h : IsCall m.tree function text id) (hid : m.senses.lookup id = none)
    (hfunction : m.senses.lookup function = some .function) {env : Env V} (past : History V)
    {v : V} {isConst : Bool} (hcell : env text = some ⟨v, isConst⟩) :
    m.atom? env past id = some (m.world.perform false (.call function (some v)) past) := by
  obtain ⟨argument, hcall, hargument⟩ := h
  have htext : m.tree.identifierText? (some argument) = some text := by
    rw [Tree.identifierText?, Tree.partData?, Option.bind_some, hargument]
  simp [Machine.atom?, hid, hcall, hfunction, Machine.argument?, htext, name?_of_cell hcell]

/-- The statements for a function that is passed by name are those for a call of it. -/
theorem run_unrollHandler_named (unroll : Unroller) (c : Context) (function : NodeId)
    (argument : Key) (text : String) (sink : Sink) (s : State)
    (htext : s.register.name? argument = some text) :
    ∃ call s₁, Makes s s₁ ∧ s.tree.size ≤ call ∧
      IsCall s₁.tree function text call ∧
      (unrollHandler unroll c (.named function) (some argument) sink).run.run s =
        (liftM (write c (some call) sink true) : Attempt (List NodeId)).run.run s₁ := by
  obtain ⟨s₁, hname, hmakes₁, hnode₁⟩ := run_make (.identifier text) {} s
  obtain ⟨s₂, hcall, hmakes₂, hnode₂⟩ :=
    run_make (.call .call (some function) none (some { nodes := [s.tree.size] })) {} s₁
  refine ⟨s₁.tree.size, s₂, hmakes₁.trans hmakes₂, hmakes₁.grows.evolves.size_le, ?_, ?_⟩
  · exact ⟨_, hnode₂.data?, hmakes₂.grows.data? hnode₁.data?⟩
  · refine (attempt_get_bind _ s).trans ?_
    simp only [Option.bind_some, htext, Option.toList_some, List.mapM_cons, List.mapM_nil]
    refine (attempt_bind (show _ = (some [s.tree.size], s₁) from ?_)).trans ?_
    · exact attempt_bind (attempt_lift hname)
    · exact attempt_bind (attempt_lift hcall)

/-! ### Functions of a chain -/

/-- What a machine has to know about a function. -/
structure KnowsCallback (m : Machine V) (t : Tree) (o : Oracle) (name : Key → String)
    (callback : Callback) : Prop where
  senses : ∀ entry ∈ sensesOfCallback callback, m.senses.lookup entry.1 = some entry.2
  spelled : Spelled t name callback
  exact_ : ExactFor m.world t o callback

/-- The statements `ids` of `t'` call a function of `t` with its argument and bring what it gives to
the sink. -/
def Calls (V : Type) (t : Tree) (o : Oracle) (inTry : Bool) (name : Key → String)
    (callback : Callback) (sink : Sink) (register : Register) (t' : Tree)
    (ids : List NodeId) : Prop :=
  ∀ (m : Machine V) (env : Env V) (past : History V) (v : V),
    (∀ id : NodeId, t.size ≤ id → m.senses.lookup id = none) →
    t'.Grows m.tree → KnowsCallback m t o name callback →
    Suits register name sink env → Supplies name env callback v →
    ∃ k, Runs m ⟨env, past, .normal⟩ ids k ∧
      Delivers m.world inTry name sink [] env (callback.call t m.world v past) k

/-- The statements for a function call it with its argument and bring what it gives to the sink. -/
theorem run_unrollHandler {t : Tree} {o : Oracle} {b : Table} {handler : Handler}
    {callback : Callback} (ht : t.Closed) (unroll : Unroller) (c : Context)
    (argument : Option Key) (sink : Sink) (s : State) (name : Key → String)
    (hc : c.oracle = o) (hgrow : t.Grows s.tree)
    (hcallback : IsCallback t o b handler callback) (hsync : callback.isAsync = false)
    (hargument : ∀ key, callback.valueKey? = some key → argument = some key)
    (hname : ∀ key ∈ sink.keys ++ callback.valueKey?.toList,
      s.register.name? key = some (name key)) :
    ∃ ids s', (unrollHandler unroll c handler argument sink).run.run s = (some ids, s') ∧
      Effect sink [] s s' ∧ Calls V t o c.inTry name callback sink s.register s'.tree ids := by
  have hsize : t.size ≤ s.tree.size := hgrow.evolves.size_le
  cases callback with
  | named function =>
      obtain rfl := hcallback.of_named
      obtain rfl := hargument _ rfl
      have htext : s.register.name? (.minted function) = some (name (.minted function)) :=
        hname _ (List.mem_append_right _ (List.mem_singleton_self _))
      obtain ⟨call, s₁, hmakes, hnew, hcall, hrunCall⟩ :=
        run_unrollHandler_named unroll c function (.minted function) _ sink s htext
      obtain ⟨ids, s', hrun, heffect, hwrite⟩ := run_write (V := V) c call sink true s₁ name
        fun key hkey => by rw [hmakes.register]; exact hname key (List.mem_append_left _ hkey)
      refine ⟨ids, s', hrunCall.trans (attempt_lift hrun), hmakes.effect_trans heffect, ?_⟩
      intro m env past v hsenses hgrow' hknows hsuits hsupplies
      obtain ⟨isConst, hcell⟩ := hsupplies _ rfl
      have hfunction := hknows.senses _ (List.mem_singleton_self _)
      -- The call is a new node, so it means what its parts mean.
      have hnone : m.senses.lookup call = none := hsenses call (Nat.le_trans hsize hnew)
      have hcall' := hcall.grows (heffect.grows.trans hgrow')
      have hsize₁ : t.size ≤ s₁.tree.size := Nat.le_trans hsize hmakes.grows.evolves.size_le
      refine hwrite m env past _ (fun id hid => hsenses id (Nat.le_trans hsize₁ hid)) hgrow' ?_
        ?_ (atom?_call hcall' hnone hfunction past hcell) ⟨nofun, nofun⟩
      · obtain ⟨argument, hdata, -⟩ := hcall'
        exact fun _ => ⟨_, _, _, hdata⟩
      · exact hsuits.of_same (fun key _ => by rw [hmakes.register]) fun _ _ => rfl
  | arrow function body isAsync parameter =>
      obtain rfl : isAsync = false := hsync
      obtain ⟨rfl, -⟩ := hcallback.of_arrow
      have hbody : body < t.size := hcallback.body_lt ht
      obtain ⟨ids, s', hrun, heffect, hwrite⟩ := run_write (V := V) c body sink
        (Chain.isPromise t o (t.skipParentheses (some body))) s name
        fun key hkey => hname key (List.mem_append_left _ hkey)
      refine ⟨ids, s', ?_, heffect, ?_⟩
      · exact (run_unrollLiteral ht unroll c sink s hc hgrow hcallback).trans (attempt_lift hrun)
      intro m env past v hsenses hgrow' hknows hsuits hsupplies
      have hsense := hknows.senses _ (List.mem_singleton_self _)
      have hatom : m.atom? env past body = _ :=
        atom?_body ht (hgrow.trans (heffect.grows.trans hgrow')) hcallback.function_lt hbody hsense
          hknows.spelled hsupplies
      refine hwrite m env past _ (fun id hid => hsenses id (Nat.le_trans hsize hid)) hgrow' ?_
        hsuits hatom ⟨?_, ?_⟩
      · exact fun hnone => by rw [hsense] at hnone; cases hnone
      · exact fun hp => hknows.exact_.settled hp _ _
      -- A body that is dropped has no side effects, so it would not have been noted in the history.
      · intro _ hfree _
        rw [hgrow.evolves.isSideEffectFree ht (holds_some.mpr hbody)] at hfree
        refine ⟨?_, hknows.exact_.silent hfree _ _⟩
        simp [World.perform, hfree]

theorem run_unrollHandler_async {t : Tree} {o : Oracle} {b : Table} {handler : Handler}
    {callback : Callback} (ht : t.Closed) (unroll : Unroller) (c : Context)
    (argument : Option Key) (sink : Sink) (s : State) (hgrow : t.Grows s.tree)
    (hcallback : IsCallback t o b handler callback) (hasync : callback.isAsync = true) :
    (unrollHandler unroll c handler argument sink).run.run s = (none, s) := by
  cases callback with
  | named name => cases hasync
  | arrow function body isAsync parameter =>
      obtain rfl : isAsync = true := hasync
      obtain ⟨rfl, -⟩ := hcallback.of_arrow
      exact run_unrollLiteral_async ht unroll c sink s hgrow hcallback

end Unroll

end Unchain

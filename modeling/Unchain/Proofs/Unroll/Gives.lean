import Unchain.Proofs.Unroll.Guarded
import Unchain.Proofs.Unroll.Links
import Unchain.Proofs.Unroll.Passes

/-!
# What unrolling gives

The statements for a chain are put together from those for its receivers and handlers.
`Gives` lists the ways in which this is done, one for each case that unrolling
distinguishes: a link is written or goes on with its receiver, a `try` is put around
statements, a handler is called or its body is gone through. Attempts that failed have
left no statements, and what they have left in the state is said by `Passes`.

All that a chain becomes is given in these ways (`gives_unroll`, `gives_unrollChain`), so
what holds of the statements for a chain can be shown by induction on `Gives`.
-/

namespace Unchain

open Chain (Handler Move moveOf?)
open Naming (Key)
open Promise (Oracle)
open Syntax (Data NodeId Tree)
open Syntax.Tree (holds_skipParentheses holds_some)

namespace Chain

/-- The handlers whose value is the value of the link. -/
def Move.handlers : Move → List Handler
  | pass => []
  | rescue handler | proceed handler => [handler]
  | either handler onRejected => [handler, onRejected]

theorem moveOf?_evolves {t t' : Tree} (h : t.Evolves t') (ht : t.Closed) (o : Oracle)
    (id : Option NodeId) : moveOf? t' o (linkOf t o id) = moveOf? t o (linkOf t o id) := by
  cases hlink : linkOf t o id with
  | thenCall callee receiver onFulfilled onRejected =>
      obtain ⟨-, hfulfilled, hrejected⟩ := holds_of_thenCall ht hlink
      simp only [moveOf?, handlerOf_evolves h ht o hfulfilled, handlerOf_evolves h ht o hrejected]
  | catchCall callee receiver onRejected =>
      simp only [moveOf?, handlerOf_evolves h ht o (holds_of_catchCall ht hlink).2]
  | _ => rfl

end Chain

namespace Unroll

/-! ### Ways to give statements -/

/-- What is unrolled. -/
inductive Task where
  /-- An expression, for an outlet. -/
  | link (e : Option NodeId) (outlet : Outlet)
  /-- A handler, for a sink. -/
  | handler (handler : Handler) (sink : Sink)
  /-- The statements of the body of a handler, from some statement on. -/
  | body (statements : List NodeId) (sink : Sink)
  /-- The value of a handler. -/
  | value (e : NodeId) (sink : Sink)

/-- The sink that an outlet has for an expression of the source `t`. -/
def Outlet.sinkOf (outlet : Outlet) (t : Tree) (e : Option NodeId) (s : State) : Sink :=
  outlet.sink ((t.skipParentheses e).any s.successors.has)

/-- The statements `ids` are what a task of the source `t` becomes, from `s` to `s'`. -/
inductive Gives (t : Tree) : Context → Task → State → List NodeId → State → Prop
  /-- A link or a leaf is written as it is, perhaps after an attempt to convert it. -/
  | written {c : Context} {e : Option NodeId} {outlet : Outlet} {isPromise : Bool}
      {s s₁ s' : State} {ids : List NodeId} (he : t.Holds e)
      (hpasses : Passes c.oracle (· < t.size) s s₁) (hregister : s₁.register = s.register)
      (hother : isPromise = false → Chain.linkOf t c.oracle (t.skipParentheses e) = .other)
      (hrun : (write c (t.skipParentheses e) (outlet.sinkOf t e s₁) isPromise).run s₁ =
        (ids, s')) : Gives t c (.link e outlet) s ids s'
  | member {c : Context} {e receiver : Option NodeId} {outlet : Outlet} {s s' : State}
      {ids : List NodeId}
      (hlink : Chain.linkOf t c.oracle (t.skipParentheses e) = .member receiver)
      (h : Gives t c (.link receiver outlet) s ids s') : Gives t c (.link e outlet) s ids s'
  | pass {c : Context} {e : Option NodeId} {callee receiver : NodeId} {outlet : Outlet}
      {s s' : State} {ids : List NodeId}
      (hmove : moveOf? t c.oracle (Chain.linkOf t c.oracle (t.skipParentheses e)) =
        some (callee, receiver, .pass))
      (h : Gives t c (.link (some callee) outlet) s ids s') : Gives t c (.link e outlet) s ids s'
  | rescue {c : Context} {e : Option NodeId} {callee receiver id : NodeId} {handler : Handler}
      {outlet : Outlet} {reason : Key} {s s₁ s₂ s₃ s' : State}
      {hoisted tried handled : List NodeId}
      (hmove : moveOf? t c.oracle (Chain.linkOf t c.oracle (t.skipParentheses e)) =
        some (callee, receiver, .rescue handler))
      (hhoist : (hoist (outlet.sinkOf t e s)).run s = (hoisted, s₁))
      (htried : Gives t { c with inTry := true } (.link (some callee) outlet) s₁ tried s₂)
      (hhandled : Gives t c (.handler handler (outlet.sinkOf t e s)) s₂ handled s₃)
      (hmake : (makeTry tried handled reason).run s₃ = (id, s')) :
      Gives t c (.link e outlet) s (hoisted ++ [id]) s'
  | proceed {c : Context} {e : Option NodeId} {callee receiver : NodeId} {handler : Handler}
      {outlet : Outlet} {argument : Option Key} {s s₁ s' : State} {before after : List NodeId}
      (hmove : moveOf? t c.oracle (Chain.linkOf t c.oracle (t.skipParentheses e)) =
        some (callee, receiver, .proceed handler))
      (hbefore : Gives t c (.link (some callee) { outlet with argument }) s before s₁)
      (hafter : Gives t c (.handler handler (outlet.sinkOf t e s)) s₁ after s') :
      Gives t c (.link e outlet) s (before ++ after) s'
  | either {c : Context} {e : Option NodeId} {callee receiver id : NodeId}
      {handler onRejected : Handler} {outlet : Outlet} {argument : Option Key} {reason : Key}
      {s s₁ s₂ s₃ s₄ s' : State} {hoisted before after handled : List NodeId}
      (hmove : moveOf? t c.oracle (Chain.linkOf t c.oracle (t.skipParentheses e)) =
        some (callee, receiver, .either handler onRejected))
      (hhoist : (hoist (outlet.sinkOf t e s)).run s = (hoisted, s₁))
      (hbefore : Gives t { c with inTry := true } (.link (some callee) { outlet with argument })
        s₁ before s₂)
      (hafter : Gives t { c with inTry := true } (.handler handler (outlet.sinkOf t e s))
        s₂ after s₃)
      (hhandled : Gives t c (.handler onRejected (outlet.sinkOf t e s)) s₃ handled s₄)
      (hmake : (makeTry (before ++ after) handled reason).run s₄ = (id, s')) :
      Gives t c (.link e outlet) s (hoisted ++ [id]) s'
  /-- A function that is passed by name is called. -/
  | call {c : Context} {sink : Sink} {name call : NodeId} {arguments : List NodeId}
      {s s₁ s' : State} {ids : List NodeId} (hmakes : Makes s s₁)
      (hcall : s₁.tree.data? call =
        some (.call .call (some name) none (some { nodes := arguments })))
      (hrun : (write c (some call) sink true).run s₁ = (ids, s')) :
      Gives t c (.handler (.named name) sink) s ids s'
  | block {c : Context} {sink : Sink} {function body : NodeId} {list : Syntax.NodeList}
      {s s' : State} {ids : List NodeId} (hbody : Chain.bodyOf? t function = some body)
      (hlist : t.statements? body = some list) (h : Gives t c (.body list.nodes sink) s ids s') :
      Gives t c (.handler (.literal function) sink) s ids s'
  | concise {c : Context} {sink : Sink} {function e : NodeId} {s s' : State} {ids : List NodeId}
      (hbody : Chain.bodyOf? t function = some e) (hnone : t.statements? e = none)
      (h : Gives t c (.value e sink) s ids s') :
      Gives t c (.handler (.literal function) sink) s ids s'
  | bodiless {c : Context} {sink : Sink} {function : NodeId} {s s' : State} {ids : List NodeId}
      (hbody : Chain.bodyOf? t function = none)
      (hrun : (write c none sink false).run s = (ids, s')) :
      Gives t c (.handler (.literal function) sink) s ids s'
  /-- The body runs off its end. -/
  | done {c : Context} {sink : Sink} {s s' : State} {ids : List NodeId}
      (hrun : (writeUndefined c sink).run s = (ids, s')) : Gives t c (.body [] sink) s ids s'
  | returns {c : Context} {sink : Sink} {statement e : NodeId} {rest : List NodeId}
      {s s' : State} {ids : List NodeId} (hstatement : statement < t.size)
      (hd : s.tree.data? statement = some (.leave .returns (some e)))
      (h : Gives t c (.value e sink) s ids s') : Gives t c (.body (statement :: rest) sink) s ids s'
  | leaves {c : Context} {statement id : NodeId} {rest : List NodeId} {s s' : State}
      (hd : t.data? statement = some (.leave .returns none))
      (hrun : (makeReturn none).run s = (id, s')) :
      Gives t c (.body (statement :: rest) .returned) s [id] s'
  | ends {c : Context} {sink : Sink} {statement : NodeId} {rest : List NodeId} {s s' : State}
      {ids : List NodeId} (hd : t.data? statement = some (.leave .returns none))
      (hsink : sink ≠ .returned) (hrun : (writeUndefined c sink).run s = (ids, s')) :
      Gives t c (.body (statement :: rest) sink) s ids s'
  /-- A chain that is a statement of its own. -/
  | chain {c : Context} {sink : Sink} {statement e : NodeId} {rest first others : List NodeId}
      {s s₁ s' : State} (hd : t.data? statement = some (.expressionStatement .statement (some e)))
      (hchain : Chain.isChain t c.oracle (some e) = true)
      (hfirst : Gives t c (.value e .discarded) s first s₁)
      (hrest : Gives t c (.body rest sink) s₁ others s') :
      Gives t c (.body (statement :: rest) sink) s (first ++ others) s'
  /-- Any other statement. -/
  | keep {c : Context} {sink : Sink} {statement : NodeId} {rest others : List NodeId}
      {s s₁ s' : State} (hstatement : statement < t.size)
      (hd : ∀ e, t.data? statement ≠ some (.leave .returns e))
      (hkeep : (keepStatement c statement sink).run.run s = (some statement, s₁))
      (hrest : Gives t c (.body rest sink) s₁ others s') :
      Gives t c (.body (statement :: rest) sink) s (statement :: others) s'
  | nested {c : Context} {sink : Sink} {e nesting : NodeId} {s s' : State} {ids : List NodeId}
      (he : e < t.size) (hchain : Chain.isChain t c.oracle (some e) = true)
      (h : Gives t { c with nesting } (.link (some e) { final := sink })
        { s with successors := s.successors.mark s.tree c.oracle (some e) false } ids s') :
      Gives t c (.value e sink) s ids s'
  | plain {c : Context} {sink : Sink} {e : NodeId} {s s' : State} {ids : List NodeId}
      (he : e < t.size ∧ IsHandlerValue t e ∨
        ∃ awaited, s.tree.data? e = some (.unary .await awaited))
      (hchain : e < t.size → Chain.isChain t c.oracle (some e) = false)
      (hrun : (write c (some e) sink (givesPromise c s.tree (some e))).run s = (ids, s')) :
      Gives t c (.value e sink) s ids s'

variable {t : Tree} {c : Context} {task : Task} {s s' : State} {ids : List NodeId}

/-! ### What happens to the state -/

/-- Unrolling passes, whatever it gives. -/
theorem Gives.passes (h : Gives t c task s ids s') : Passes c.oracle (· < t.size) s s' := by
  have hpasses (o : Oracle) := modular_passes o (· < t.size)
  induction h with
  | written _ hbefore _ _ hrun =>
      exact hbefore.trans (.of_run ((hpasses _).write (Sink.within_all _) ..) hrun)
  | member _ _ ih => exact ih
  | pass _ _ ih => exact ih
  | rescue _ hhoist _ _ hmake ihtried ihhandled =>
      exact (passes_of_run_hoist _ _ hhoist).trans (ihtried.trans
        (ihhandled.trans (.of_run ((hpasses _).makeTry _ _ trivial _) hmake)))
  | proceed _ _ _ ihbefore ihafter => exact ihbefore.trans ihafter
  | either _ hhoist _ _ _ hmake ihbefore ihafter ihhandled =>
      exact (passes_of_run_hoist _ _ hhoist).trans (ihbefore.trans
        (ihafter.trans (ihhandled.trans (.of_run ((hpasses _).makeTry _ _ trivial _) hmake))))
  | call hmakes _ hrun =>
      exact (Passes.adds (.refl _) hmakes.toAdds).trans
        (.of_run ((hpasses _).write (Sink.within_all _) ..) hrun)
  | block _ _ _ ih => exact ih
  | concise _ _ _ ih => exact ih
  | bodiless _ hrun => exact .of_run ((hpasses _).write (Sink.within_all _) ..) hrun
  | done hrun => exact .of_run ((hpasses _).writeUndefined (Sink.within_all _) ..) hrun
  | returns _ _ _ ih => exact ih
  | leaves _ hrun => exact .of_run ((hpasses _).make _ _ _) hrun
  | ends _ _ hrun => exact .of_run ((hpasses _).writeUndefined (Sink.within_all _) ..) hrun
  | chain _ _ _ _ ihfirst ihrest => exact ihfirst.trans ihrest
  | keep _ _ hkeep _ ihrest =>
      exact (passes_of_run_keepStatement _ _ hkeep).trans ihrest
  | @nested c _ e _ s _ _ he _ _ ih =>
      have hmarked : Passes c.oracle (· < t.size) s _ := .marks (.refl s) he
      exact hmarked.trans ih
  | plain _ _ hrun => exact .of_run ((hpasses _).write (Sink.within_all _) ..) hrun

theorem Gives.evolves (h : Gives t c task s ids s') : s.tree.Evolves s'.tree := h.passes.evolves

/-! ### Parts of the source -/

/-- What a return of the source returns now: what it returned, or that with `await` in front. -/
theorem returned_value {statement e : NodeId} (hgrow : t.Evolves s.tree)
    (hstatement : statement < t.size)
    (h : s.tree.data? statement = some (.leave .returns (some e))) :
    t.data? statement = some (.leave .returns (some e)) ∨
      ∃ inner, s.tree.data? e = some (.unary .await inner) := by
  rcases hgrow.data?_cases hstatement with hsame | ⟨x, x', hbefore, -⟩
  · exact .inl (hsame.symm.trans h)
  · obtain ⟨e', hafter, hawaits⟩ := hgrow.returns hbefore
    obtain rfl : e = e' := by simpa using h.symm.trans hafter
    cases hawaits with
    | refl => exact .inl hbefore
    | step hunary _ => exact .inr ⟨_, hunary⟩

/-- The parts of a link of the source are in the source. -/
theorem inSource_of_moveOf? {o : Oracle} (ht : t.Closed) {e : Option NodeId}
    {callee receiver : NodeId} {move : Move}
    (h : moveOf? t o (Chain.linkOf t o e) = some (callee, receiver, move)) :
    callee < t.size ∧ ∀ handler ∈ move.handlers, InSource t handler := by
  cases hlink : Chain.linkOf t o e with
  | thenCall callee receiver onFulfilled onRejected =>
      obtain ⟨hcallee, hfulfilled, hrejected⟩ := Chain.holds_of_thenCall ht hlink
      have hfulfilled := inSource_handlerOf ht o (.refl t) hfulfilled
      have hrejected := inSource_handlerOf ht o (.refl t) hrejected
      rw [hlink] at h
      cases h
      refine ⟨hcallee, fun handler hmem => ?_⟩
      split at hmem
      · cases hmem
      · obtain rfl := List.mem_singleton.mp hmem
        exact hrejected
      · obtain rfl := List.mem_singleton.mp hmem
        exact hfulfilled
      · rcases List.mem_cons.mp hmem with rfl | hmem
        · exact hfulfilled
        · obtain rfl := List.mem_singleton.mp hmem
          exact hrejected
  | catchCall callee receiver onRejected =>
      obtain ⟨hcallee, hrejected⟩ := Chain.holds_of_catchCall ht hlink
      rw [hlink] at h
      cases h
      refine ⟨hcallee, fun handler hmem => ?_⟩
      obtain rfl := List.mem_singleton.mp hmem
      exact inSource_handlerOf ht o (.refl t) hrejected
  | _ =>
      rw [hlink] at h
      cases h

/-! ### Handlers -/

/-- What an unroller makes of an expression of the source `t` is given in the listed ways. -/
def GivesOver (t : Tree) (unroll : Unroller) : Prop :=
  ∀ c e outlet s, t.Evolves s.tree → t.Holds e →
    Gives t c (.link e outlet) s ((unroll c e outlet).run s).1 ((unroll c e outlet).run s).2

theorem GivesOver.of_run {inner : Unroller} (h : GivesOver t inner) {e : Option NodeId}
    {outlet : Outlet} (hgrow : t.Evolves s.tree) (he : t.Holds e)
    (hrun : (liftM (inner c e outlet) : Attempt (List NodeId)).run.run s = (some ids, s')) :
    Gives t c (.link e outlet) s ids s' := by
  have hgives := h c e outlet s hgrow he
  rwa [of_attempt_lift hrun] at hgives

/-- A statement is kept as it is, or its returns have come to await as far as they give promises. -/
theorem of_run_keepStatement {sink : Sink} {statement id : NodeId}
    (h : (keepStatement c statement sink).run.run s = (some id, s')) :
    id = statement ∧
      (s' = s ∧ (containsReturn s.tree statement = true → c.inTry = false) ∨
        ∃ u, ((returnsBelow s.tree statement).forM fun id =>
          (awaitReturn c id : Attempt Unit)).run.run s = (some u, s')) := by
  have hrun : (keepStatement c statement sink).run.run s = _ := attempt_get_bind _ s
  rw [hrun] at h
  dsimp only at h
  split at h
  · split at h
    · cases (attempt_bind_none rfl).symm.trans h
    · split at h
      · obtain ⟨u, s₁, hreturns, h⟩ := of_attempt_bind h
        cases (attempt_pure _ _).symm.trans h
        exact ⟨rfl, .inr ⟨u, hreturns⟩⟩
      · next hinTry =>
        cases (attempt_pure _ _).symm.trans h
        exact ⟨rfl, .inl ⟨rfl, fun _ => Bool.eq_false_iff.mpr hinTry⟩⟩
  · next hno =>
    cases (attempt_pure _ _).symm.trans h
    exact ⟨rfl, .inl ⟨rfl, fun hreturn => absurd hreturn hno⟩⟩

theorem makes_names (texts : List String)
    (h : (texts.mapM fun text => (makeName text : Attempt NodeId)).run.run s = (some ids, s')) :
    Makes s s' := by
  induction texts generalizing s ids with
  | nil =>
      cases (attempt_pure _ _).symm.trans h
      exact .refl _
  | cons text texts ih =>
      rw [List.mapM_cons] at h
      obtain ⟨id, s₁, hname, h⟩ := of_attempt_bind h
      obtain ⟨s₂, hmake, hmakes, -⟩ := run_make (.identifier text) {} s
      cases hmake.symm.trans (of_attempt_lift hname)
      obtain ⟨rest, s₃, hrest, h⟩ := of_attempt_bind h
      cases (attempt_pure _ _).symm.trans h
      exact hmakes.trans (ih hrest)

section

variable {inner : Unroller} {sink : Sink} (ht : t.Closed) (hinner : GivesOver t inner)
  (hgrow : t.Evolves s.tree)
include ht hinner hgrow

omit ht in
theorem gives_of_run_unrollNested {e : NodeId} (he : e < t.size)
    (hchain : Chain.isChain t c.oracle (some e) = true)
    (h : (unrollNested inner c e sink).run.run s = (some ids, s')) :
    Gives t c (.value e sink) s ids s' := by
  unfold unrollNested at h
  split at h
  · cases h
  · obtain ⟨u, s₁, hmark, h⟩ := of_attempt_bind h
    cases hmark
    exact .nested he hchain (hinner.of_run hgrow (holds_some.mpr he) h)

/-- The value is one of the source, or it has come to be awaited. -/
theorem gives_of_run_unrollValue {e : NodeId}
    (he : e < t.size ∧ IsHandlerValue t e ∨
      ∃ awaited, s.tree.data? e = some (.unary .await awaited))
    (h : (unrollValue inner c e sink).run.run s = (some ids, s')) :
    Gives t c (.value e sink) s ids s' := by
  have hrun : (unrollValue inner c e sink).run.run s = _ := attempt_get_bind _ s
  have hsame (he : e < t.size) := Chain.isChain_evolves hgrow ht c.oracle (holds_some.mpr he)
  rw [hrun] at h
  dsimp only at h
  split at h
  · next hchain =>
    rcases he with ⟨he, -⟩ | ⟨awaited, hawait⟩
    · rw [hsame he] at hchain
      exact gives_of_run_unrollNested hinner hgrow he hchain h
    · -- An `await` of ours is no chain.
      rw [Chain.isChain_await c.oracle hawait] at hchain
      cases hchain
  · next hchain =>
    exact .plain he (fun he => hsame he ▸ Bool.eq_false_iff.mpr hchain) (of_attempt_lift h)

theorem gives_of_run_unrollStatements {statements : List NodeId}
    (hstatements : ∀ statement ∈ statements, statement < t.size ∧
      ∀ e, t.data? statement = some (.leave .returns (some e)) → IsHandlerValue t e)
    (h : (unrollStatements inner c sink statements).run.run s = (some ids, s')) :
    Gives t c (.body statements sink) s ids s' := by
  induction statements generalizing s ids with
  | nil => exact .done (of_attempt_lift h)
  | cons statement rest ih =>
      obtain ⟨hstatement, hvalue⟩ := hstatements statement List.mem_cons_self
      have hrest {s₁ : State} {others : List NodeId} (hgrow₁ : s.tree.Evolves s₁.tree) :
          (unrollStatements inner c sink rest).run.run s₁ = (some others, s') →
            Gives t c (.body rest sink) s₁ others s' :=
        ih (hgrow.trans hgrow₁) fun x hx => hstatements x (List.mem_cons_of_mem _ hx)
      have hrun : (unrollStatements inner c sink (statement :: rest)).run.run s = _ :=
        attempt_get_bind _ s
      rw [hrun] at h
      dsimp only at h
      split at h
      · next hnone =>
        obtain ⟨n, hn⟩ := Tree.node?_eq_some_of_lt (Nat.lt_of_lt_of_le hstatement hgrow.size_le)
        cases hnone.symm.trans (Tree.data?_of_node? hn)
      · next e hreturn =>
        refine .returns hstatement hreturn (gives_of_run_unrollValue ht hinner hgrow ?_ h)
        refine (returned_value hgrow hstatement hreturn).imp_left fun hbefore => ?_
        exact ⟨ht.child_lt hbefore (by simp [Data.children]), hvalue e hbefore⟩
      · next hreturn =>
        have hbefore := hgrow.data?_before hstatement hreturn (by simp)
        split at h
        · next hsink =>
          subst hsink
          obtain ⟨id, s₁, hmake, h⟩ := of_attempt_bind h
          cases (attempt_pure _ _).symm.trans h
          exact .leaves hbefore (of_attempt_lift hmake)
        · next hsink => exact .ends hbefore hsink (of_attempt_lift h)
      · next data hnotReturn hnotEmpty hdata =>
        have hbefore := hgrow.data?_before hstatement hdata hnotReturn
        split at h
        · next e hchain =>
          split at hchain
          · obtain ⟨hischain, heq⟩ := Option.ite_none_right_eq_some.mp hchain
            obtain rfl := Option.some.inj heq
            have he := ht.child_lt hbefore (List.mem_singleton_self _)
            rw [Chain.isChain_evolves hgrow ht c.oracle (holds_some.mpr he)] at hischain
            obtain ⟨first, s₁, hnested, h⟩ := of_attempt_bind h
            obtain ⟨others, s₂, hothers, h⟩ := of_attempt_bind h
            cases (attempt_pure _ _).symm.trans h
            have hfirst := gives_of_run_unrollNested hinner hgrow he hischain hnested
            exact .chain hbefore hischain hfirst (hrest hfirst.evolves hothers)
          · cases hchain
        · obtain ⟨id, s₁, hkeep, hrest'⟩ := of_attempt_bind h
          change (do return [id] ++ (← unrollStatements inner c sink rest) :
            Attempt (List NodeId)).run.run s₁ = (some ids, s') at hrest'
          have heq := (of_run_keepStatement hkeep).1
          rw [heq] at hkeep hrest'
          obtain ⟨others, s₂, hothers, h⟩ := of_attempt_bind hrest'
          cases (attempt_pure _ _).symm.trans h
          have hpasses := passes_of_run_keepStatement c.oracle (· < t.size) hkeep
          refine .keep hstatement (fun e he => ?_) hkeep (hrest hpasses.evolves hothers)
          obtain rfl := Option.some.inj (hbefore.symm.trans he)
          cases e with
          | none => exact hnotEmpty rfl
          | some e => exact hnotReturn e rfl

theorem gives_of_run_unrollLiteral {function : NodeId} (hfunction : function < t.size)
    (h : (unrollLiteral inner c function sink).run.run s = (some ids, s')) :
    Gives t c (.handler (.literal function) sink) s ids s' := by
  have hrun : (unrollLiteral inner c function sink).run.run s = _ := attempt_get_bind _ s
  rw [hrun] at h
  dsimp only at h
  split at h
  · next kind f hdata =>
    have hbefore := hgrow.data?_before hfunction hdata (by simp)
    have hbodyOf : Chain.bodyOf? t function = f.body := by rw [Chain.bodyOf?, hbefore]
    have hbody {e : NodeId} (he : f.body = some e) : e < t.size :=
      ht.child_lt hbefore (by simp [Data.children, he])
    split at h
    · cases (attempt_bind_none rfl).symm.trans h
    · split at h
      · next list hlist =>
        obtain ⟨body, hsome, hlist⟩ := Option.bind_eq_some_iff.mp hlist
        rw [hgrow.statements? (hbody hsome)] at hlist
        refine .block (hbodyOf.trans hsome) hlist
          (gives_of_run_unrollStatements ht hinner hgrow (fun statement hmem => ?_) h)
        refine ⟨ht.statement_lt hlist hmem, fun e he => ?_⟩
        exact ⟨function, kind, f, hbefore, .inr ⟨list, by rw [hsome]; exact hlist, statement,
          hmem, he⟩⟩
      · next hnone =>
        split at h
        · next e he =>
          rw [he, Option.bind_some, hgrow.statements? (hbody he)] at hnone
          exact .concise (hbodyOf.trans he) hnone (gives_of_run_unrollValue ht hinner hgrow
            (.inl ⟨hbody he, function, kind, f, hbefore, .inl he⟩) h)
        · next hempty => exact .bodiless (hbodyOf.trans hempty) (of_attempt_lift h)
  · cases h

theorem gives_of_run_unrollHandler {handler : Handler} {argument : Option Key}
    (hhandler : InSource t handler)
    (h : (unrollHandler inner c handler argument sink).run.run s = (some ids, s')) :
    Gives t c (.handler handler sink) s ids s' := by
  cases handler with
  | named name =>
      have hrun : (unrollHandler inner c (.named name) argument sink).run.run s = _ :=
        attempt_get_bind _ s
      rw [hrun] at h
      obtain ⟨arguments, s₁, hnames, h⟩ := of_attempt_bind h
      obtain ⟨call, s₂, hmake, h⟩ := of_attempt_bind h
      obtain ⟨s₃, hcall, hmakes, hnode⟩ :=
        run_make (.call .call (some name) none (some { nodes := arguments })) {} s₁
      cases hcall.symm.trans (of_attempt_lift hmake)
      exact .call ((makes_names _ hnames).trans hmakes) hnode.data? (of_attempt_lift h)
  | literal function => exact gives_of_run_unrollLiteral ht hinner hgrow (hhandler function rfl) h
  | absent => cases h
  | unsupported e => cases h

/-! ### Links -/

variable {e : Option NodeId} {outlet : Outlet}

/-- A `then` or `catch` becomes what its move asks for. -/
theorem gives_of_run_unrollMove {callee receiver : NodeId} {move : Move}
    (hmove : moveOf? t c.oracle (Chain.linkOf t c.oracle (t.skipParentheses e)) =
      some (callee, receiver, move))
    (h : (unrollMove inner c callee outlet (outlet.sinkOf t e s) move).run.run s = (some ids, s')) :
    Gives t c (.link e outlet) s ids s' := by
  obtain ⟨hcallee, hsource⟩ := inSource_of_moveOf? ht hmove
  have hcallee := holds_some.mpr hcallee
  cases move with
  | pass => exact .pass hmove (hinner.of_run hgrow hcallee h)
  | rescue handler =>
      obtain ⟨reason, s₀, hreason, h⟩ := of_attempt_bind ((attempt_get_bind _ s).symm.trans h)
      obtain ⟨-, rfl⟩ := Prod.mk.inj ((attempt_orFail _ s).symm.trans hreason)
      obtain ⟨hoisted, s₁, hhoist, h⟩ := of_attempt_bind h
      obtain ⟨tried, s₂, htried, h⟩ := of_attempt_bind h
      obtain ⟨handled, s₃, hhandled, h⟩ := of_attempt_bind h
      obtain ⟨id, s₄, hmake, h⟩ := of_attempt_bind h
      cases (attempt_pure _ _).symm.trans h
      have hhoist := of_attempt_lift hhoist
      have hgrow₁ := hgrow.trans (passes_of_run_hoist c.oracle (· < t.size) hhoist).evolves
      have htried := hinner.of_run hgrow₁ hcallee htried
      have hhandled := gives_of_run_unrollHandler ht hinner (hgrow₁.trans htried.evolves)
        (hsource handler (List.mem_singleton_self _)) hhandled
      exact .rescue hmove hhoist htried hhandled (of_attempt_lift hmake)
  | proceed handler =>
      obtain ⟨argument, s₀, hargument, h⟩ := of_attempt_bind ((attempt_get_bind _ s).symm.trans h)
      obtain ⟨-, rfl⟩ := Prod.mk.inj ((attempt_orFail _ s).symm.trans hargument)
      obtain ⟨before, s₁, hbefore, h⟩ := of_attempt_bind h
      obtain ⟨after, s₂, hafter, h⟩ := of_attempt_bind h
      cases (attempt_pure _ _).symm.trans h
      have hbefore := hinner.of_run hgrow hcallee hbefore
      exact .proceed hmove hbefore (gives_of_run_unrollHandler ht hinner
        (hgrow.trans hbefore.evolves) (hsource handler (List.mem_singleton_self _)) hafter)
  | either handler onRejected =>
      obtain ⟨argument, s₀, hrun, h⟩ := of_attempt_bind ((attempt_get_bind _ s).symm.trans h)
      obtain ⟨-, rfl⟩ := Prod.mk.inj ((attempt_orFail _ s).symm.trans hrun)
      obtain ⟨reason, s₀, hrun, h⟩ := of_attempt_bind h
      obtain ⟨-, rfl⟩ := Prod.mk.inj ((attempt_orFail _ _).symm.trans hrun)
      obtain ⟨hoisted, s₁, hhoist, h⟩ := of_attempt_bind h
      obtain ⟨before, s₂, hbefore, h⟩ := of_attempt_bind h
      obtain ⟨after, s₃, hafter, h⟩ := of_attempt_bind h
      obtain ⟨handled, s₄, hhandled, h⟩ := of_attempt_bind h
      obtain ⟨id, s₅, hmake, h⟩ := of_attempt_bind h
      cases (attempt_pure _ _).symm.trans h
      have hhoist := of_attempt_lift hhoist
      have hgrow₁ := hgrow.trans (passes_of_run_hoist c.oracle (· < t.size) hhoist).evolves
      have hbefore := hinner.of_run hgrow₁ hcallee hbefore
      have hgrow₂ := hgrow₁.trans hbefore.evolves
      have hafter := gives_of_run_unrollHandler ht hinner hgrow₂
        (hsource handler List.mem_cons_self) hafter
      have hhandled := gives_of_run_unrollHandler ht hinner (hgrow₂.trans hafter.evolves)
        (hsource onRejected (List.mem_cons_of_mem _ (List.mem_singleton_self _))) hhandled
      exact .either hmove hhoist hbefore hafter hhandled (of_attempt_lift hmake)

theorem gives_of_run_unrollLink (he : t.Holds e)
    (h : (unrollLink inner c e outlet).run.run s = (some ids, s')) :
    Gives t c (.link e outlet) s ids s' := by
  have hafter := hgrow.skipParentheses ht he
  have hlinkAfter := Chain.linkOf_evolves hgrow ht c.oracle (holds_skipParentheses ht he)
  cases hmove : moveOf? t c.oracle (Chain.linkOf t c.oracle (t.skipParentheses e)) with
  | some parts =>
      obtain ⟨callee, receiver, move⟩ := parts
      refine gives_of_run_unrollMove ht hinner hgrow hmove ?_
      cases hskip : t.skipParentheses e with
      | none =>
          rw [hskip] at hmove
          cases hmove
      | some x =>
          rw [hskip] at hafter hlinkAfter
          have hmoveAfter : moveOf? s.tree c.oracle (Chain.linkOf s.tree c.oracle (some x)) =
              some (callee, receiver, move) := by
            rw [hlinkAfter, Chain.moveOf?_evolves hgrow ht, ← hskip, hmove]
          rw [run_unrollLink_move hafter hmoveAfter] at h
          rwa [Outlet.sinkOf, hskip, Option.any_some]
  | none =>
      have hrun : (unrollLink inner c e outlet).run.run s = _ :=
        (attempt_get_bind _ s).trans (attempt_bind (attempt_lift (run_get_bind _ s)))
      rw [hrun, hafter, hlinkAfter] at h
      split at h
      · next hlink => rw [hlink] at hmove; cases hmove
      · next hlink => rw [hlink] at hmove; cases hmove
      · next receiver hlink =>
        exact .member hlink (hinner.of_run hgrow (Chain.holds_of_member ht hlink) h)
      · cases h
      · exact .written he (.refl s) rfl (by simp) (of_attempt_lift h)
      · next hlink => exact .written he (.refl s) rfl (fun _ => hlink) (of_attempt_lift h)

end

/-! ### Chains -/

section

variable {e : Option NodeId} {outlet : Outlet} {depth : Nat} (ht : t.Closed)
include ht

/-- A link that is kept is written. -/
theorem gives_of_run_keepLink {s₁ : State} (he : t.Holds e) (hgrow : t.Evolves s.tree)
    (hpasses : Passes c.oracle (· < t.size) s s₁) (hregister : s₁.register = s.register)
    (h : (keepLink c e outlet).run s₁ = (ids, s')) : Gives t c (.link e outlet) s ids s' := by
  have hrun : (keepLink c e outlet).run s₁ = _ := (run_get_bind _ s₁).trans (run_get_bind _ s₁)
  rw [hrun, (hgrow.trans hpasses.evolves).skipParentheses ht he] at h
  exact .written he hpasses hregister (by simp) h

/-- The outermost link is converted, or it is kept after the attempt has failed. -/
theorem gives_of_attempt (hinner : GivesOver t (unroll depth)) (hgrow : t.Evolves s.tree)
    (he : t.Holds e) :
    (∃ ids s', (attempt (unrollLink (unroll depth) c e outlet)).run s = (some ids, s') ∧
        Gives t c (.link e outlet) s ids s') ∨
      ∃ s₁, (attempt (unrollLink (unroll depth) c e outlet)).run s = (none, s₁) ∧
        Gives t c (.link e outlet) s ((keepLink c e outlet).run s₁).1
          ((keepLink c e outlet).run s₁).2 := by
  rcases hrun : (unrollLink (unroll depth) c e outlet).run.run s with ⟨ids | ids, s₁⟩
  · have hmodular := modular_passes c.oracle (· < t.size)
    let S := Scope.source ht c.oracle c.bindings
    have hinside : S.Over _ depth (unroll depth) := hmodular.unroll S trivial
    have hpasses := hmodular.attempt
      (hmodular.unrollLink outlet.within_all hinside trivial hgrow he)
    rw [attempt_run_of_none hrun] at hpasses
    -- The attempt has passed into a state with the old names, and the link is written there.
    exact .inr ⟨_, attempt_run_of_none hrun, gives_of_run_keepLink ht he hgrow hpasses rfl rfl⟩
  · exact .inl ⟨ids, s₁, attempt_run_of_some hrun,
      gives_of_run_unrollLink ht hinner hgrow he hrun⟩

/-- What a chain becomes is given in the listed ways, however deep it is unrolled. -/
theorem gives_unroll (depth : Nat) : GivesOver t (unroll depth) := by
  induction depth with
  | zero => exact fun c e outlet s hgrow he => gives_of_run_keepLink ht he hgrow (.refl s) rfl rfl
  | succ depth ih =>
      intro c e outlet s hgrow he
      obtain ⟨ids, s', hrun, hgives⟩ | ⟨s₁, hrun, hgives⟩ := gives_of_attempt ht ih hgrow he
      · have hunroll : (unroll (depth + 1) c e outlet).run s = _ := run_bind hrun
        rw [hunroll]
        exact hgives
      · have hunroll : (unroll (depth + 1) c e outlet).run s = _ := run_bind hrun
        rw [hunroll]
        exact hgives

theorem gives_unrollChain (c : Context) {e : NodeId} (sink : Sink) (hgrow : t.Evolves s.tree)
    (he : e < t.size) :
    Gives t c (.link (some e) { final := sink }) s ((unrollChain c e sink).run s).1.statements
      ((unrollChain c e sink).run s).2 := by
  have hinner := gives_unroll ht (Limits.chainLinks - 1)
  obtain ⟨ids, s', hrun, hgives⟩ | ⟨s₁, hrun, hgives⟩ :=
    gives_of_attempt (c := c) (e := some e) ht hinner hgrow (holds_some.mpr he)
  · have hunroll : (unrollChain c e sink).run s = _ := run_bind hrun
    rw [hunroll]
    exact hgives
  · have hunroll : (unrollChain c e sink).run s = _ := run_bind hrun
    rw [hunroll]
    exact hgives

end

end Unroll

end Unchain

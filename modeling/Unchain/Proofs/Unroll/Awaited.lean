import Unchain.Proofs.Unroll.Gives

/-!
# Promises are awaited inside of a `try`

Values get into a return in four ways: a link or a leaf is written as it is, a
function that is passed by its name is called, a function in place gives a value,
or a statement of such a function that is kept returns one. Each of them is told
whether a `catch` can see failures, and awaits what may be a promise if so
(`secures_write`, `secures_of_run_keepStatement`).

`Gives.secures` puts them together for chains in any nesting: the statements that
a chain becomes are `Guarded`.
-/

namespace Unchain.Unroll

open Chain (Handler)
open Naming (Key)
open Promise (Oracle)
open Syntax (Data NodeId Tree)
open Syntax.Tree (holds_some)

/-- The statements `ids`, written or kept from `s` to `s'`, are guarded. -/
structure Secures (t : Tree) (o : Oracle) (inTry : Bool) (s : State) (ids : List NodeId)
    (s' : State) : Prop where
  evolves : s.tree.Evolves s'.tree
  guarded : ∀ id ∈ ids, Guarded t o s'.tree inTry id

variable {t : Tree} {o : Oracle} {c : Context} {inTry : Bool} {sink : Sink} {s s₁ s' : State}
variable {ids ids' : List NodeId}

/-! ### Statements after one another -/

namespace Secures

/-- A step that gives no statement. -/
theorem silent (hgrow : s.tree.Evolves s'.tree) : Secures t o inTry s [] s' := ⟨hgrow, nofun⟩

theorem single {id : NodeId} (hgrow : s.tree.Evolves s'.tree)
    (hid : Guarded t o s'.tree inTry id) : Secures t o inTry s [id] s' :=
  ⟨hgrow, fun _ h => List.mem_singleton.mp h ▸ hid⟩

/-- What a step gives, a step gives that comes after others. -/
theorem after (h : Secures t o inTry s ids s') (hgrow : s₁.tree.Evolves s.tree) :
    Secures t o inTry s₁ ids s' :=
  ⟨hgrow.trans h.evolves, h.guarded⟩

theorem append (ht : t.Closed) (hgrow : t.Evolves s.tree) (h : Secures t o inTry s ids s₁)
    (hrest : t.Evolves s₁.tree → Secures t o inTry s₁ ids' s') :
    Secures t o inTry s (ids ++ ids') s' := by
  have h' := hrest (hgrow.trans h.evolves)
  refine ⟨h.evolves.trans h'.evolves, fun id hid => ?_⟩
  obtain hid | hid := List.mem_append.mp hid
  · exact (h.guarded id hid).evolves ht (hgrow.trans h.evolves) h'.evolves
  · exact h'.guarded id hid

end Secures

/-! ### Values -/

/-- A value that may be returned without being awaited by a return that is made. -/
def IsSafeValue (t : Tree) (o : Oracle) (t' : Tree) (e : NodeId) : Prop :=
  (∃ inner, t'.data? e = some (.unary .await inner)) ∨ IsPlainValue t o e ∧ IsUnlinked t o e

theorem IsSafeValue.grows {t' t'' : Tree} {e : NodeId} (h : IsSafeValue t o t' e)
    (hgrow : t'.Grows t'') : IsSafeValue t o t'' e :=
  h.imp_left fun ⟨inner, hawait⟩ => ⟨inner, hgrow.data? hawait⟩

section

variable (o : Oracle) (inTry : Bool)

theorem secures_makeReturn {e : Option NodeId} (hgrow : t.Evolves s.tree)
    (he : inTry = true → ∀ v, e = some v → IsSafeValue t o s.tree v) :
    ∃ id s', (makeReturn e).run s = (id, s') ∧ Secures t o inTry s [id] s' := by
  obtain ⟨s', hrun, hmakes, hnode⟩ := run_make (.leave .returns e) {} s
  refine ⟨_, s', hrun, .single hmakes.grows.evolves
    (.made hgrow.size_le hnode.data? rfl fun hin v hv => ?_)⟩
  obtain rfl : e = some v := by simpa using hnode.data?.symm.trans hv
  exact ((he hin v rfl).grows hmakes.grows).imp_right fun h => ⟨h.1, fun _ => h.2⟩

theorem secures_makeStatement (e : Option NodeId) (hgrow : t.Evolves s.tree) :
    ∃ id s', (makeStatement e).run s = (id, s') ∧ Secures t o inTry s [id] s' := by
  obtain ⟨s', hrun, hmakes, hnode⟩ := run_make (.expressionStatement .statement e) {} s
  exact ⟨_, s', hrun, .single hmakes.grows.evolves
    (.of_data? hgrow.size_le hnode.data? rfl (by simp))⟩

theorem secures_makeVariable (name : String) (value : Option NodeId) (isLet : Bool)
    (hgrow : t.Evolves s.tree) :
    ∃ id s', (makeVariable name value isLet).run s = (id, s') ∧ Secures t o inTry s [id] s' := by
  obtain ⟨id, s', hrun, hmakes, ⟨declarator, hnode, -⟩, hsize⟩ :=
    run_makeVariable name value isLet s
  exact ⟨id, s', hrun, .single hmakes.grows.evolves
    (.of_data? (Nat.le_trans hgrow.size_le hsize) hnode.data? rfl (by simp))⟩

theorem secures_makeAssignment (ht : t.Closed) (name : String) (value : Option NodeId)
    (hgrow : t.Evolves s.tree) :
    ∃ id s', (makeAssignment name value).run s = (id, s') ∧ Secures t o inTry s [id] s' := by
  obtain ⟨e, id, s', hrun, hmakes, ⟨target, hd, -⟩, hsize⟩ := run_makeAssignment name value s
  refine ⟨id, s', hrun, .single hmakes.grows.evolves (.of_data? ?_ hd rfl (by simp))⟩
  -- A statement of the source does not hold an expression that was made.
  refine Nat.le_of_not_lt fun hid => ?_
  have hbefore := (hgrow.trans hmakes.grows.evolves).data?_before hid hd (by simp)
  have he : e < t.size := ht.child_lt hbefore (by simp [Data.children])
  exact Nat.lt_irrefl _ (Nat.lt_of_lt_of_le he (Nat.le_trans hgrow.size_le hsize))

theorem secures_writeBinding (ht : t.Closed) (key : Key) (value : Option NodeId)
    (hgrow : t.Evolves s.tree) :
    ∃ id s', (writeBinding key value).run s = (id, s') ∧ Secures t o inTry s [id] s' := by
  have hrun : (writeBinding key value).run s = _ := run_get_bind _ s
  rw [hrun]
  cases hentry : s.register.get? key with
  | none => exact secures_makeStatement o inTry value hgrow
  | some entry =>
      dsimp only
      split
      · obtain ⟨id, s₁, hmake, hsecures⟩ := secures_makeAssignment o inTry ht entry.name value hgrow
        exact ⟨id, _, run_bind hmake, hsecures.evolves, hsecures.guarded⟩
      · obtain ⟨id, s₁, hmake, hsecures⟩ :=
          secures_makeVariable o inTry entry.name value (entry.writesLeft > 1) hgrow
        exact ⟨id, _, run_bind hmake, hsecures.evolves, hsecures.guarded⟩

end

/-- A promise is awaited. -/
theorem run_makeAwaited_promise (e : Option NodeId) (s : State) :
    ∃ v s', (makeAwaited true e).run s = (some v, s') ∧ Makes s s' ∧
      s'.tree.data? v = some (.unary .await e) := by
  obtain ⟨s', hrun, hmakes, hnode⟩ := run_make (.unary .await e) {} s
  exact ⟨_, s', run_map some hrun, hmakes, hnode.data?⟩

theorem makes_makeAwaited (isPromise : Bool) (e : Option NodeId) (s : State) :
    ∃ e' s', (makeAwaited isPromise e).run s = (e', s') ∧ Makes s s' := by
  cases isPromise with
  | false => exact ⟨e, s, rfl, .refl s⟩
  | true =>
      obtain ⟨v, s', hrun, hmakes, -⟩ := run_makeAwaited_promise e s
      exact ⟨some v, s', hrun, hmakes⟩

/-- Writing a value secures it: where a `catch` can see failures, a value that is returned without
being awaited has to be safe. -/
theorem secures_write (ht : t.Closed) (c : Context) (sink : Sink) (isPromise : Bool)
    {e : Option NodeId} (hgrow : t.Evolves s.tree)
    (he : sink = .returned → c.inTry = true → isPromise = false → ∀ v, e = some v →
      IsSafeValue t c.oracle s.tree v) :
    ∃ ids s', (write c e sink isPromise).run s = (ids, s') ∧
      Secures t c.oracle c.inTry s ids s' := by
  cases sink with
  | returned =>
      cases hawaits : isPromise && c.inTry with
      | true =>
          obtain ⟨v, s₁, hawait, hmakes, hd⟩ := run_makeAwaited_promise e s
          obtain ⟨id, s', hmake, hsecures⟩ :=
            secures_makeReturn c.oracle c.inTry (e := some v) (hgrow.trans hmakes.grows.evolves)
              fun _ _ hv => .inl ⟨e, Option.some.inj hv ▸ hd⟩
          refine ⟨[id], s', ?_, hsecures.after hmakes.grows.evolves⟩
          rw [← hawaits] at hawait
          exact (run_bind hawait).trans (run_bind hmake)
      | false =>
          obtain ⟨id, s', hmake, hsecures⟩ :=
            secures_makeReturn c.oracle c.inTry (e := e) hgrow fun hin => by
              rw [hin, Bool.and_true] at hawaits
              exact he rfl hin hawaits
          refine ⟨[id], s', ?_, hsecures⟩
          have hawait : (makeAwaited (isPromise && c.inTry) e).run s = (e, s) := by
            rw [hawaits]
            rfl
          exact (run_bind hawait).trans (run_bind hmake)
  | binding key =>
      obtain ⟨e', s₁, hawait, hmakes⟩ := makes_makeAwaited isPromise e s
      obtain ⟨id, s', hwrite, hsecures⟩ := secures_writeBinding c.oracle c.inTry ht key e'
        (hgrow.trans hmakes.grows.evolves)
      exact ⟨[id], s', (run_bind hawait).trans (run_bind hwrite),
        hsecures.after hmakes.grows.evolves⟩
  | discarded =>
      have hrun : (write c e .discarded isPromise).run s = _ := run_get_bind _ s
      rw [hrun]
      split
      · exact ⟨[], s, rfl, .silent (.refl _)⟩
      · obtain ⟨e', s₁, hawait, hmakes⟩ := makes_makeAwaited isPromise e s
        obtain ⟨id, s', hmake, hsecures⟩ := secures_makeStatement c.oracle c.inTry e'
          (hgrow.trans hmakes.grows.evolves)
        exact ⟨[id], s', (run_bind hawait).trans (run_bind hmake),
          hsecures.after hmakes.grows.evolves⟩

theorem secures_of_run_write (ht : t.Closed) {e : Option NodeId} {isPromise : Bool}
    (hgrow : t.Evolves s.tree)
    (he : c.inTry = true → isPromise = false → ∀ v, e = some v →
      IsSafeValue t c.oracle s.tree v)
    (h : (write c e sink isPromise).run s = (ids, s')) :
    Secures t c.oracle c.inTry s ids s' := by
  obtain ⟨ids', s'', hrun, hsecures⟩ := secures_write ht c sink isPromise hgrow fun _ => he
  cases hrun.symm.trans h
  exact hsecures

theorem secures_of_run_writeUndefined (ht : t.Closed) (hgrow : t.Evolves s.tree)
    (h : (writeUndefined c sink).run s = (ids, s')) : Secures t c.oracle c.inTry s ids s' := by
  cases sink with
  | returned => cases h; exact .silent (.refl _)
  | discarded => cases h; exact .silent (.refl _)
  | binding key =>
      obtain ⟨s₁, hmake, hmakes, -⟩ := run_make (.identifier "undefined") {} s
      obtain ⟨ids', s'', hwrite, hsecures⟩ := secures_write ht c (.binding key) false
        (e := some s.tree.size) (hgrow.trans hmakes.grows.evolves) nofun
      cases h.symm.trans ((run_bind hmake).trans hwrite)
      exact hsecures.after hmakes.grows.evolves

theorem secures_of_run_hoist (o : Oracle) (inTry : Bool) (hgrow : t.Evolves s.tree)
    (h : (hoist sink).run s = (ids, s')) : Secures t o inTry s ids s' := by
  cases sink with
  | returned => cases h; exact .silent (.refl _)
  | discarded => cases h; exact .silent (.refl _)
  | binding key =>
      have hget : (hoist (.binding key)).run s = _ := run_get_bind _ s
      rw [hget] at h
      dsimp only at h
      split at h
      · cases h
        exact .silent (.refl _)
      · next name _ =>
        split at h
        · cases h
          exact .silent (.refl _)
        · let declared : State := { s with register := s.register.declare key }
          obtain ⟨id, s'', hmake, hsecures⟩ :=
            secures_makeVariable o inTry name none true (s := declared) hgrow
          cases h.symm.trans ((run_modify_bind _ _ s).trans (run_bind hmake))
          exact ⟨hsecures.evolves, hsecures.guarded⟩

/-! ### Statements that are kept -/

theorem isPlainValue_of_givesPromise (ht : t.Closed) (hgrow : t.Evolves s.tree) {e : NodeId}
    (he : e < t.size) (h : givesPromise c s.tree (some e) = false) :
    IsPlainValue t c.oracle e := by
  have hskip := Tree.holds_skipParentheses ht (holds_some.mpr he)
  rw [givesPromise, hgrow.skipParentheses ht (holds_some.mpr he),
    Chain.isPromise_evolves hgrow c.oracle hskip] at h
  exact ⟨he, h⟩

theorem data?_setReturned {t : Tree} {id : NodeId} {x : Option NodeId}
    (h : t.data? id = some (.leave .returns x)) (e other : NodeId) :
    (setReturned t id e).data? other =
      if id = other then some (.leave .returns (some e)) else t.data? other := by
  rw [setReturned, h]
  dsimp only
  rw [Tree.data?_setData]
  split
  · next hother => rw [← hother, h, Option.map_some]
  · rfl

/-- A return that was looked at awaits its value unless it gives no promise. -/
theorem returnsSafely_awaitReturn (ht : t.Closed) (c : Context) {id : NodeId} (hid : id < t.size)
    (hgrow : t.Evolves s.tree) :
    ReturnsSafely t c.oracle ((awaitReturn c id).run s).2.tree id := by
  have hrun : (awaitReturn c id).run s = _ := run_get_bind _ s
  rw [hrun]
  dsimp only
  split
  · next e he =>
    split
    · obtain ⟨s₁, hmake, hmakes, hnode⟩ := run_make (.unary .await (some e)) {} s
      have hmake : (makeAwait (some e)).run s = (s.tree.size, s₁) := hmake
      rw [run_bind hmake]
      have hset := data?_setReturned (hmakes.grows.data? he) s.tree.size
      intro e' he'
      obtain rfl : s.tree.size = e' := by simpa using ((hset id).symm.trans he')
      have hne : id ≠ s.tree.size := Nat.ne_of_lt (Nat.lt_of_lt_of_le hid hgrow.size_le)
      exact .inl ⟨some e, (hset _).trans ((if_neg hne).trans hnode.data?)⟩
    · next hpromise =>
      intro e' he'
      obtain rfl : e = e' := by simpa using he.symm.trans he'
      refine (returned_value hgrow hid he).symm.imp_right fun hbefore => ?_
      have hlt : e < t.size := ht.child_lt hbefore (by simp [Data.children])
      exact ⟨isPlainValue_of_givesPromise ht hgrow hlt (Bool.eq_false_iff.mpr hpromise),
        fun hmade => absurd hmade (Nat.not_le_of_lt hid)⟩
  · next hno => exact fun e he => absurd he (hno e)

theorem returnsSafely_awaitReturns (ht : t.Closed) (c : Context) (returns : List NodeId) {u : Unit}
    (hgrow : t.Evolves s.tree) {id : NodeId} (hid : id < t.size) (hmem : id ∈ returns)
    (h : (returns.forM fun id => (awaitReturn c id : Attempt Unit)).run.run s = (some u, s')) :
    ReturnsSafely t c.oracle s'.tree id := by
  induction returns generalizing s with
  | nil => cases hmem
  | cons first returns ih =>
      obtain ⟨u, s₁, hawait, hothers⟩ := of_attempt_bind h
      have hgrow₁ := hgrow.trans (evolves_awaitReturn c first s)
      rw [of_attempt_lift hawait] at hgrow₁
      obtain rfl | hmem := List.mem_cons.mp hmem
      · have hfirst : ReturnsSafely t c.oracle s₁.tree id := by
          have hsafe := returnsSafely_awaitReturn ht c hid hgrow
          rwa [of_attempt_lift hawait] at hsafe
        have hlater := evolves_of_run_awaitReturns c returns hothers
        exact hfirst.evolves hlater (Nat.lt_of_lt_of_le hid hgrow₁.size_le)
      · exact ih hgrow₁ hmem hothers

/-- A statement of the source that is kept. Its returns are looked at if a `catch` can see what they
return. -/
theorem secures_of_run_keepStatement (ht : t.Closed) {statement id : NodeId}
    (hstatement : statement < t.size) (hgrow : t.Evolves s.tree)
    (h : (keepStatement c statement sink).run.run s = (some id, s')) :
    Secures t c.oracle c.inTry s [id] s' := by
  obtain ⟨rfl, ⟨rfl, hno⟩ | ⟨u, hreturns⟩⟩ := of_run_keepStatement h
  · refine .single (.refl _) (.source hstatement fun hin x hx e he => ?_)
    have hreturn := containsReturn_of_encloses (hx.evolves hgrow) he
    cases (hno hreturn).symm.trans hin
  · have hgrow₁ := evolves_of_run_awaitReturns c _ hreturns
    refine .single hgrow₁ (.source hstatement fun _ x hx e he => ?_)
    have hlt := hx.lt_size ht hstatement
    -- What is a return now was one when the returns were looked for.
    obtain ⟨before, hbefore⟩ : ∃ e, s.tree.data? x = some (.leave .returns (some e)) := by
      rcases hgrow₁.data?_cases (Nat.lt_of_lt_of_le hlt hgrow.size_le) with hsame | hreturn
      · exact ⟨e, hsame.symm.trans he⟩
      · obtain ⟨e', -, hbefore, -⟩ := hreturn
        exact ⟨e', hbefore⟩
    exact returnsSafely_awaitReturns ht c _ hgrow hlt
      (mem_returnsBelow (hx.evolves hgrow) hbefore) hreturns e he

/-! ### Whole chains -/

/-- A `try` after what was hoisted, around statements that are guarded. -/
theorem Secures.guards (ht : t.Closed) {s₂ s₃ : State} {hoisted tried handled : List NodeId}
    {id : NodeId} {reason : Key} (hgrow : t.Evolves s.tree)
    (hhoist : (hoist sink).run s = (hoisted, s₁))
    (htried : t.Evolves s₁.tree → Secures t o true s₁ tried s₂)
    (hhandled : t.Evolves s₂.tree → Secures t o inTry s₂ handled s₃)
    (h : (makeTry tried handled reason).run s₃ = (id, s')) :
    Secures t o inTry s (hoisted ++ [id]) s' := by
  obtain ⟨id', s₄, hrun, hadds, -, htry, hsize⟩ := run_makeTry tried handled reason s₃
  cases hrun.symm.trans h
  refine (secures_of_run_hoist o inTry hgrow hhoist).append ht hgrow fun hgrow₁ => ?_
  have htried := htried hgrow₁
  have hgrow₂ := hgrow₁.trans htried.evolves
  have hhandled := hhandled hgrow₂
  have hgrow₃ := hgrow₂.trans hhandled.evolves
  have hgrow₄ := hadds.grows.evolves
  refine .single (htried.evolves.trans (hhandled.evolves.trans hgrow₄))
    (.guards (Nat.le_trans hgrow₃.size_le hsize) htry (fun x hx => ?_) fun x hx => ?_)
  · exact (htried.guarded x hx).evolves ht hgrow₂ (hhandled.evolves.trans hgrow₄)
  · exact (hhandled.guarded x hx).evolves ht hgrow₃ hgrow₄

/-- An expression that is no link and gives no promise is written as it is. -/
theorem isSafeValue_other (ht : t.Closed) {e : Option NodeId} {id : NodeId} (he : t.Holds e)
    (hid : t.skipParentheses e = some id) (hlink : Chain.linkOf t o (some id) = .other)
    (t' : Tree) : IsSafeValue t o t' id := by
  have hlt := Tree.holds_skipParentheses ht he
  rw [hid] at hlt
  have hself := Tree.skipParentheses_of_ne (Tree.skipParentheses_eq_some ht hid)
  refine .inr ⟨⟨holds_some.mp hlt, ?_⟩, ?_, .inl (by rw [hself, hlink])⟩
  · rw [hself]
    exact Chain.isPromise_of_other hlink
  · rw [Chain.isChain, hself, hlink]
    rfl

/-- What is given is guarded. -/
theorem Gives.secures {task : Task} (ht : t.Closed) (h : Gives t c task s ids s')
    (hgrow : t.Evolves s.tree) : Secures t c.oracle c.inTry s ids s' := by
  induction h with
  | written he hpasses _ hother hrun =>
      refine (secures_of_run_write ht (hgrow.trans hpasses.evolves)
        (fun _ hpromise v hv => ?_) hrun).after hpasses.evolves
      have hlink := hother hpromise
      rw [hv] at hlink
      exact isSafeValue_other ht he hv hlink _
  | member _ _ ih => exact ih hgrow
  | pass _ _ ih => exact ih hgrow
  | rescue _ hhoist _ _ hmake ihtried ihhandled =>
      exact .guards ht hgrow hhoist ihtried ihhandled hmake
  | proceed _ _ _ ihbefore ihafter => exact (ihbefore hgrow).append ht hgrow ihafter
  | either _ hhoist _ _ _ hmake ihbefore ihafter ihhandled =>
      exact .guards ht hgrow hhoist
        (fun hgrow₁ => (ihbefore hgrow₁).append ht hgrow₁ ihafter) ihhandled hmake
  | call hmakes _ hrun =>
      have hgrow₁ := hmakes.grows.evolves
      exact (secures_of_run_write ht (hgrow.trans hgrow₁) (by simp) hrun).after hgrow₁
  | block _ _ _ ih => exact ih hgrow
  | concise _ _ _ ih => exact ih hgrow
  | bodiless _ hrun =>
      exact secures_of_run_write ht hgrow (by simp) hrun
  | done hrun => exact secures_of_run_writeUndefined ht hgrow hrun
  | returns _ _ _ ih => exact ih hgrow
  | @leaves c _ _ _ _ _ _ hrun =>
      obtain ⟨id, s', hreturn, hsecures⟩ :=
        secures_makeReturn c.oracle c.inTry (e := none) hgrow (by simp)
      cases hreturn.symm.trans hrun
      exact hsecures
  | ends _ _ hrun => exact secures_of_run_writeUndefined ht hgrow hrun
  | chain _ _ _ _ ihfirst ihrest => exact (ihfirst hgrow).append ht hgrow ihrest
  | keep hstatement _ hkeep _ ihrest =>
      exact (secures_of_run_keepStatement ht hstatement hgrow hkeep).append ht hgrow ihrest
  | nested _ _ _ ih =>
      have hnested := ih hgrow
      exact ⟨hnested.evolves, hnested.guarded⟩
  | plain he hchain hrun =>
      refine secures_of_run_write ht hgrow (fun _ hpromise v hv => ?_) hrun
      cases hv
      refine he.symm.imp_right fun ⟨hlt, hvalue⟩ => ?_
      exact ⟨isPlainValue_of_givesPromise ht hgrow hlt hpromise, hchain hlt, .inr hvalue⟩

theorem secures_unrollChain (ht : t.Closed) (c : Context) {e : NodeId} (sink : Sink)
    (hgrow : t.Evolves s.tree) (he : e < t.size) :
    Secures t c.oracle c.inTry s ((unrollChain c e sink).run s).1.statements
      ((unrollChain c e sink).run s).2 :=
  (gives_unrollChain ht c sink hgrow he).secures ht hgrow

/-! ### Returns that have to await -/

/-- A `catch` can see what the statement `x` fails with: the statement `id` that it stands in does
so as a whole, or it stands in the block of a `try` that was made. The source has `base` nodes. -/
def IsSeen (t' : Tree) (base : Nat) (inTry : Bool) (id x : NodeId) : Prop :=
  inTry = true ∧ t'.Encloses id x ∨
    ∃ statement block clause last, base ≤ statement ∧ t'.Encloses id statement ∧
      t'.data? statement = some (.tryStatement (some block) clause last) ∧ t'.Encloses block x

/-- What the return `x` of the value `v` has to await if a `catch` is to see that it fails. -/
inductive MustAwait (t : Tree) (o : Oracle) (x v : NodeId) : Prop where
  /-- An expression of the source that gives a promise. -/
  | promise (hv : v < t.size) (h : Chain.isPromise t o (t.skipParentheses (some v)) = true)
  /-- A value that was made: a call of a function that is passed by its name. -/
  | call (hv : t.size ≤ v)
  /-- A `then` or `catch` that is kept as written. -/
  | chain (hx : t.size ≤ x) (h : Chain.isChain t o (some v) = true)
  /-- Any other link or leaf that is kept as written. What a function in place gives is none. -/
  | link (hx : t.size ≤ x) (h : Chain.linkOf t o (t.skipParentheses (some v)) ≠ .other)
    (hv : ¬ IsHandlerValue t v)

theorem ReturnsSafely.awaits {t' : Tree} {x v : NodeId} (h : ReturnsSafely t o t' x)
    (hx : t'.data? x = some (.leave .returns (some v))) (hv : MustAwait t o x v) :
    ∃ inner, t'.data? v = some (.unary .await inner) := by
  refine (h v hx).resolve_right fun ⟨⟨hlt, hplain⟩, hunlinked⟩ => ?_
  cases hv with
  | promise _ hpromise => cases hplain.symm.trans hpromise
  | call hmade => exact absurd hlt (Nat.not_lt_of_le hmade)
  | chain hmade hchain => cases (hunlinked hmade).1.symm.trans hchain
  | link hmade hlink hvalue => exact (hunlinked hmade).2.elim hlink hvalue

/-- Among the statements that a chain becomes, a return whose failure a `catch` can see awaits its
value if that may be a promise. -/
theorem awaits_of_unrollChain (ht : t.Closed) (c : Context) {e : NodeId} (sink : Sink)
    (hgrow : t.Evolves s.tree) (he : e < t.size) :
    ∀ id ∈ ((unrollChain c e sink).run s).1.statements, ∀ x v,
      IsSeen ((unrollChain c e sink).run s).2.tree t.size c.inTry id x →
      ((unrollChain c e sink).run s).2.tree.data? x = some (.leave .returns (some v)) →
      MustAwait t c.oracle x v →
      ∃ inner, ((unrollChain c e sink).run s).2.tree.data? v = some (.unary .await inner) := by
  intro id hid x v hseen hx hv
  have hsecures := secures_unrollChain ht c sink hgrow he
  have hguarded := hsecures.guarded id hid
  have hgrow' := hgrow.trans hsecures.evolves
  suffices h : ReturnsSafely t c.oracle ((unrollChain c e sink).run s).2.tree x from
    h.awaits hx hv
  obtain ⟨hin, hencloses⟩ | ⟨statement, block, clause, last, hmade, hstatement, hd, hblock⟩ := hseen
  · exact hguarded.returnsSafely ht hgrow' hin hencloses
  · exact hguarded.returnsSafely_of_try ht hgrow' hstatement hmade hd hblock

namespace Sample

/-- `p.then(() => { { return q; } }).catch(h)` -/
def nestedTree : Tree where
  nodes := #[⟨.identifier "p", {}, 0, 1, none, none⟩, ⟨.identifier "then", {}, 2, 6, none, none⟩,
    ⟨.access .property (some 0) (some 1) false, {}, 0, 6, none, none⟩,
    ⟨.identifier "q", {}, 24, 25, none, none⟩, ⟨.leave .returns (some 3), {}, 17, 26, none, none⟩,
    ⟨.block .block { nodes := [4] } false, {}, 15, 28, none, none⟩,
    ⟨.block .block { nodes := [5] } false, {}, 13, 30, none, none⟩,
    ⟨.function .arrow { body := some 6 }, {}, 7, 30, none, none⟩,
    ⟨.call .call (some 2) none (some { nodes := [7] }), {}, 0, 31, none, none⟩,
    ⟨.identifier "catch", {}, 32, 37, none, none⟩,
    ⟨.access .property (some 8) (some 9) false, {}, 0, 37, none, none⟩,
    ⟨.identifier "h", {}, 38, 39, none, none⟩,
    ⟨.call .call (some 10) none (some { nodes := [11] }), {}, 0, 40, none, none⟩]

def nestedContext : Context where
  oracle := ⟨[0, 3, 8, 12].contains, fun _ => none, fun _ => none⟩
  bindings := {}

def nestedState : State where
  tree := nestedTree
  register := ⟨[(.minted 11, { name := "e" })], ["e"]⟩
  successors := ({} : Chain.Successors).mark nestedTree nestedContext.oracle (some 12) false

/-- The tree after the chain has become
`try { await p; { return await q; } } catch (e) { return h(e); }`. -/
def nestedResult : Tree := ((unrollChain nestedContext 12 .returned).run nestedState).2.tree

end Sample

/-- The return in the block of the handler awaits, since it has come to stand in a `try`. -/
theorem awaits_of_unrollChain_sample :
    ((unrollChain Sample.nestedContext 12 .returned).run Sample.nestedState).1.statements = [24] ∧
    Sample.nestedResult.data? 4 = some (.leave .returns (some 15)) ∧
    ∃ inner, Sample.nestedResult.data? 15 = some (.unary .await inner) := by
  have hids : ((unrollChain Sample.nestedContext 12 .returned).run
      Sample.nestedState).1.statements = [24] := by decide +kernel
  have hreturn : Sample.nestedResult.data? 4 = some (.leave .returns (some 15)) := by
    decide +kernel
  have hclosed : Sample.nestedTree.Closed := by decide +kernel
  have htried : Sample.nestedResult.data? 19 = some (.block .block { nodes := [14, 5] } true) := by
    decide +kernel
  have hblock : Sample.nestedResult.data? 5 = some (.block .block { nodes := [4] } false) := by
    decide +kernel
  have hencloses : Sample.nestedResult.Encloses 5 4 := .step hblock rfl (by decide) .refl
  have hseen : IsSeen Sample.nestedResult Sample.nestedTree.size false 24 4 :=
    .inr ⟨24, 19, some 23, none, by decide +kernel, .refl, by decide +kernel,
      .step htried rfl (by decide) hencloses⟩
  exact ⟨hids, hreturn, awaits_of_unrollChain hclosed Sample.nestedContext .returned
    (s := Sample.nestedState) (.refl _) (by decide +kernel) 24 (by rw [hids]; decide) 4 15 hseen
    hreturn (.call (by decide +kernel))⟩

end Unchain.Unroll

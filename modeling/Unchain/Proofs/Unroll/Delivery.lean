import Unchain.Proofs.Execution.Run
import Unchain.Proofs.Unroll.Steps

/-!
# Delivering outcomes

What the statements that a conversion writes do when they run. `Delivers` says
that a run has brought an outcome to a sink: out of the function, into a
binding, or nowhere. `run_write` is the case of a value that is written right
away, `tryParts?_of_isTry` that of a `try` around statements that deliver.
-/

namespace Unchain

open Naming (Key Register)
open Promise (History Outcome World)
open Syntax (Data NodeId Tree)
open Unroll (HasNode IsAssignment IsAwaited IsVariable)

variable {V : Type}

/-! ### Statements one by one -/

namespace Execution.Machine

variable {m : Machine V}

/-- An expression that has no `await` of its own. -/
def IsAtom (m : Machine V) (e : NodeId) : Prop :=
  m.senses.lookup e = none → ∃ callee types arguments,
    m.tree.data? e = some (.call .call callee types arguments)

/-- What an expression comes to, after awaiting it if it is a promise. -/
def awaited (m : Machine V) (isPromise : Bool) (result : Outcome V × History V) :
    Outcome V × History V :=
  if isPromise then (m.world.await result.1, result.2) else result

theorem value?_of_isAtom (env : Env V) (past : History V) {e : NodeId} (he : m.IsAtom e) :
    m.value? env past e = m.atom? env past e := by
  unfold value?
  cases hs : m.senses.lookup e with
  | some sense => rfl
  | none =>
      obtain ⟨callee, types, arguments, hd⟩ := he hs
      rw [hd]

theorem value?_of_isAwaited {isPromise : Bool} {e id : NodeId} (env : Env V) (past : History V)
    (h : IsAwaited m.tree isPromise e id) (he : m.IsAtom e)
    (hid : isPromise = true → m.senses.lookup id = none) :
    m.value? env past id = (m.atom? env past e).map (m.awaited isPromise) := by
  cases isPromise with
  | true =>
      have hd : m.tree.data? id = some (.unary .await (some e)) := h
      unfold value?
      rw [hid rfl, hd]
      rfl
  | false =>
      obtain rfl : id = e := h
      rw [value?_of_isAtom env past he]
      cases m.atom? env past id <;> rfl

theorem assignment?_of_isAtom {e : NodeId} (he : m.IsAtom e) : m.assignment? e = none := by
  unfold assignment?
  cases hs : m.senses.lookup e with
  | some sense => rfl
  | none =>
      obtain ⟨callee, types, arguments, hd⟩ := he hs
      rw [hd]

theorem assignment?_of_isAwaited {isPromise : Bool} {e id : NodeId}
    (h : IsAwaited m.tree isPromise e id) (he : m.IsAtom e) : m.assignment? id = none := by
  cases isPromise with
  | true =>
      have hd : m.tree.data? id = some (.unary .await (some e)) := h
      unfold assignment?
      rw [hd]
      cases m.senses.lookup id <;> rfl
  | false =>
      obtain rfl : id = e := h
      exact assignment?_of_isAtom he

theorem step?_variable {k : Moment V} {name : String} {e id : NodeId} {isLet : Bool}
    (h : IsVariable m.tree name (some e) isLet id) (hnew : k.env name = none) :
    m.step? k id = (m.value? k.env k.past e).map (k.bind name (!isLet)) := by
  obtain ⟨declarator, ⟨node, hnode, hdata, hflags⟩, target, hdecl, htarget⟩ := h
  have htext : m.tree.identifierText? (some target) = some name := by
    rw [Tree.identifierText?, Tree.partData?, Option.bind_some, htarget]
  simp [step?, hnode, hdata, declare?, hdecl, htext, hnew, hflags]

/-- `let x;` -/
theorem step?_let {k : Moment V} {name : String} {id : NodeId}
    (h : IsVariable m.tree name none true id) (hnew : k.env name = none) :
    m.step? k id = some (k.bind name false (.ok m.world.undefined, k.past)) := by
  obtain ⟨declarator, ⟨node, hnode, hdata, hflags⟩, target, hdecl, htarget⟩ := h
  have htext : m.tree.identifierText? (some target) = some name := by
    rw [Tree.identifierText?, Tree.partData?, Option.bind_some, htarget]
  simp [step?, hnode, hdata, declare?, hdecl, htext, hnew, hflags]

theorem node?_of_data? {t : Tree} {id : NodeId} {d : Data} (h : t.data? id = some d) :
    ∃ n, t.node? id = some n ∧ n.data = d :=
  Option.map_eq_some_iff.mp h

theorem step?_assignment {k : Moment V} {name : String} {value e id : NodeId} {v : V}
    (h : IsAssignment m.tree name (some value) e id) (he : m.senses.lookup e = none)
    (hcell : k.env name = some ⟨v, false⟩) :
    m.step? k id = (m.value? k.env k.past value).map (k.bind name false) := by
  obtain ⟨target, hd, hbin, htarget⟩ := h
  obtain ⟨node, hnode, hdata⟩ := node?_of_data? hd
  have htext : m.tree.identifierText? (some target) = some name := by
    rw [Tree.identifierText?, Tree.partData?, Option.bind_some, htarget]
  simp [step?, hnode, hdata, assignment?, he, hbin, assign?, htext, hcell]

theorem step?_statement {k : Moment V} {e id : NodeId}
    (h : m.tree.data? id = some (.expressionStatement .statement (some e)))
    (he : m.assignment? e = none) :
    m.step? k id = (m.value? k.env k.past e).map k.drop := by
  obtain ⟨node, hnode, hdata⟩ := node?_of_data? h
  simp [step?, hnode, hdata, he]

theorem step?_return {k : Moment V} {e id : NodeId}
    (h : m.tree.data? id = some (.leave .returns (some e))) :
    m.step? k id = (m.value? k.env k.past e).map k.exit := by
  obtain ⟨node, hnode, hdata⟩ := node?_of_data? h
  simp [step?, hnode, hdata]

end Execution.Machine

/-! ### Sinks -/

namespace Unroll

open Execution (Cell Completion Env Machine Moment Runs)

/-- The bindings that a sink writes. -/
def Sink.keys : Sink → List Key
  | .binding key => [key]
  | _ => []

/-- What a conversion may do to its state for a sink: add nodes, and declare the bindings of the
sink and those of `keys`. The bindings of the sink are declared in the end. -/
structure Effect (sink : Sink) (keys : List Key) (s s' : State) : Prop extends Adds s s' where
  name? : ∀ key, s'.register.name? key = s.register.name? key
  kept : ∀ key, key ∉ sink.keys → key ∉ keys →
    s'.register.isDeclared key = s.register.isDeclared key
  declared : ∀ key ∈ sink.keys, s'.register.isDeclared key = true

/-- `outcome` has come to the sink. -/
def Arrives (w : World V) (inTry : Bool) (name : Key → String) (k : Moment V) :
    Sink → Outcome V → Prop
  | .returned, outcome =>
    (∃ v, k.completion = .returned v ∧ w.resolve v = outcome ∧
      (inTry = true → ∃ u, outcome = .ok u)) ∨
    ∃ x, outcome = .error x ∧ k.completion = .thrown x
  | .binding key, .ok v =>
    k.completion = .normal ∧ ∃ isConst, k.env (name key) = some ⟨v, isConst⟩
  | .discarded, .ok _ => k.completion = .normal
  | _, .error x => k.completion = .thrown x

theorem arrives_error (w : World V) (inTry : Bool) (name : Key → String) {k : Moment V} {x : V}
    (h : k.completion = .thrown x) (sink : Sink) : Arrives w inTry name k sink (.error x) := by
  cases sink with
  | returned => exact .inr ⟨x, rfl, h⟩
  | binding key => exact h
  | discarded => exact h

/-- A reason is thrown, unless it leaves the function in a promise. -/
theorem Arrives.thrown {w : World V} {inTry : Bool} {name : Key → String} {k : Moment V}
    {sink : Sink} {x : V} (h : Arrives w inTry name k sink (.error x))
    (hsink : sink = .returned → inTry = true) : k.completion = .thrown x := by
  cases sink with
  | returned =>
      rcases h with ⟨v, -, -, htry⟩ | ⟨y, hy, hk⟩
      · obtain ⟨u, hu⟩ := htry (hsink rfl)
        cases hu
      · cases hy
        exact hk
  | binding key => exact h
  | discarded => exact h

/-- A run that began with the names `env` and ends at `k` has brought what a chain settled to to
the sink. Other names than those of the sink and of `keys` are as they were. -/
structure Delivers (w : World V) (inTry : Bool) (name : Key → String) (sink : Sink)
    (keys : List Key) (env : Env V) (settled : Outcome V × History V) (k : Moment V) : Prop where
  past : k.past = settled.2
  arrives : Arrives w inTry name k sink settled.1
  frame : ∀ text, (∀ key ∈ sink.keys, text ≠ name key) → (∀ key ∈ keys, text ≠ name key) →
    k.env text = env text
  kept : ∀ x, settled.1 = .error x → ∀ key ∈ sink.keys, (env (name key)).isSome →
    k.env (name key) = env (name key)

/-- The names at hand agree with what is known about the binding of a sink. -/
structure Suits (register : Register) (name : Key → String) (sink : Sink) (env : Env V) :
    Prop where
  declared : ∀ key ∈ sink.keys, register.isDeclared key = true →
    ∃ v, env (name key) = some ⟨v, false⟩
  undeclared : ∀ key ∈ sink.keys, register.isDeclared key = false → env (name key) = none

/-- What happens to other bindings does not matter to a sink. -/
theorem Suits.of_same {register register' : Register} {name : Key → String} {sink : Sink}
    {env env' : Env V} (h : Suits register name sink env)
    (hdeclared : ∀ key ∈ sink.keys, register'.isDeclared key = register.isDeclared key)
    (henv : ∀ key ∈ sink.keys, env' (name key) = env (name key)) :
    Suits register' name sink env' where
  declared key hkey hd := by
    rw [henv key hkey]
    exact h.declared key hkey (by rwa [hdeclared key hkey] at hd)
  undeclared key hkey hd := by
    rw [henv key hkey]
    exact h.undeclared key hkey (by rwa [hdeclared key hkey] at hd)

theorem Makes.effect {s s' : State} (h : Makes s s') {sink : Sink} (hs : sink.keys = [])
    (keys : List Key) : Effect sink keys s s' where
  toAdds := h.toAdds
  name? _ := by rw [h.register]
  kept _ _ _ := by rw [h.register]
  declared key hkey := by simp [hs] at hkey

theorem Makes.effect_trans {s s₁ s₂ : State} (h : Makes s s₁) {sink : Sink} {keys : List Key}
    (h' : Effect sink keys s₁ s₂) : Effect sink keys s s₂ where
  toAdds := h.toAdds.trans h'.toAdds
  name? key := by rw [h'.name?, h.register]
  kept key hs hk := by rw [h'.kept key hs hk, h.register]
  declared := h'.declared

theorem Effect.mono {sink : Sink} {keys keys' : List Key} {s s' : State}
    (h : Effect sink keys s s') (hkeys : keys ⊆ keys') : Effect sink keys' s s' where
  toAdds := h.toAdds
  name? := h.name?
  kept key hs hk := h.kept key hs fun hmem => hk (hkeys hmem)
  declared := h.declared

/-- Two steps one after the other. -/
theorem Effect.trans {inner sink : Sink} {keys keys' keys'' : List Key} {s s₁ s₂ : State}
    (h : Effect inner keys s s₁) (h' : Effect sink keys' s₁ s₂)
    (hkeys : inner.keys ++ keys ⊆ sink.keys ++ keys'') (hkeys' : keys' ⊆ keys'') :
    Effect sink keys'' s s₂ where
  toAdds := h.toAdds.trans h'.toAdds
  name? key := by rw [h'.name?, h.name?]
  kept key hs hk := by
    have hout : key ∉ inner.keys ++ keys := fun hmem =>
      (List.mem_append.mp (hkeys hmem)).elim hs hk
    rw [h'.kept key hs fun hmem => hk (hkeys' hmem),
      h.kept key (fun hi => hout (List.mem_append_left _ hi))
        fun hi => hout (List.mem_append_right _ hi)]
  declared := h'.declared

/-- A step after which another binding is declared. -/
theorem Effect.declare {sink : Sink} {keys : List Key} {s s₁ s₂ : State} {key : Key}
    (h : Effect sink keys s s₁) (hadds : Adds s₁ s₂)
    (hregister : s₂.register = s₁.register.declare key) (hkey : key ∈ keys)
    (hsink : key ∉ sink.keys) : Effect sink keys s s₂ where
  toAdds := h.toAdds.trans hadds
  name? other := by rw [hregister, Register.name?_declare, h.name?]
  kept other hs hk := by
    have hne : other ≠ key := fun heq => hk (heq ▸ hkey)
    rw [hregister, Register.isDeclared_declare_of_ne _ hne, h.kept other hs hk]
  declared other hother := by
    have hne : other ≠ key := fun heq => hsink (heq ▸ hother)
    rw [hregister, Register.isDeclared_declare_of_ne _ hne, h.declared other hother]

theorem Delivers.mono {w : World V} {inTry : Bool} {name : Key → String} {sink : Sink}
    {keys keys' : List Key} {env : Env V} {settled : Outcome V × History V} {k : Moment V}
    (h : Delivers w inTry name sink keys env settled k) (hkeys : keys ⊆ keys') :
    Delivers w inTry name sink keys' env settled k where
  past := h.past
  arrives := h.arrives
  frame text hs hk := h.frame text hs fun key hkey => hk key (hkeys hkey)
  kept := h.kept

/-- What is required of an expression that is written without awaiting it, and of one that is left
out. -/
structure Writable (w : World V) (t : Tree) (sink : Sink) (isPromise : Bool) (e : NodeId)
    (past : History V) (result : Outcome V × History V) : Prop where
  settled : isPromise = false → w.IsSettled result.1
  dropped : isPromise = false → t.isSideEffectFree (some e) = true → sink = .discarded →
    result.2 = past ∧ ∃ v, result.1 = .ok v

theorem runs_single {m : Machine V} {k k' : Moment V} {id : NodeId}
    (h : k.completion = .normal) (hstep : m.step? k id = some k') : Runs m k [id] k' :=
  .simple h hstep (.nil k')

/-! ### Returns -/

theorem past_exit (k : Moment V) (r : Outcome V × History V) : (k.exit r).past = r.2 := by
  obtain ⟨r | r, past⟩ := r <;> rfl

theorem env_exit (k : Moment V) (r : Outcome V × History V) : (k.exit r).env = k.env := by
  obtain ⟨r | r, past⟩ := r <;> rfl

/-- A return ends with what awaiting its value gives. Inside of a `try` it must have been awaited
before. -/
theorem arrives_exit (w : World V) {inTry : Bool} (name : Key → String) (k : Moment V)
    {r : Outcome V × History V} (hr : inTry = true → w.IsSettled r.1) :
    Arrives w inTry name (k.exit r) .returned (w.await r.1) := by
  obtain ⟨r, past⟩ := r
  cases r with
  | error x => exact .inr ⟨x, rfl, rfl⟩
  | ok v =>
      refine .inl ⟨v, rfl, rfl, fun htry => ⟨v, ?_⟩⟩
      exact w.await_of_isSettled (hr htry)

theorem snd_awaited (m : Machine V) (isPromise : Bool) (r : Outcome V × History V) :
    (m.awaited isPromise r).2 = r.2 := by
  cases isPromise <;> rfl

theorem await_fst_awaited (m : Machine V) (isPromise : Bool) (r : Outcome V × History V) :
    m.world.await (m.awaited isPromise r).1 = m.world.await r.1 := by
  cases isPromise with
  | false => rfl
  | true => exact m.world.await_of_isSettled (m.world.isSettled_await r.1)

/-- What is awaited where it is a promise has settled. -/
theorem fst_awaited (m : Machine V) {isPromise : Bool} {r : Outcome V × History V}
    (h : isPromise = false → m.world.IsSettled r.1) :
    (m.awaited isPromise r).1 = m.world.await r.1 := by
  cases isPromise with
  | false => exact (m.world.await_of_isSettled (h rfl)).symm
  | true => rfl

theorem run_write_returned (c : Context) (e : NodeId) (isPromise : Bool) (s : State) :
    ∃ ids s', (write c (some e) .returned isPromise).run s = (ids, s') ∧ Makes s s' ∧
      ∀ (m : Machine V) (name : Key → String) (env : Env V) (past : History V)
        (result : Outcome V × History V),
        (∀ id : NodeId, s.tree.size ≤ id → m.senses.lookup id = none) →
        s'.tree.Grows m.tree → m.IsAtom e →
        m.atom? env past e = some result →
        Writable m.world s.tree .returned isPromise e past result →
        ∃ k, Runs m ⟨env, past, .normal⟩ ids k ∧
          Delivers m.world c.inTry name .returned [] env (m.world.await result.1, result.2) k := by
  obtain ⟨id, s₁, hawait, hmakes₁, hnode₁, hid⟩ := run_makeAwaited (isPromise && c.inTry) e s
  obtain ⟨s₂, hreturn, hmakes₂, hnode₂⟩ := run_make (.leave .returns (some id)) {} s₁
  refine ⟨[s₁.tree.size], s₂, ?_, hmakes₁.trans hmakes₂, ?_⟩
  · exact (run_bind hawait).trans (run_bind hreturn)
  intro m name env past result hsenses hgrow hatom hvalue hwrite
  have hvalue' : m.value? env past id = some (m.awaited (isPromise && c.inTry) result) := by
    rw [Machine.value?_of_isAwaited env past (hnode₁.grows (hmakes₂.grows.trans hgrow)) hatom
      fun h => hsenses id (hid h), hvalue]
    rfl
  have hstep : m.step? ⟨env, past, .normal⟩ s₁.tree.size =
      some ((⟨env, past, .normal⟩ : Moment V).exit (m.awaited (isPromise && c.inTry) result)) := by
    rw [Machine.step?_return (hgrow.data? hnode₂.data?), hvalue']
    rfl
  have hsettled : c.inTry = true →
      m.world.IsSettled (m.awaited (isPromise && c.inTry) result).1 := by
    intro htry
    rw [htry, Bool.and_true, fst_awaited m hwrite.settled]
    exact m.world.isSettled_await _
  refine ⟨_, runs_single rfl hstep, ?_, ?_, ?_, nofun⟩
  · rw [past_exit, snd_awaited]
  · have harrives := arrives_exit m.world name ⟨env, past, .normal⟩ hsettled
    rwa [await_fst_awaited] at harrives
  · intro text _ _
    rw [env_exit]

/-! ### Expressions whose value nobody needs -/

theorem past_drop (k : Moment V) (r : Outcome V × History V) : (k.drop r).past = r.2 := by
  obtain ⟨r | r, past⟩ := r <;> rfl

theorem env_drop (k : Moment V) (r : Outcome V × History V) : (k.drop r).env = k.env := by
  obtain ⟨r | r, past⟩ := r <;> rfl

theorem arrives_drop (w : World V) (inTry : Bool) (name : Key → String) (env : Env V)
    (past : History V) (r : Outcome V × History V) :
    Arrives w inTry name ((⟨env, past, .normal⟩ : Moment V).drop r) .discarded r.1 := by
  obtain ⟨r | r, past⟩ := r <;> rfl

/-- A value that nobody needs is computed, unless that has no effect. -/
theorem run_write_discarded (c : Context) (e : NodeId) (isPromise : Bool) (s : State) :
    ∃ ids s', (write c (some e) .discarded isPromise).run s = (ids, s') ∧ Makes s s' ∧
      ∀ (m : Machine V) (name : Key → String) (env : Env V) (past : History V)
        (result : Outcome V × History V),
        (∀ id : NodeId, s.tree.size ≤ id → m.senses.lookup id = none) →
        s'.tree.Grows m.tree → m.IsAtom e →
        m.atom? env past e = some result →
        Writable m.world s.tree .discarded isPromise e past result →
        ∃ k, Runs m ⟨env, past, .normal⟩ ids k ∧
          Delivers m.world c.inTry name .discarded [] env (m.world.await result.1, result.2) k := by
  by_cases hdrop : (!isPromise && s.tree.isSideEffectFree (some e)) = true
  · refine ⟨[], s, ?_, .refl s, ?_⟩
    · refine (run_get_bind _ s).trans ?_
      rw [if_pos hdrop]
      rfl
    -- A value that is not written would not have failed, nor changed anything.
    intro m name env past result _ _ _ hvalue hwrite
    obtain ⟨hp, hfree⟩ := Bool.and_eq_true_iff.mp hdrop
    have hp' : isPromise = false := by simpa using hp
    obtain ⟨hpast, v, hv⟩ := hwrite.dropped hp' hfree rfl
    have hawait : m.world.await result.1 = .ok v := by
      rw [m.world.await_of_isSettled (hwrite.settled hp'), hv]
    refine ⟨_, .nil _, hpast.symm, ?_, fun _ _ _ => rfl, nofun⟩
    rw [hawait]
    rfl
  · obtain ⟨id, s₁, hawait, hmakes₁, hnode₁, hid⟩ := run_makeAwaited isPromise e s
    obtain ⟨s₂, hstmt, hmakes₂, hnode₂⟩ :=
      run_make (.expressionStatement .statement (some id)) {} s₁
    refine ⟨[s₁.tree.size], s₂, ?_, hmakes₁.trans hmakes₂, ?_⟩
    · refine (run_get_bind _ s).trans ?_
      rw [if_neg hdrop]
      exact (run_bind hawait).trans (run_bind hstmt)
    intro m name env past result hsenses hgrow hatom hvalue hwrite
    have hnode : IsAwaited m.tree isPromise e id := hnode₁.grows (hmakes₂.grows.trans hgrow)
    have hstep : m.step? ⟨env, past, .normal⟩ s₁.tree.size =
        some ((⟨env, past, .normal⟩ : Moment V).drop (m.awaited isPromise result)) := by
      rw [Machine.step?_statement (hgrow.data? hnode₂.data?)
          (Machine.assignment?_of_isAwaited hnode hatom),
        Machine.value?_of_isAwaited env past hnode hatom fun h => hsenses id (hid h), hvalue]
      rfl
    refine ⟨_, runs_single rfl hstep, ?_, ?_, ?_, nofun⟩
    · rw [past_drop, snd_awaited]
    · rw [← fst_awaited m hwrite.settled]
      exact arrives_drop ..
    · intro text _ _
      rw [env_drop]

/-! ### Bindings -/

theorem past_bind (k : Moment V) (text : String) (isConst : Bool) (r : Outcome V × History V) :
    (k.bind text isConst r).past = r.2 := by
  obtain ⟨r | r, past⟩ := r <;> rfl

theorem env_bind_of_ne (k : Moment V) {text other : String} (isConst : Bool)
    (r : Outcome V × History V) (h : other ≠ text) :
    (k.bind text isConst r).env other = k.env other := by
  obtain ⟨r | r, past⟩ := r
  · rfl
  · exact k.env.set_of_ne _ h

theorem arrives_bind (w : World V) (inTry : Bool) (name : Key → String) (key : Key)
    (env : Env V) (past : History V) (isConst : Bool) (r : Outcome V × History V) :
    Arrives w inTry name ((⟨env, past, .normal⟩ : Moment V).bind (name key) isConst r)
      (.binding key) r.1 := by
  obtain ⟨r | r, past⟩ := r
  · rfl
  · exact ⟨rfl, isConst, Env.set_self ..⟩

theorem delivers_bind (w : World V) (inTry : Bool) (name : Key → String) (key : Key)
    (env : Env V) (past : History V) (isConst : Bool) (r : Outcome V × History V) :
    Delivers w inTry name (.binding key) [] env r
      ((⟨env, past, .normal⟩ : Moment V).bind (name key) isConst r) where
  past := past_bind ..
  arrives := arrives_bind ..
  frame text h _ := env_bind_of_ne _ _ _ (h key (List.mem_singleton_self key))
  kept x hx _ hkey _ := by
    obtain rfl := List.mem_singleton.mp hkey
    obtain ⟨r, past⟩ := r
    cases hx
    rfl

/-- The first write of a binding declares it, later ones assign. -/
theorem run_writeBinding (key : Key) (e : NodeId) (text : String) (s : State)
    (htext : s.register.name? key = some text) :
    ∃ id s', (writeBinding key (some e)).run s = (id, s') ∧ Effect (.binding key) [] s s' ∧
      ∀ (m : Machine V) (k : Moment V), k.completion = .normal →
        (∀ id : NodeId, s.tree.size ≤ id → m.senses.lookup id = none) →
        s'.tree.Grows m.tree →
        (s.register.isDeclared key = true → ∃ v, k.env text = some ⟨v, false⟩) →
        (s.register.isDeclared key = false → k.env text = none) →
        ∃ isConst, m.step? k id = (m.value? k.env k.past e).map (k.bind text isConst) := by
  obtain ⟨entry, hentry, rfl⟩ := Option.map_eq_some_iff.mp htext
  have hdeclared : s.register.isDeclared key = entry.isDeclared := by
    rw [Register.isDeclared, hentry]
    rfl
  have heffect : ∀ s₁, Makes s s₁ → Effect (.binding key) [] s
      { s₁ with register := (s₁.register.declare key).consume key } := by
    intro s₁ h
    refine ⟨⟨h.grows, h.successors, h.patched⟩, ?_, ?_, ?_⟩
    · intro other
      simp only [Register.name?_consume, Register.name?_declare, h.register]
    · intro other hother _
      have hne : other ≠ key := fun heq => hother (List.mem_singleton.mpr heq)
      simp only [Register.isDeclared_consume, Register.isDeclared_declare_of_ne _ hne, h.register]
    · intro other hother
      obtain rfl := List.mem_singleton.mp hother
      rw [Register.isDeclared_consume, h.register, Register.isDeclared_declare_self htext]
  cases hd : entry.isDeclared with
  | true =>
      obtain ⟨target, id, s₁, hrun, hmakes, hnode, hsize⟩ :=
        run_makeAssignment entry.name (some e) s
      refine ⟨id, _, ?_, heffect s₁ hmakes, ?_⟩
      · refine (run_get_bind _ s).trans ?_
        simp only [hentry, hd, if_pos]
        exact (run_bind hrun).trans rfl
      · intro m k hk hsenses hgrow hold _
        obtain ⟨v, hv⟩ := hold (hdeclared.trans hd)
        exact ⟨false, Machine.step?_assignment (hnode.grows hgrow) (hsenses _ hsize) hv⟩
  | false =>
      obtain ⟨id, s₁, hrun, hmakes, hnode, -⟩ :=
        run_makeVariable entry.name (some e) (entry.writesLeft > 1) s
      refine ⟨id, _, ?_, heffect s₁ hmakes, ?_⟩
      · refine (run_get_bind _ s).trans ?_
        simp only [hentry, hd]
        exact (run_bind hrun).trans rfl
      · intro m k hk hsenses hgrow _ hnew
        exact ⟨_, Machine.step?_variable (hnode.grows hgrow) (hnew (hdeclared.trans hd))⟩

/-- Writing a value brings it to the sink. -/
theorem run_write (c : Context) (e : NodeId) (sink : Sink) (isPromise : Bool) (s : State)
    (name : Key → String) (hname : ∀ key ∈ sink.keys, s.register.name? key = some (name key)) :
    ∃ ids s', (write c (some e) sink isPromise).run s = (ids, s') ∧ Effect sink [] s s' ∧
      ∀ (m : Machine V) (env : Env V) (past : History V) (result : Outcome V × History V),
        (∀ id : NodeId, s.tree.size ≤ id → m.senses.lookup id = none) →
        s'.tree.Grows m.tree → m.IsAtom e → Suits s.register name sink env →
        m.atom? env past e = some result →
        Writable m.world s.tree sink isPromise e past result →
        ∃ k, Runs m ⟨env, past, .normal⟩ ids k ∧
          Delivers m.world c.inTry name sink [] env (m.world.await result.1, result.2) k := by
  cases sink with
  | returned =>
      obtain ⟨ids, s', hrun, hmakes, hdelivers⟩ := run_write_returned c e isPromise s
      refine ⟨ids, s', hrun, hmakes.effect rfl [], ?_⟩
      intro m env past result hsenses hgrow hatom _ hvalue hwrite
      exact hdelivers m name env past result hsenses hgrow hatom hvalue hwrite
  | discarded =>
      obtain ⟨ids, s', hrun, hmakes, hdelivers⟩ := run_write_discarded c e isPromise s
      refine ⟨ids, s', hrun, hmakes.effect rfl [], ?_⟩
      intro m env past result hsenses hgrow hatom _ hvalue hwrite
      exact hdelivers m name env past result hsenses hgrow hatom hvalue hwrite
  | binding key =>
      have hkey : key ∈ (Sink.binding key).keys := List.mem_singleton_self key
      obtain ⟨id, s₁, hawait, hmakes, hnode, hid⟩ := run_makeAwaited isPromise e s
      obtain ⟨written, s₂, hrun, heffect, hstep⟩ := run_writeBinding (V := V) key id (name key) s₁
        (by rw [hmakes.register]; exact hname key hkey)
      refine ⟨[written], s₂, (run_bind hawait).trans (run_bind hrun), ?_, ?_⟩
      · exact hmakes.effect_trans heffect
      intro m env past result hsenses hgrow hatom hsuits hvalue hwrite
      have hsize : s.tree.size ≤ s₁.tree.size := hmakes.grows.evolves.size_le
      obtain ⟨isConst, hstep⟩ := hstep m ⟨env, past, .normal⟩ rfl
        (fun other hother => hsenses other (Nat.le_trans hsize hother)) hgrow
        (fun h => hsuits.declared key hkey (by rwa [hmakes.register] at h))
        (fun h => hsuits.undeclared key hkey (by rwa [hmakes.register] at h))
      have hvalue' : m.value? env past id = some (m.awaited isPromise result) := by
        rw [Machine.value?_of_isAwaited env past (hnode.grows (heffect.grows.trans hgrow)) hatom
          fun h => hsenses id (hid h), hvalue]
        rfl
      rw [hvalue'] at hstep
      refine ⟨_, runs_single rfl hstep, ?_⟩
      have hawaited : m.awaited isPromise result = (m.world.await result.1, result.2) :=
        Prod.ext (fst_awaited m hwrite.settled) (snd_awaited m isPromise result)
      rw [← hawaited]
      exact delivers_bind m.world c.inTry name key env past isConst _

/-! ### Declarations ahead and `try` -/

/-- The statements `ids` declare the bindings of the sink. -/
def Hoists (V : Type) (name : Key → String) (sink : Sink) (register register' : Register)
    (t' : Tree) (ids : List NodeId) : Prop :=
  ∀ (m : Machine V) (env : Env V) (past : History V), t'.Grows m.tree →
    Suits register name sink env →
    ∃ env', Runs m ⟨env, past, .normal⟩ ids ⟨env', past, .normal⟩ ∧
      Suits register' name sink env' ∧
      (∀ text, (∀ key ∈ sink.keys, text ≠ name key) → env' text = env text) ∧
      ∀ key ∈ sink.keys, (env (name key)).isSome → env' (name key) = env (name key)

/-- After hoisting, the bindings of the sink are declared. -/
theorem run_hoist (sink : Sink) (s : State) (name : Key → String)
    (hname : ∀ key ∈ sink.keys, s.register.name? key = some (name key)) :
    ∃ ids s', (hoist sink).run s = (ids, s') ∧ Effect sink [] s s' ∧
      Hoists V name sink s.register s'.register s'.tree ids := by
  cases sink with
  | returned | discarded =>
      refine ⟨[], s, rfl, (Makes.refl s).effect rfl [], ?_⟩
      exact fun m env past _ hsuits => ⟨env, .nil _, hsuits, fun _ _ => rfl, nofun⟩
  | binding key =>
      have hkey : key ∈ (Sink.binding key).keys := List.mem_singleton_self key
      have htext : s.register.name? key = some (name key) := hname key hkey
      cases hd : s.register.isDeclared key with
      | true =>
          refine ⟨[], s, ?_, ⟨.refl s, fun _ => rfl, fun _ _ _ => rfl, ?_⟩, ?_⟩
          · refine (run_get_bind _ s).trans ?_
            simp only [htext, hd]
            rfl
          · intro other hother
            obtain rfl := List.mem_singleton.mp hother
            exact hd
          · exact fun m env past _ hsuits => ⟨env, .nil _, hsuits, fun _ _ => rfl, fun _ _ _ => rfl⟩
      | false =>
          obtain ⟨id, s₁, hrun, hmakes, hnode, -⟩ := run_makeVariable (name key) none true
            { s with register := s.register.declare key }
          have hadds : Adds s s₁ := ⟨hmakes.grows, hmakes.successors, hmakes.patched⟩
          refine ⟨[id], s₁, ?_, ⟨hadds, ?_, ?_, ?_⟩, ?_⟩
          · refine (run_get_bind _ s).trans ?_
            simp only [htext, hd]
            exact (run_modify_bind _ _ s).trans (run_bind hrun)
          · intro other
            rw [hmakes.register, Register.name?_declare]
          · intro other hother _
            have hne : other ≠ key := fun heq => hother (List.mem_singleton.mpr heq)
            rw [hmakes.register, Register.isDeclared_declare_of_ne _ hne]
          · intro other hother
            obtain rfl := List.mem_singleton.mp hother
            rw [hmakes.register, Register.isDeclared_declare_self htext]
          -- Nothing has the name yet, so the new cell holds `undefined` and hides no other.
          · intro m env past hgrow hsuits
            have hnew : env (name key) = none := hsuits.undeclared key hkey hd
            refine ⟨_, runs_single rfl (Machine.step?_let (hnode.grows hgrow) hnew), ?_, ?_, ?_⟩
            · refine ⟨fun other hother _ => ?_, fun other hother h => ?_⟩
              · obtain rfl := List.mem_singleton.mp hother
                exact ⟨m.world.undefined, Env.set_self ..⟩
              · obtain rfl := List.mem_singleton.mp hother
                rw [hmakes.register, Register.isDeclared_declare_self htext] at h
                cases h
            · intro text h
              exact env.set_of_ne _ (h key hkey)
            · intro other hother hsome
              obtain rfl := List.mem_singleton.mp hother
              rw [hnew] at hsome
              cases hsome

theorem tryParts?_of_isTry {t : Tree} {tried handled : List NodeId} {text : String} {id : NodeId}
    (h : IsTry t tried (some text) handled id) :
    Execution.tryParts? t id = some (tried, text, handled) := by
  obtain ⟨block, clause, _, body, hid, hblock, hclause, hbody, binding, rfl, target, hdecl,
    htarget⟩ := h
  simp [Execution.tryParts?, hid, Tree.statements?, hblock, hclause, hdecl, Tree.identifierText?,
    Tree.partData?, htarget, hbody]

end Unroll

end Unchain
